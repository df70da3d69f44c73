/-!
# Hexadecimal text

Numbers are written in base sixteen behind `0x`, in one of four forms: either case of the digits,
with or without leading zeros up to a fixed number of digits.  A number with more digits than the
width asks for keeps them all.

* **`upper_inj`** — the text of a number determines it.
-/

namespace KernelMemory.Hex

/-- The base-sixteen digits of a number in lower case, most significant first. -/
def digits (n : Nat) : List Char :=
  Nat.toDigits 16 n

/-- Fills the digits of a number with leading zeros up to `width`. -/
def padded (width n : Nat) : List Char :=
  List.replicate (width - (digits n).length) '0' ++ digits n

/-- Lower-case digits without padding: `0x1f`. -/
def lower (n : Nat) : String :=
  "0x" ++ String.ofList (digits n)

/-- Upper-case digits without padding: `0x1F`. -/
def upper (n : Nat) : String :=
  "0x" ++ (String.ofList (digits n)).toUpper

/-- Lower-case digits, at least `width` of them. -/
def lowerPadded (width n : Nat) : String :=
  "0x" ++ String.ofList (padded width n)

/-- Upper-case digits, at least `width` of them. -/
def upperPadded (width n : Nat) : String :=
  "0x" ++ (String.ofList (padded width n)).toUpper

example : lower 0x1f = "0x1f" := by decide

example : lowerPadded 4 0x1f = "0x001f" := by decide

/-! ## The number that a text stands for -/

theorem digits_eq (n : Nat) :
    digits n = if n < 16 then [n.digitChar] else digits (n / 16) ++ [(n % 16).digitChar] :=
  Nat.toDigits_eq_if (by decide)

theorem toUpper_digitChar_inj {i j : Nat} (hi : i < 16) (hj : j < 16)
    (h : i.digitChar.toUpper = j.digitChar.toUpper) : i = j := by
  have hall : ∀ i < 16, ∀ j < 16,
      (Nat.digitChar i).toUpper = (Nat.digitChar j).toUpper → i = j := by
    decide
  exact hall i hi j hj h

/-- The digits in upper case, one by one from the last. -/
theorem map_toUpper_digits (n : Nat) :
    (digits n).map Char.toUpper = if n < 16 then [n.digitChar.toUpper]
      else (digits (n / 16)).map Char.toUpper ++ [(n % 16).digitChar.toUpper] := by
  rw [digits_eq]
  split
  · rfl
  · rw [List.map_append, List.map_singleton]

theorem map_toUpper_digits_inj {n m : Nat}
    (h : (digits n).map Char.toUpper = (digits m).map Char.toUpper) : n = m := by
  have hlong : ∀ {k : Nat} {c d : Char}, (digits k).map Char.toUpper ++ [c] ≠ [d] := by
    intro k c d heq
    have hlength := congrArg List.length heq
    simp [digits, Nat.toDigits_ne_nil] at hlength
  induction n using Nat.strongRecOn generalizing m with
  | ind n ih =>
      rw [map_toUpper_digits n, map_toUpper_digits m] at h
      by_cases hn : n < 16 <;> by_cases hm : m < 16
      · rw [if_pos hn, if_pos hm] at h
        exact toUpper_digitChar_inj hn hm (List.singleton_inj.mp h)
      · rw [if_pos hn, if_neg hm] at h
        exact absurd h.symm hlong
      · rw [if_neg hn, if_pos hm] at h
        exact absurd h hlong
      · rw [if_neg hn, if_neg hm] at h
        obtain ⟨hhigh, hlow⟩ := List.append_inj' h rfl
        have hquot : n / 16 = m / 16 := ih _ (by omega) hhigh
        have hrem : n % 16 = m % 16 := toUpper_digitChar_inj (Nat.mod_lt _ (by decide))
          (Nat.mod_lt _ (by decide)) (List.singleton_inj.mp hlow)
        omega

/-- **The text determines the number.** -/
theorem upper_inj {n m : Nat} : upper n = upper m ↔ n = m := by
  refine ⟨fun h => map_toUpper_digits_inj ?_, fun h => h ▸ rfl⟩
  have hdigits := congrArg String.toList ((String.append_right_inj _).mp h)
  simpa only [String.toUpper, String.toList_map, String.toList_ofList] using hdigits

end KernelMemory.Hex
