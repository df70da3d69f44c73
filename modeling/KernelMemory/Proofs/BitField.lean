import KernelMemory.BitField
import Mathlib.Tactic.Lemma

/-!
# Fields of a word keep to themselves

A field is replaced by taking its value off the word and putting another one in its place.  This
changes the bits of the field and no others, because the value that is taken off is the one that
stands there, and one that would reach into the next field is refused.

* `BitField.Has` — the bits of a field; `BitField.Apart` — two fields have none in common.
* `BitField.set_eq_ok_iff`, `BitField.set_of_max_lt` — which values are taken.
* **`BitField.testBit_set`** — the new word, bit by bit.
* **`BitField.get_set`**, **`BitField.get_set_of_apart`** — what is read off it, from the field and
  from the fields that are apart from it.
-/

namespace KernelMemory.BitField

variable {f g : BitField} {w w' : UInt64} {v i : Nat}

/-- The field has a bit of the word. -/
def Has (f : BitField) (i : Nat) : Prop :=
  f.offset ≤ i ∧ i < f.offset + f.width
deriving Decidable

/-- Two fields have no bit in common. -/
def Apart (f g : BitField) : Prop :=
  f.offset + f.width ≤ g.offset ∨ g.offset + g.width ≤ f.offset
deriving Decidable

lemma Apart.symm (h : f.Apart g) : g.Apart f :=
  Or.symm h

lemma Apart.not_has (h : f.Apart g) (hg : g.Has i) : ¬ f.Has i := by
  rintro ⟨hle, hlt⟩
  obtain ⟨hle', hlt'⟩ := hg
  rcases h with h | h <;> omega

/-! ## Reading -/

lemma testBit_get (f : BitField) (w : UInt64) (i : Nat) :
    (f.get w).testBit i = (decide (i < f.width) && w.toNat.testBit (f.offset + i)) := by
  rw [get, Nat.testBit_mod_two_pow, Nat.testBit_div_two_pow, Nat.add_comm]

/-- A field depends on its bits alone. -/
lemma get_congr (h : ∀ i, f.Has i → w'.toNat.testBit i = w.toNat.testBit i) :
    f.get w' = f.get w := by
  refine Nat.eq_of_testBit_eq fun i => ?_
  rw [testBit_get, testBit_get]
  by_cases hi : i < f.width
  · rw [h (f.offset + i) ⟨Nat.le_add_right _ _, Nat.add_lt_add_left hi _⟩]
  · simp [hi]

/-- A field none of whose bits is set reads as zero. -/
lemma get_eq_zero (h : ∀ i, f.Has i → w.toNat.testBit i = false) : f.get w = 0 := by
  have hget : f.get w = f.get 0 := get_congr fun i hi => by
    rw [h i hi]
    exact (Nat.zero_testBit i).symm
  rw [hget, get]
  exact (congrArg (· % _) (Nat.zero_div _)).trans (Nat.zero_mod _)

/-! ## Replacing -/

lemma le_max_iff : v ≤ f.max ↔ v < 2 ^ f.width := by
  have := Nat.two_pow_pos f.width
  rw [max]
  omega

lemma set_eq_ok_iff : f.set w v = .ok w' ↔ v < 2 ^ f.width ∧
    UInt64.ofNat (w.toNat - f.get w * 2 ^ f.offset + v * 2 ^ f.offset) = w' := by
  rw [set, ← le_max_iff]
  split <;> simp [*]

/-- **A value that does not fit** is refused. -/
theorem set_of_max_lt (h : f.max < v) : f.set w v = .error (.valueOutOfBounds f.max) := by
  rw [set, if_neg (Nat.not_le_of_lt h)]

/-- A number made of what lies above a field, the field and what lies below it, bit by bit. -/
lemma testBit_digits {above below : Nat} (hv : v < 2 ^ f.width) (hbelow : below < 2 ^ f.offset)
    (i : Nat) : (2 ^ f.offset * (2 ^ f.width * above + v) + below).testBit i =
      if f.Has i then v.testBit (i - f.offset)
      else if i < f.offset then below.testBit i else above.testBit (i - f.offset - f.width) := by
  rw [Nat.testBit_two_pow_mul_add _ hbelow, Nat.testBit_two_pow_mul_add _ hv]
  by_cases hlt : i < f.offset
  · rw [if_pos hlt, if_pos hlt, if_neg fun h => absurd h.1 (Nat.not_le_of_lt hlt)]
  · rw [if_neg hlt, if_neg hlt]
    by_cases hhas : f.Has i
    · have := hhas.2
      rw [if_pos hhas, if_pos (by omega)]
    · have : ¬ i < f.offset + f.width := fun h => hhas ⟨Nat.le_of_not_lt hlt, h⟩
      rw [if_neg hhas, if_neg (by omega)]

section

variable (hf : f.offset + f.width ≤ 64) (h : f.set w v = .ok w')
include hf h

/-- **A field is replaced bit by bit**, and no bit outside it changes. -/
theorem testBit_set (i : Nat) :
    w'.toNat.testBit i = if f.Has i then v.testBit (i - f.offset) else w.toNat.testBit i := by
  obtain ⟨hv, rfl⟩ := set_eq_ok_iff.mp h
  have hbelow : w.toNat % 2 ^ f.offset < 2 ^ f.offset := Nat.mod_lt _ (Nat.two_pow_pos _)
  have hold : f.get w < 2 ^ f.width := Nat.mod_lt _ (Nat.two_pow_pos _)
  -- The word and the new one differ in the middle digit only.
  have hword : 2 ^ f.offset * (2 ^ f.width * (w.toNat / 2 ^ f.offset / 2 ^ f.width) + f.get w) +
      w.toNat % 2 ^ f.offset = w.toNat := by
    rw [get, Nat.div_add_mod, Nat.div_add_mod]
  have hnew : w.toNat - f.get w * 2 ^ f.offset + v * 2 ^ f.offset =
      2 ^ f.offset * (2 ^ f.width * (w.toNat / 2 ^ f.offset / 2 ^ f.width) + v) +
        w.toNat % 2 ^ f.offset := by
    rw [Nat.mul_add] at hword ⊢
    rw [Nat.mul_comm (f.get w), Nat.mul_comm v]
    omega
  rw [UInt64.toNat_ofNat', Nat.testBit_mod_two_pow]
  by_cases hi : i < 64
  · rw [hnew, testBit_digits hv hbelow, decide_eq_true hi, Bool.true_and]
    conv => rhs; rw [← hword, testBit_digits hold hbelow]
    split <;> rfl
  · have hhas : ¬ f.Has i := fun h => by
      have := h.2
      omega
    have hlt : w.toNat < 2 ^ i :=
      Nat.lt_of_lt_of_le w.toNat_lt (Nat.pow_le_pow_right (by decide) (Nat.le_of_not_lt hi))
    rw [if_neg hhas, Nat.testBit_lt_two_pow hlt, decide_eq_false hi, Bool.false_and]

/-- A field reads back as what was put there. -/
lemma get_set : f.get w' = v := by
  obtain ⟨hv, -⟩ := set_eq_ok_iff.mp h
  refine Nat.eq_of_testBit_eq fun i => ?_
  rw [testBit_get, testBit_set hf h]
  by_cases hi : i < f.width
  · have hhas : f.Has (f.offset + i) := ⟨Nat.le_add_right _ _, Nat.add_lt_add_left hi _⟩
    rw [if_pos hhas, Nat.add_sub_cancel_left, decide_eq_true hi, Bool.true_and]
  · have hlt : v < 2 ^ i :=
      Nat.lt_of_lt_of_le hv (Nat.pow_le_pow_right (by decide) (Nat.le_of_not_lt hi))
    rw [Nat.testBit_lt_two_pow hlt, decide_eq_false hi, Bool.false_and]

/-- **Other fields read as before.** -/
theorem get_set_of_apart (hapart : f.Apart g) : g.get w' = g.get w :=
  get_congr fun i hi => by rw [testBit_set hf h, if_neg (hapart.not_has hi)]

end

end KernelMemory.BitField
