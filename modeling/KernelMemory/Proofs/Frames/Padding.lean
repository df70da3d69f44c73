import KernelMemory.Proofs.Frames.Bitmap
import Mathlib.Data.Finset.Max
import Mathlib.Data.Nat.Count

/-!
# Padding of the bitmap

The last word of a bitmap may have more bits than frames are left.  Those bits are set, and stay
set, because only bits of frames are ever changed.  So the scan for a clear bit never stops at one
of them, and the number of set bits exceeds the number of frames that are taken by just as many.

* `Bitmap.Padded` — the bits that belong to no frame are set.
* **`Bitmap.Padded.lowestFree?_eq_find?`** — the lowest clear bit is that of the lowest free frame.
* **`Bitmap.Padded.freeBytes_eq`**, **`Bitmap.Padded.usedBytes_eq`** — the totals count frames.
-/

namespace KernelMemory.Bitmap

variable {b : Bitmap} {m m' : Memory} {n : Nat}

/-- The bits that belong to no frame are set, and there are not enough of them for a word. -/
structure Padded (b : Bitmap) (m : Memory) : Prop where
  /-- The bits can be told apart. -/
  placed : b.Placed
  /-- Every frame lies below the end of the address space. -/
  frames_lt : b.frames < 2 ^ 52
  /-- The last word has a frame. -/
  tight : b.words * wordBits < b.frames + wordBits
  /-- A bit without a frame is set. -/
  padding {n : Nat} : b.frames ≤ n → n < b.words * wordBits → b.taken m n = true

/-- The numbers of the free frames. -/
def freeNumbers (b : Bitmap) (m : Memory) : Finset Nat :=
  (Finset.range b.frames).filter fun n => b.taken m n = false

@[simp] lemma mem_freeNumbers : n ∈ b.freeNumbers m ↔ n < b.frames ∧ b.taken m n = false := by
  simp [freeNumbers]

lemma card_freeNumbers_le : (b.freeNumbers m).card ≤ b.frames := by
  simpa [freeNumbers] using Finset.card_filter_le (Finset.range b.frames) _

namespace Padded

/-! ## Changes to the bits -/

/-- Nothing but the words of the bitmap matters. -/
lemma congr (h : b.Padded m) (hsame : ∀ k < b.words, b.bits m' k = b.bits m k) :
    b.Padded m' where
  placed := h.placed
  frames_lt := h.frames_lt
  tight := h.tight
  padding hn hlt := by
    rw [taken, hsame _ (word_lt hlt)]
    exact h.padding hn hlt

/-- A bit of a frame may be set. -/
lemma take (h : b.Padded m) (hn : n < b.frames) : b.Padded (b.take m n) where
  placed := h.placed
  frames_lt := h.frames_lt
  tight := h.tight
  padding hle hlt := by
    rw [← Bool.not_eq_false, h.placed.taken_take (h.placed.bit_lt hn) hlt, h.padding hle hlt]
    simp

lemma freeNumbers_take (h : b.Padded m) (hn : n < b.frames) :
    b.freeNumbers (b.take m n) = (b.freeNumbers m).erase n := by
  ext k
  rw [Finset.mem_erase, mem_freeNumbers, mem_freeNumbers]
  constructor
  · rintro ⟨hk, hclear⟩
    rw [h.placed.taken_take (h.placed.bit_lt hn) (h.placed.bit_lt hk)] at hclear
    exact ⟨Ne.symm hclear.1, hk, hclear.2⟩
  · rintro ⟨hne, hk, hclear⟩
    rw [h.placed.taken_take (h.placed.bit_lt hn) (h.placed.bit_lt hk)]
    exact ⟨hk, Ne.symm hne, hclear⟩

/-- A bit of a frame may be cleared. -/
lemma release (h : b.Padded m) (hn : n < b.frames) : b.Padded (b.release m n) where
  placed := h.placed
  frames_lt := h.frames_lt
  tight := h.tight
  padding hle hlt := by
    rw [← Bool.not_eq_false, h.placed.taken_release (h.placed.bit_lt hn) hlt, h.padding hle hlt]
    simp only [Bool.true_eq_false, or_false]
    omega

lemma freeNumbers_release (h : b.Padded m) (hn : n < b.frames) :
    b.freeNumbers (b.release m n) = insert n (b.freeNumbers m) := by
  ext k
  rw [Finset.mem_insert, mem_freeNumbers, mem_freeNumbers]
  constructor
  · rintro ⟨hk, hclear⟩
    rw [h.placed.taken_release (h.placed.bit_lt hn) (h.placed.bit_lt hk)] at hclear
    exact hclear.imp Eq.symm fun hclear => ⟨hk, hclear⟩
  · rintro (rfl | ⟨hk, hclear⟩)
    · exact ⟨hn, (h.placed.taken_release (h.placed.bit_lt hn) (h.placed.bit_lt hn)).mpr (.inl rfl)⟩
    · rw [h.placed.taken_release (h.placed.bit_lt hn) (h.placed.bit_lt hk)]
      exact ⟨hk, .inr hclear⟩

/-! ## The lowest clear bit -/

/-- The bits are those of the frames, and then the padding. -/
lemma range_bits (h : b.Padded m) : List.range (b.words * wordBits) =
    List.range b.frames ++ List.range' b.frames (b.words * wordBits - b.frames) := by
  have happend := List.range'_append_1 (s := 0) (m := b.frames) (n := b.words * wordBits - b.frames)
  rw [Nat.zero_add, Nat.add_sub_cancel' h.placed.covers] at happend
  rw [List.range_eq_range', List.range_eq_range', happend]

lemma taken_of_mem_padding (h : b.Padded m)
    (hn : n ∈ List.range' b.frames (b.words * wordBits - b.frames)) : b.taken m n = true := by
  rw [List.mem_range'_1] at hn
  exact h.padding hn.1 (by omega)

/-- **The lowest clear bit is that of the lowest free frame.** -/
theorem lowestFree?_eq_find? (h : b.Padded m) :
    b.lowestFree? m = (List.range b.frames).find? fun n => !b.taken m n := by
  have hpadding : (List.range' b.frames (b.words * wordBits - b.frames)).find?
      (fun n => !b.taken m n) = none := by
    rw [List.find?_eq_none]
    intro n hn
    simp [h.taken_of_mem_padding hn]
  rw [lowestFree?, findFree?_eq_find?, Nat.zero_mul, ← List.range_eq_range', h.range_bits,
    List.find?_append, hpadding, Option.or_none]
  cases hfind : (List.range b.frames).find? fun n => !b.taken m n with
  | none => rfl
  | some n => simpa using List.mem_of_find?_eq_some hfind

lemma lowestFree?_eq_none_iff (h : b.Padded m) :
    b.lowestFree? m = none ↔ b.freeNumbers m = ∅ := by
  rw [h.lowestFree?_eq_find?, List.find?_eq_none, Finset.eq_empty_iff_forall_notMem]
  simp

/-- The frame that is found is the lowest of those that are free. -/
lemma lowestFree?_eq_min' (h : b.Padded m) (hfree : (b.freeNumbers m).Nonempty) :
    b.lowestFree? m = some ((b.freeNumbers m).min' hfree) := by
  rw [h.lowestFree?_eq_find?, List.find?_range_eq_some]
  have hmin := mem_freeNumbers.mp ((b.freeNumbers m).min'_mem hfree)
  refine ⟨by simpa using hmin.2, by simpa using hmin.1, fun k hk => ?_⟩
  have hnot : k ∉ b.freeNumbers m := fun hmem => hk.not_ge (Finset.min'_le _ _ hmem)
  rw [mem_freeNumbers, not_and] at hnot
  simpa using hnot (hk.trans hmin.1)

/-! ## The number of set bits -/

end Padded

/-- **The count by words is a count by bits.** -/
theorem sum_onesCount {words : Nat} :
    ((List.range words).map fun k => onesCount (b.bits m k) wordBits).sum =
      (List.range (words * wordBits)).countP fun n => b.taken m n := by
  induction words with
  | zero => simp
  | succ words ih =>
      have hword :
          ((List.range wordBits).map (words * wordBits + ·)).countP (fun n => b.taken m n) =
            onesCount (b.bits m words) wordBits := by
        rw [onesCount_eq_countP, List.countP_map]
        refine List.countP_congr fun i hi => ?_
        rw [Function.comp_apply, taken_add (List.mem_range.mp hi)]
      rw [List.range_succ, List.map_append, List.sum_append, ih, Nat.succ_mul, List.range_add,
        List.countP_append, hword]
      simp

namespace Padded

/-- Of the bits that are set, those without a frame are too many. -/
lemma sum_onesCount_eq (h : b.Padded m) :
    ((List.range b.words).map fun k => onesCount (b.bits m k) wordBits).sum =
      b.frames - (b.freeNumbers m).card + (b.words * wordBits - b.frames) := by
  have hpadding : (List.range' b.frames (b.words * wordBits - b.frames)).countP
      (fun n => b.taken m n) = b.words * wordBits - b.frames := by
    rw [List.countP_eq_length.mpr fun n hn => h.taken_of_mem_padding hn, List.length_range']
  have hfree : (List.range b.frames).countP (fun n => !b.taken m n) = (b.freeNumbers m).card := by
    rw [freeNumbers, ← Nat.count_eq_card_filter_range, Nat.count]
    refine List.countP_congr fun n _ => ?_
    simp
  have htotal := List.length_eq_countP_add_countP (fun n => b.taken m n) (l := List.range b.frames)
  simp only [Bool.not_eq_true, Bool.decide_eq_false] at htotal
  rw [List.length_range, hfree] at htotal
  rw [sum_onesCount, h.range_bits, List.countP_append, hpadding]
  omega

/-- **The free memory is that of the free frames.** -/
theorem freeBytes_eq (h : b.Padded m) :
    b.freeBytes m = .ok (pageSize * (b.freeNumbers m).card) := by
  have hcard := card_freeNumbers_le (b := b) (m := m)
  have hcovers := h.placed.covers
  have htight := h.tight
  have hframes := h.frames_lt
  have hsum := h.sum_onesCount_eq
  have hbits : b.words * wordBits < 2 ^ 64 := by
    simp only [wordBits] at htight ⊢
    omega
  rw [freeBytes, Checked.sum_eq_ok (by omega), hsum, Checked.bind_eq_ok]
  refine ⟨_, rfl, Checked.bind_eq_ok.mpr ⟨_, Checked.mul_eq_ok_iff.mpr ⟨hbits, rfl⟩, ?_⟩⟩
  refine Checked.bind_eq_ok.mpr ⟨_, Checked.sub_eq_ok_iff.mpr ⟨hcovers, rfl⟩, ?_⟩
  refine Checked.bind_eq_ok.mpr ⟨_, Checked.sub_eq_ok_iff.mpr ⟨by omega, rfl⟩, ?_⟩
  refine Checked.bind_eq_ok.mpr ⟨_, Checked.sub_eq_ok_iff.mpr ⟨by omega, rfl⟩, ?_⟩
  rw [Checked.mul_eq_ok_iff]
  simp only [pageSize]
  omega

/-- **The used memory is that of all other frames.** -/
theorem usedBytes_eq (h : b.Padded m) :
    b.usedBytes m = .ok (pageSize * (b.frames - (b.freeNumbers m).card)) := by
  have hcard := card_freeNumbers_le (b := b) (m := m)
  have hframes := h.frames_lt
  have htotal : b.totalBytes = .ok (b.frames * pageSize) :=
    Checked.mul_eq_ok_iff.mpr ⟨by simp only [pageSize]; omega, rfl⟩
  rw [usedBytes, htotal, h.freeBytes_eq]
  refine Checked.sub_eq_ok_iff.mpr ⟨?_, ?_⟩
  · rw [Nat.mul_comm b.frames]
    exact Nat.mul_le_mul_left pageSize hcard
  · rw [Nat.mul_comm b.frames, Nat.mul_sub]

end Padded

end KernelMemory.Bitmap
