import KernelMemory.Proofs.Frames.FreeSet

/-!
# What has changed in a bitmap

A bitmap changes the bits of frames and nothing else, and whoever leaves its frames alone changes
nothing there.  So all that may differ from an earlier state, in the frames that hold the bits, is
the bits of the frames that were free then.

* `Bitmap.Since` — only bits of frames have changed.
* **`Bitmap.since`** — the laws of a bitmap of which that is known.
* `Bitmap.Since.taken_iff` — which bits are set.
-/

namespace KernelMemory.Bitmap

open LawfulSource KernelMemory.Action

variable {s₀ s s' : Store Bitmap} {held : Finset Frame} {f : Frame} {n : Nat} {w : UInt64}

/-- **Only bits of frames have changed** since an earlier state, among all that stands in the frames
of the bitmap. -/
structure Since (s₀ s : Store Bitmap) : Prop where
  source : s.source = s₀.source
  /-- The bits that belong to no frame are the same. -/
  padding {n : Nat} : s₀.source.frames ≤ n → n < s₀.source.words * wordBits →
    s₀.source.taken s.memory n = s₀.source.taken s₀.memory n
  /-- The words behind the bits are the same. -/
  behind {t : Slot} : s₀.source.HasBits t.table →
    (∀ k < s₀.source.words, t ≠ s₀.source.slot k) → s.memory.word t = s₀.memory.word t

namespace Since

lemma refl (s : Store Bitmap) : Since s s :=
  ⟨rfl, fun _ _ => rfl, fun _ _ => rfl⟩

lemma congr (h : Since s₀ s) (hsource : s'.source = s.source)
    (hsame : s.memory.AgreesOn s.source.HasBits s'.memory) : Since s₀ s' := by
  rw [h.source] at hsame
  refine ⟨hsource.trans h.source, fun hle hlt => ?_, fun ht hnot => ?_⟩
  · rw [taken_congr hsame hlt, h.padding hle hlt]
  · rw [hsame.word _ ht, h.behind ht hnot]

/-- The bit of a frame is written, and no bit that belongs to none. -/
lemma written (h : Since s₀ s) (hn : n < s₀.source.words * wordBits)
    (hsource : s'.source = s₀.source)
    (hmemory : s'.memory = s.memory.setWord (s₀.source.slot (n / wordBits)) w)
    (hbits : ∀ {n'}, s₀.source.frames ≤ n' → n' < s₀.source.words * wordBits →
      (s₀.source.taken s'.memory n' = false ↔ s₀.source.taken s.memory n' = false)) :
    Since s₀ s' := by
  refine ⟨hsource, fun hle hlt => ?_, fun {t} ht hnot => ?_⟩
  · rw [← h.padding hle hlt, Bool.eq_iff_iff, ← not_iff_not, Bool.not_eq_true, Bool.not_eq_true]
    exact hbits hle hlt
  · rw [hmemory, Memory.word_setWord, if_neg fun heq => hnot _ (word_lt hn) heq.symm,
      h.behind ht hnot]

lemma take (h : Since s₀ s) (hb : s₀.source.Placed) (hn : n < s₀.source.frames) :
    Since s₀ { s with memory := s.source.take s.memory n } := by
  rw [h.source]
  refine h.written (hb.bit_lt hn) rfl rfl fun hle hlt => ?_
  exact (hb.taken_take (hb.bit_lt hn) hlt).trans (and_iff_right (hn.trans_le hle).ne)

lemma release (h : Since s₀ s) (hb : s₀.source.Placed) (hn : n < s₀.source.frames) :
    Since s₀ { s with memory := s.source.release s.memory n } := by
  rw [h.source]
  refine h.written (hb.bit_lt hn) rfl rfl fun hle hlt => ?_
  exact (hb.taken_release (hb.bit_lt hn) hlt).trans (or_iff_right (hn.trans_le hle).ne)

/-- **A bit is set** if it was, or if its frame was free and is not any more. -/
theorem taken_iff (h : Since s₀ s) (hb : s₀.source.Sized) (hsub : freeSet s ⊆ freeSet s₀)
    (hn : n < s₀.source.words * wordBits) : s₀.source.taken s.memory n = true ↔
      s₀.source.taken s₀.memory n = true ∨
        ∃ f ∈ freeSet s₀, f ∉ freeSet s ∧ f.number = n := by
  have hb' : s.source.Sized := h.source ▸ hb
  rcases lt_or_ge n s₀.source.frames with hlt | hle
  · have hnumber : (Page.ofNumber n : Frame).number = n :=
      Page.number_ofNumber (hlt.trans_le hb.narrow)
    have hfree : ∀ {m : Memory}, s₀.source.taken m n = true ↔ ¬ s₀.source.taken m n = false := by
      simp
    have hin : .ofNumber n ∈ freeSet s ↔ s₀.source.taken s.memory n = false := by
      rw [hb'.mem_freeSet, h.source, hnumber, and_iff_right hlt]
    have hin₀ : .ofNumber n ∈ freeSet s₀ ↔ s₀.source.taken s₀.memory n = false := by
      rw [hb.mem_freeSet, hnumber, and_iff_right hlt]
    rw [hfree, hfree, ← hin, ← hin₀]
    constructor
    · intro hnot
      by_cases hf : .ofNumber n ∈ freeSet s₀
      · exact .inr ⟨_, hf, hnot, hnumber⟩
      · exact .inl hf
    · rintro (hnot | ⟨f, -, hnot, rfl⟩)
      · exact fun hf => hnot (hsub hf)
      · rwa [Page.ofNumber_number]
  · rw [h.padding hle hn, iff_self_or]
    rintro ⟨f, hf, -, rfl⟩
    exact absurd (hb.mem_freeSet.mp hf).1 hle.not_gt

end Since

/-! ## The laws -/

/-- **A bitmap of which only bits of frames have changed** since an earlier state is a well-behaved
source of frames. -/
@[reducible] def since (s₀ : Store Bitmap) : LawfulSource Bitmap where
  freeFrames := freeSet
  Books := HasBits
  Holds s held := InOrder s held ∧ Since s₀ s
  number_lt h hf := instLawfulSource.number_lt h.1 hf
  shown h hf := instLawfulSource.shown h.1 hf
  notBooks h hf := instLawfulSource.notBooks h.1 hf
  notFree h hf := instLawfulSource.notFree h.1 hf
  congr h hsource hsame := by
    obtain ⟨hheld, hfree⟩ := h.1.congr hsource hsame
    exact ⟨⟨hheld, h.2.congr hsource hsame⟩, hfree⟩
  alloc_returns h := alloc_returns h.1
  alloc_none h hrun := by
    obtain rfl := h.1.sized.eq_of_alloc_none hrun
    exact ⟨h, rfl, rfl, .refl _⟩
  alloc_some {s s' held f} h hrun := by
    obtain ⟨hf, hheld, hrest⟩ := alloc_some h.1 hrun
    obtain ⟨-, rfl⟩ := h.1.sized.of_alloc_some hrun
    have hb : s₀.source.Placed := h.2.source ▸ h.1.sized.toPlaced
    have hlt := (h.1.sized.mem_freeSet.mp hf).1
    rw [h.2.source] at hlt
    exact ⟨hf, ⟨hheld, h.2.take hb hlt⟩, hrest⟩
  free_returns {s held f} h hf := by
    obtain ⟨s', hrun, hheld, hrest⟩ := instLawfulSource.free_returns h.1 hf
    have hrun' := h.1.run_free hf
    rw [hrun'] at hrun
    cases hrun
    have hb : s₀.source.Placed := h.2.source ▸ h.1.sized.toPlaced
    have hlt := (h.1.held hf).1
    rw [h.2.source] at hlt
    exact ⟨_, hrun', ⟨hheld, h.2.release hb hlt⟩, hrest⟩

lemma usable_since (s₀ : Store Bitmap) : @UsableSource Bitmap _ (since s₀) :=
  @UsableSource.mk Bitmap _ (since s₀) fun {s held} _ h hf =>
    have hboth : InOrder s held ∧ Since s₀ s := h
    instUsableSource.usable hboth.1 hf

end KernelMemory.Bitmap
