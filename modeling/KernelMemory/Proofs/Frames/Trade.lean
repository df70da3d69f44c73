import KernelMemory.Proofs.Frames.Lawful
import Mathlib.Data.Finset.Lattice.Lemmas

/-!
# Trading frames with a source

What a client does with a source, seen from outside: it had some frames, and now has others.
Whatever the others hold is theirs before and after, no frame is lost on the way, and nothing but
the books is written to.  Clients that trade one after the other need not know of each other.

* **`Trade`** — a client had some frames of a source and has others now.
* `Trade.trans` — trades follow each other.
* **`Trade.refused`**, **`Trade.taken`**, **`Trade.given`** — what a single request is.
-/

namespace KernelMemory

open LawfulSource

variable {A : Type} [FrameSource A] [LawfulSource A] {s s' s'' : Store A}
  {own own' own'' held rest : Finset Frame} {f : Frame}

/-- **A client trades frames with a source**: it had some, and has others now. -/
structure Trade (s : Store A) (own : Finset Frame) (s' : Store A) (own' : Finset Frame) : Prop where
  books : Books s'.source = Books s.source
  /-- Nothing but the books is written to. -/
  memory : s.memory.AgreesOn (fun f => ¬ Books s.source f) s'.memory
  /-- What others hold, they hold. -/
  holds {rest : Finset Frame} : Disjoint own rest → Holds s (own ∪ rest) →
    Disjoint own' rest ∧ Holds s' (own' ∪ rest)
  /-- No frame is lost. -/
  conserved (f : Frame) : f ∈ own' ∨ f ∈ freeFrames s' ↔ f ∈ own ∨ f ∈ freeFrames s

namespace Trade

lemma refl (s : Store A) (own : Finset Frame) : Trade s own s own where
  books := rfl
  memory := .refl _
  holds hdisjoint hheld := ⟨hdisjoint, hheld⟩
  conserved _ := Iff.rfl

lemma trans (h : Trade s own s' own') (h' : Trade s' own' s'' own'') :
    Trade s own s'' own'' where
  books := h'.books.trans h.books
  memory := h.memory.trans (h.books ▸ h'.memory)
  holds hdisjoint hheld := by
    obtain ⟨hdisjoint', hheld'⟩ := h.holds hdisjoint hheld
    exact h'.holds hdisjoint' hheld'
  conserved f := (h'.conserved f).trans (h.conserved f)

/-- Nothing happens to the source and to memory. -/
lemma of_eq (hheld : Holds s held) (hsource : s'.source = s.source)
    (hmemory : s'.memory = s.memory) (own : Finset Frame) : Trade s own s' own where
  books := by rw [hsource]
  memory := hmemory ▸ .refl _
  holds hdisjoint hheld := ⟨hdisjoint, (congr hheld hsource (hmemory ▸ .refl _)).1⟩
  conserved f := by rw [(congr hheld hsource (hmemory ▸ .refl _)).2]

/-- **A request is refused.** -/
theorem refused (hheld : Holds s held)
    (hrun : (FrameSource.alloc : Action (Store A) _).run s = .ok none s') (own : Finset Frame) :
    Trade s own s' own := by
  obtain ⟨-, hfree, hbooks, hagree⟩ := alloc_none hheld hrun
  refine ⟨hbooks, hagree, fun hdisjoint hheld => ⟨hdisjoint, ?_⟩, fun g => by rw [hfree]⟩
  exact (alloc_none hheld hrun).1

/-- **A frame is handed out.** -/
theorem taken (hheld : Holds s held)
    (hrun : (FrameSource.alloc : Action (Store A) _).run s = .ok (some f) s') (own : Finset Frame) :
    Trade s own s' (insert f own) := by
  obtain ⟨hf, -, hfree, hbooks, hagree⟩ := alloc_some hheld hrun
  refine ⟨hbooks, hagree, fun {rest} hdisjoint hheld => ?_, fun g => ?_⟩
  · have hnot : f ∉ rest := fun hin => notFree hheld (Finset.mem_union_right own hin) hf
    rw [Finset.insert_union]
    exact ⟨Finset.disjoint_insert_left.mpr ⟨hnot, hdisjoint⟩, (alloc_some hheld hrun).2.1⟩
  · rw [hfree, Finset.mem_insert, Finset.mem_erase]
    rcases eq_or_ne g f with rfl | hne
    · simp [hf]
    · simp [hne]

/-- **A frame is given back.** -/
theorem given (hf : f ∈ own) (hheld : Holds s (own ∪ rest))
    (hrun : (FrameSource.free f : Action (Store A) _).run s = .ok () s') :
    Trade s own s' (own.erase f) := by
  have hreturns : ∀ {rest}, Holds s (own ∪ rest) → Holds s' ((own ∪ rest).erase f) ∧
      freeFrames s' = insert f (freeFrames s) ∧ Books s'.source = Books s.source ∧
      s.memory.AgreesOn (fun f => ¬ Books s.source f) s'.memory := by
    intro rest hheld
    obtain ⟨s₁, hrun₁, hrest⟩ := free_returns hheld (Finset.mem_union_left rest hf)
    rw [hrun₁] at hrun
    cases hrun
    exact hrest
  obtain ⟨-, hfree, hbooks, hagree⟩ := hreturns hheld
  refine ⟨hbooks, hagree, fun {rest} hdisjoint hheld => ?_, fun g => ?_⟩
  · have hheld' := (hreturns hheld).1
    rw [Finset.erase_union_distrib,
      Finset.erase_eq_of_notMem (Finset.disjoint_left.mp hdisjoint hf)] at hheld'
    exact ⟨hdisjoint.mono_left (Finset.erase_subset f own), hheld'⟩
  · rw [hfree, Finset.mem_erase, Finset.mem_insert]
    rcases eq_or_ne g f with rfl | hne
    · simp [hf]
    · simp [hne]

end Trade

end KernelMemory
