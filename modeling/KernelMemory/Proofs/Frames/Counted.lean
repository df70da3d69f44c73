import KernelMemory.Proofs.Frames.FreeSet
import KernelMemory.Proofs.Frames.Pool

/-!
# Sources that can be counted

A client that wants to know how many frames it got relies on less than the page tables do: that the
source has a number of free frames, which falls by one with each frame that is handed out and rises
by one if the frame comes back at once, and that a request is refused only when the number is zero.
Nothing is said here about which frames those are, whether the window shows them, or whether a frame
that is handed out may still be held by somebody.

* **`CountedSource`** — a source with a number of free frames.
* `CountedSource.ofLawful` — a well-behaved source that refuses only while nothing is free.
* **`Bitmap.instCountedSource`** — a bitmap, whatever frames were given back to it; it hands out no
  frame that ends where addresses do.
-/

namespace KernelMemory

variable {A : Type} [FrameSource A]

/-- **A source with a number of free frames.** -/
class CountedSource (A : Type) [FrameSource A] where
  /-- The source is in order. -/
  Steady : Store A → Prop
  /-- How many frames are free. -/
  available : Store A → Nat
  /-- Frames that are handed out have lower numbers. -/
  limit : Nat
  limit_le : limit ≤ 2 ^ 52
  /-- What is noted does not matter. -/
  of_eq {s s'} : Steady s → s'.source = s.source → s'.memory = s.memory →
    Steady s' ∧ available s' = available s
  /-- A request for a frame is answered. -/
  alloc_returns {s} : Steady s →
    ∃ r s', (FrameSource.alloc : Action (Store A) _).run s = .ok r s'
  /-- A request is refused only while no frame is free. -/
  alloc_none {s s'} : Steady s →
    (FrameSource.alloc : Action (Store A) _).run s = .ok none s' →
    Steady s' ∧ available s = 0 ∧ available s' = 0
  /-- A frame that is handed out is one free frame less. -/
  alloc_some {s s' f} : Steady s →
    (FrameSource.alloc : Action (Store A) _).run s = .ok (some f) s' →
    Steady s' ∧ f.number < limit ∧ available s = available s' + 1
  /-- A frame that was just handed out can be given back. -/
  free_alloc {s s' f} : Steady s →
    (FrameSource.alloc : Action (Store A) _).run s = .ok (some f) s' →
    ∃ s'', (FrameSource.free f : Action (Store A) _).run s' = .ok () s'' ∧ Steady s'' ∧
      available s'' = available s

export CountedSource (Steady available)

/-- **A well-behaved source can be counted** if it refuses only while nothing is free. -/
@[reducible] def CountedSource.ofLawful [LawfulSource A] [GenerousSource A] : CountedSource A where
  Steady s := ∃ held, Holds s held
  available s := (freeFrames s).card
  limit := 2 ^ 40
  limit_le := by decide
  of_eq := fun ⟨held, hheld⟩ hsource hmemory => by
    obtain ⟨hheld', hfree⟩ := LawfulSource.congr hheld hsource (hmemory ▸ .refl _)
    exact ⟨⟨held, hheld'⟩, congrArg Finset.card hfree⟩
  alloc_returns := fun ⟨_, hheld⟩ => LawfulSource.alloc_returns hheld
  alloc_none := fun ⟨held, hheld⟩ hrun => by
    obtain ⟨hheld', hfree, -⟩ := LawfulSource.alloc_none hheld hrun
    have hempty := GenerousSource.free_eq_empty hheld hrun
    rw [hfree, hempty]
    exact ⟨⟨held, hheld'⟩, rfl, rfl⟩
  alloc_some := fun ⟨held, hheld⟩ hrun => by
    obtain ⟨hf, hheld', hfree, -⟩ := LawfulSource.alloc_some hheld hrun
    rw [hfree, Finset.card_erase_add_one hf]
    exact ⟨⟨_, hheld'⟩, LawfulSource.number_lt hheld hf, rfl⟩
  free_alloc := fun ⟨held, hheld⟩ hrun => by
    obtain ⟨hf, hheld', hfree, -⟩ := LawfulSource.alloc_some hheld hrun
    obtain ⟨s'', hrun', hheld'', hfree', -⟩ :=
      LawfulSource.free_returns hheld' (Finset.mem_insert_self _ held)
    refine ⟨s'', hrun', ⟨_, hheld''⟩, ?_⟩
    rw [hfree', hfree, Finset.insert_erase hf]

instance Pool.instCountedSource : CountedSource Pool :=
  .ofLawful

namespace Bitmap

variable {s s' : Store Bitmap} {f : Frame}

/-- A bitmap answers each request, with its lowest free frame if it has one. -/
lemma Reached.run_alloc (h : Reached s) :
    (s.source.freeNumbers s.memory = ∅ ∧
      (FrameSource.alloc : Action (Store Bitmap) _).run s = .ok none s) ∨
    ∃ (f : Frame) (s' : Store Bitmap), f.number ∈ s.source.freeNumbers s.memory ∧
      (FrameSource.alloc : Action (Store Bitmap) _).run s = .ok (some f) s' ∧ Reached s' ∧
      s'.source = s.source ∧
      s'.source.freeNumbers s'.memory = (s.source.freeNumbers s.memory).erase f.number := by
  obtain ⟨hinit, hpadded⟩ := h.padded
  have hrun : ∀ {r s'}, allocate.run s = .ok r s' →
      (FrameSource.alloc : Action (Store Bitmap) _).run s = .ok r.toOption s' := by
    intro r s' hallocate
    change EStateM.run (allocate >>= fun r => Pure.pure r.toOption) s = _
    rw [Action.run_bind hallocate]
    rfl
  rcases (s.source.freeNumbers s.memory).eq_empty_or_nonempty with hempty | hfree
  · exact .inl ⟨hempty, hrun (run_allocate_of_empty hinit hpadded hempty)⟩
  · have hallocate := run_allocate_of_nonempty hinit hpadded hfree
    have hmin := Finset.min'_mem _ hfree
    obtain ⟨hlt, -⟩ := mem_freeNumbers.mp hmin
    refine .inr ⟨_, _, ?_, hrun hallocate, h.allocated hallocate, rfl, ?_⟩
    · rwa [Page.number_ofNumber (hlt.trans hpadded.frames_lt)]
    · rw [Page.number_ofNumber (hlt.trans hpadded.frames_lt)]
      exact hpadded.freeNumbers_take hlt

/-- A request that a bitmap refuses finds nothing free. -/
lemma Reached.alloc_none (h : Reached s)
    (hrun : (FrameSource.alloc : Action (Store Bitmap) _).run s = .ok none s') :
    s' = s ∧ s.source.freeNumbers s.memory = ∅ := by
  rcases h.run_alloc with ⟨hempty, hrun'⟩ | ⟨f, s₁, -, hrun', -⟩
  · rw [hrun'] at hrun
    cases hrun
    exact ⟨rfl, hempty⟩
  · rw [hrun'] at hrun
    cases hrun

/-- A frame that a bitmap hands out was free. -/
lemma Reached.alloc_some (h : Reached s)
    (hrun : (FrameSource.alloc : Action (Store Bitmap) _).run s = .ok (some f) s') :
    f.number ∈ s.source.freeNumbers s.memory ∧ Reached s' ∧ s'.source = s.source ∧
      s'.source.freeNumbers s'.memory = (s.source.freeNumbers s.memory).erase f.number := by
  rcases h.run_alloc with ⟨-, hrun'⟩ | ⟨g, s₁, hg, hrun', hafter⟩
  · rw [hrun'] at hrun
    cases hrun
  · rw [hrun'] at hrun
    cases hrun
    exact ⟨hg, hafter⟩

/-- **A bitmap can be counted**, whatever frames it was given. -/
instance instCountedSource : CountedSource Bitmap where
  Steady := Reached
  available s := (s.source.freeNumbers s.memory).card
  limit := 2 ^ 52 - 1
  limit_le := by decide
  of_eq h hsource hmemory := by
    refine ⟨.elsewhere h hsource fun _ _ => by rw [hmemory], ?_⟩
    rw [hsource, hmemory]
  alloc_returns h := by
    rcases h.run_alloc with ⟨-, hrun⟩ | ⟨f, s', -, hrun, -⟩
    · exact ⟨_, _, hrun⟩
    · exact ⟨_, _, hrun⟩
  alloc_none h hrun := by
    obtain ⟨rfl, hempty⟩ := h.alloc_none hrun
    rw [hempty]
    exact ⟨h, rfl, rfl⟩
  alloc_some h hrun := by
    obtain ⟨hf, h', -, hfree⟩ := h.alloc_some hrun
    have hlt := (mem_freeNumbers.mp hf).1
    have hframes := h.padded.2.frames_lt
    rw [hfree, Finset.card_erase_add_one hf]
    exact ⟨h', by omega, rfl⟩
  free_alloc {s s' f} h hrun := by
    obtain ⟨hf, h', hsource, hfree⟩ := h.alloc_some hrun
    obtain ⟨hinit, hpadded⟩ := h'.padded
    have hlt : f.base.page.number < s'.source.frames := by
      rw [Address.page_base, hsource]
      exact (mem_freeNumbers.mp hf).1
    obtain ⟨log, hrun'⟩ := run_free_of_lt hinit hlt
    refine ⟨_, hrun', h'.freed hrun', ?_⟩
    change (s'.source.freeNumbers (s'.source.release s'.memory f.base.page.number)).card = _
    rw [hpadded.freeNumbers_release hlt, hfree, Address.page_base, Finset.insert_erase hf]

/-- A bitmap that has just been given a frame has one. -/
lemma Reached.available_of_free (h : Reached s) {pa : PhysAddr}
    (hlt : pa.page.number < s.source.frames) :
    ∃ s', (free pa).run s = .ok () s' ∧ Reached s' ∧ available s' ≠ 0 := by
  obtain ⟨hinit, hpadded⟩ := h.padded
  obtain ⟨log, hrun⟩ := run_free_of_lt hinit hlt
  refine ⟨_, hrun, h.freed hrun, ?_⟩
  have hfree := hpadded.freeNumbers_release hlt
  exact Finset.card_ne_zero_of_mem (hfree ▸ Finset.mem_insert_self ..)

end Bitmap

end KernelMemory
