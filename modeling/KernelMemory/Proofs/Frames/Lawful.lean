import KernelMemory.Proofs.Outcome
import Mathlib.Data.Finset.Card

/-!
# Well-behaved sources of frames

What the memory manager relies on in a source of frames, whatever the source is made of.  A
`LawfulSource` hands out a frame only while the frame is free, and only frames that an entry can
name and that the window shows; it never touches memory outside the frames in which it keeps its
books, and whoever leaves those frames alone cannot upset it.  Nothing is said about which free
frame it hands out; about when it refuses, only a `GenerousSource` says something.

* `LawfulSource.freeFrames` — the frames that may be handed out next.
* `LawfulSource.Holds` — the books are in order, and a given set of frames is held by clients.
* `GenerousSource` — a source that refuses a frame only while none is free.
* `UsableSource` — a source whose clients can use the frames that they hold.
* `RestoringSource` — a source on which giving a frame back undoes handing it out.
-/

namespace KernelMemory

variable {A : Type}

/-! ## Parts of memory -/

/-- Two memories show the same frames and have the same words in the frames of a set. -/
structure Memory.AgreesOn (on : Frame → Prop) (m m' : Memory) : Prop where
  window : m'.window = m.window
  word : ∀ t : Slot, on t.table → m'.word t = m.word t

namespace Memory.AgreesOn

variable {on on' : Frame → Prop} {m m' m'' : Memory}

lemma refl (m : Memory) : m.AgreesOn on m := ⟨rfl, fun _ _ => rfl⟩

lemma trans (h : m.AgreesOn on m') (h' : m'.AgreesOn on m'') : m.AgreesOn on m'' where
  window := h'.window.trans h.window
  word t ht := (h'.word t ht).trans (h.word t ht)

lemma anti (h : m.AgreesOn on m') (hon : ∀ f, on' f → on f) : m.AgreesOn on' m' where
  window := h.window
  word t ht := h.word t (hon _ ht)

lemma entry (h : m.AgreesOn on m') {t : Slot} (ht : on t.table) : m'.entry t = m.entry t := by
  rw [Memory.entry, Memory.entry, h.word t ht]

end Memory.AgreesOn

/-! ## Laws of a source -/

/-- **A well-behaved source of frames.** -/
class LawfulSource (A : Type) [FrameSource A] where
  /-- The frames that are free. -/
  freeFrames : Store A → Finset Frame
  /-- The frames in which the source keeps its books. -/
  Books : A → Frame → Prop
  /-- The books are in order, and the given frames were handed out and not given back since. -/
  Holds : Store A → Finset Frame → Prop
  /-- An entry can name a free frame. -/
  number_lt {s held f} : Holds s held → f ∈ freeFrames s → f.number < 2 ^ 40
  /-- A free frame can be used. -/
  shown {s held f} : Holds s held → f ∈ freeFrames s → s.memory.Shows f
  /-- A free frame holds no books. -/
  notBooks {s held f} : Holds s held → f ∈ freeFrames s → ¬ Books s.source f
  /-- No frame that is held is free. -/
  notFree {s held f} : Holds s held → f ∈ held → f ∉ freeFrames s
  /-- The source depends on nothing but itself and its books. -/
  congr {s s' held} : Holds s held → s'.source = s.source →
    s.memory.AgreesOn (Books s.source) s'.memory →
    Holds s' held ∧ freeFrames s' = freeFrames s
  /-- A request for a frame is answered. -/
  alloc_returns {s held} : Holds s held →
    ∃ r s', (FrameSource.alloc : Action (Store A) _).run s = .ok r s'
  /-- A refused request changes nothing that matters. -/
  alloc_none {s s' held} : Holds s held →
    (FrameSource.alloc : Action (Store A) _).run s = .ok none s' →
    Holds s' held ∧ freeFrames s' = freeFrames s ∧ Books s'.source = Books s.source ∧
      s.memory.AgreesOn (fun f => ¬ Books s.source f) s'.memory
  /-- A frame that is handed out was free, and is not free from then on. -/
  alloc_some {s s' held f} : Holds s held →
    (FrameSource.alloc : Action (Store A) _).run s = .ok (some f) s' →
    f ∈ freeFrames s ∧ Holds s' (insert f held) ∧ freeFrames s' = (freeFrames s).erase f ∧
      Books s'.source = Books s.source ∧
      s.memory.AgreesOn (fun f => ¬ Books s.source f) s'.memory
  /-- A frame that is held can be given back, and is free from then on. -/
  free_returns {s held f} : Holds s held → f ∈ held →
    ∃ s', (FrameSource.free f : Action (Store A) _).run s = .ok () s' ∧
      Holds s' (held.erase f) ∧ freeFrames s' = insert f (freeFrames s) ∧
      Books s'.source = Books s.source ∧
      s.memory.AgreesOn (fun f => ¬ Books s.source f) s'.memory

export LawfulSource (freeFrames Books Holds)

/-- The source and its books are the same in two stores. -/
structure SameBooks [FrameSource A] [LawfulSource A] (s s' : Store A) : Prop where
  source : s'.source = s.source
  memory : s.memory.AgreesOn (Books s.source) s'.memory

namespace SameBooks

variable [FrameSource A] [LawfulSource A] {s s' s'' : Store A}

lemma refl (s : Store A) : SameBooks s s := ⟨rfl, .refl _⟩

lemma trans (h : SameBooks s s') (h' : SameBooks s' s'') : SameBooks s s'' where
  source := h'.source.trans h.source
  memory := h.memory.trans (h.source ▸ h'.memory)

end SameBooks

/-- A source that refuses a request only while no frame is free. -/
class GenerousSource (A : Type) [FrameSource A] [LawfulSource A] : Prop where
  free_eq_empty {s s' : Store A} {held} : Holds s held →
    (FrameSource.alloc : Action (Store A) _).run s = .ok none s' → freeFrames s = ∅

/-- **Such a source hands a frame out** while one is free. -/
theorem GenerousSource.exists_alloc {A : Type} [FrameSource A] [LawfulSource A] [GenerousSource A]
    {s : Store A} {held : Finset Frame} (hheld : Holds s held) (hfree : (freeFrames s).Nonempty) :
    ∃ f s', (FrameSource.alloc : Action (Store A) _).run s = .ok (some f) s' := by
  obtain ⟨r, s', hrun⟩ := LawfulSource.alloc_returns hheld
  cases r with
  | none => exact absurd (GenerousSource.free_eq_empty hheld hrun) hfree.ne_empty
  | some f => exact ⟨f, s', hrun⟩

/-- Then the frame is held, and one frame less is free. -/
lemma GenerousSource.exists_take {A : Type} [FrameSource A] [LawfulSource A] [GenerousSource A]
    {s : Store A} {held : Finset Frame} (hheld : Holds s held) (hfree : 0 < (freeFrames s).card) :
    ∃ f s', (FrameSource.alloc : Action (Store A) _).run s = .ok (some f) s' ∧
      Holds s' (insert f held) ∧ (freeFrames s').card + 1 = (freeFrames s).card := by
  obtain ⟨f, s', halloc⟩ := exists_alloc hheld (Finset.card_pos.mp hfree)
  obtain ⟨hf, hheld', hfree', -⟩ := LawfulSource.alloc_some hheld halloc
  exact ⟨f, s', halloc, hheld', hfree' ▸ Finset.card_erase_add_one hf⟩

/-- A source that knows of the frames that are held what it knows of the free ones. -/
class UsableSource (A : Type) [FrameSource A] [LawfulSource A] : Prop where
  /-- An entry can name a frame that is held, and the frame can be used. -/
  usable {s : Store A} {held f} : Holds s held → f ∈ held → f.number < 2 ^ 40 ∧ s.memory.Shows f

/-- A source on which giving a frame back at once undoes handing it out, whatever the client did
with memory in the meantime. -/
class RestoringSource (A : Type) [FrameSource A] [LawfulSource A] : Prop where
  /-- A refused request changes neither the source nor its books. -/
  alloc_none {s s' : Store A} {held} : Holds s held →
    (FrameSource.alloc : Action (Store A) _).run s = .ok none s' → SameBooks s s'
  /-- Handing a frame out and taking it back changes neither the source nor its books. -/
  free_alloc {s s₁ s₂ s₃ : Store A} {held f} : Holds s held →
    (FrameSource.alloc : Action (Store A) _).run s = .ok (some f) s₁ → SameBooks s₁ s₂ →
    (FrameSource.free f : Action (Store A) _).run s₂ = .ok () s₃ → SameBooks s s₃

end KernelMemory
