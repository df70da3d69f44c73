import KernelMemory.Proofs.Frames.Lawful
import KernelMemory.Proofs.Frames.Projection

/-!
# A source with a guard of its books

A guard stands before a source of frames and looks at the books each time the source is called: they
should be as the previous call left them.  It does nothing else, so that whatever runs on the source
runs with the guard just the same.  If the guard has noticed nothing, then nobody but the source has
changed the books, neither in the end nor between any two calls.

* `Guarded` — a source with a guard; `Guarded.Intact` — the books are as the latest call left them.
* **`Guarded.instLawfulSource`** — the guard of a well-behaved source notices nothing.
-/

namespace KernelMemory

/-- **A source of frames with a guard of its books.** -/
structure Guarded (A : Type) where
  source : A
  /-- Memory as the latest call left it. -/
  left : Memory
  /-- The books were intact at every call so far. -/
  undisturbed : Prop

namespace Guarded

open KernelMemory.Action LawfulSource

variable {A : Type} {α : Type} {s s' : Store (Guarded A)} {a : α} {act : Action (Store A) α}

/-- The store without the guard. -/
def plain (s : Store (Guarded A)) : Store A :=
  s.project Guarded.source

/-- A store after a call. -/
def called (undisturbed : Prop) (s : Store A) : Store (Guarded A) where
  memory := s.memory
  source := { source := s.source, left := s.memory, undisturbed }
  log := s.log

variable [FrameSource A] [LawfulSource A]

/-- The books are as the latest call left them. -/
def Intact (s : Store (Guarded A)) : Prop :=
  s.source.left.AgreesOn (Books s.source.source) s.memory

/-- The guard has noticed nothing, up to now. -/
def Quiet (s : Store (Guarded A)) : Prop :=
  s.source.undisturbed ∧ Intact s

/-- A call of the source, with a look at the books before it. -/
def call (act : Action (Store A) α) : Action (Store (Guarded A)) α := fun s =>
  match act (plain s) with
  | .ok a s' => .ok a (called (Quiet s) s')
  | .error p s' => .error p (called (Quiet s) s')

instance : FrameSource (Guarded A) where
  alloc := call FrameSource.alloc
  free f := call (FrameSource.free f)

lemma run_call_eq : (call act).run s = match act.run (plain s) with
    | .ok a s' => .ok a (called (Quiet s) s')
    | .error p s' => .error p (called (Quiet s) s') := rfl

lemma run_call {s' : Store A} (hrun : act.run (plain s) = .ok a s') :
    (call act).run s = .ok a (called (Quiet s) s') := by
  rw [run_call_eq, hrun]

lemma of_run_call (hrun : (call act).run s = .ok a s') :
    act.run (plain s) = .ok a (plain s') ∧ s' = called (Quiet s) (plain s') := by
  rw [run_call_eq] at hrun
  split at hrun
  case h_1 heq =>
    cases hrun
    exact ⟨heq, rfl⟩
  case h_2 => cases hrun

lemma erases_call : Erases (Store.project Guarded.source) (call act) act := by
  intro s
  rw [run_call_eq]
  change act.run (plain s) = _
  cases act.run (plain s) <;> rfl

/-- The guard changes nothing of what the source does. -/
instance : ProjectsTo (Guarded.source : Guarded A → A) where
  alloc := erases_call
  free _ := erases_call

lemma Quiet.called (h : Quiet s) (s' : Store A) : Quiet (called (Quiet s) s') :=
  ⟨h, .refl _⟩

/-- **A well-behaved source is so with a guard**, which notices nothing. -/
instance instLawfulSource : LawfulSource (Guarded A) where
  freeFrames s := freeFrames (plain s)
  Books g := Books g.source
  Holds s held := Holds (plain s) held ∧ Quiet s
  number_lt h hf := LawfulSource.number_lt h.1 hf
  shown h hf := by
    have hshown := LawfulSource.shown h.1 hf
    exact hshown
  notBooks h hf := LawfulSource.notBooks h.1 hf
  notFree h hf := LawfulSource.notFree h.1 hf
  congr {s s' held} h hsource hagree := by
    have hplain : (plain s').source = (plain s).source := congrArg Guarded.source hsource
    obtain ⟨hheld, hfree⟩ := LawfulSource.congr h.1 hplain hagree
    refine ⟨⟨hheld, ?_⟩, hfree⟩
    rw [Quiet, Intact, hsource]
    exact ⟨h.2.1, h.2.2.trans hagree⟩
  alloc_returns h := by
    obtain ⟨r, s', hrun⟩ := LawfulSource.alloc_returns h.1
    exact ⟨r, _, run_call hrun⟩
  alloc_none h hrun := by
    obtain ⟨hrun, hs'⟩ := of_run_call hrun
    obtain ⟨hheld, hrest⟩ := LawfulSource.alloc_none h.1 hrun
    exact ⟨⟨hheld, hs' ▸ h.2.called _⟩, hrest⟩
  alloc_some h hrun := by
    obtain ⟨hrun, hs'⟩ := of_run_call hrun
    obtain ⟨hf, hheld, hrest⟩ := LawfulSource.alloc_some h.1 hrun
    exact ⟨hf, ⟨hheld, hs' ▸ h.2.called _⟩, hrest⟩
  free_returns h hf := by
    obtain ⟨s', hrun, hheld, hrest⟩ := LawfulSource.free_returns h.1 hf
    exact ⟨_, run_call hrun, ⟨hheld, h.2.called _⟩, hrest⟩

instance [UsableSource A] : UsableSource (Guarded A) where
  usable {s held f} h hf := by
    have husable := UsableSource.usable h.1 hf
    exact husable

end Guarded

end KernelMemory
