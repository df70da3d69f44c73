import KernelMemory.Proofs.Outcome

/-!
# Sources that stand before others

A source may do what another one does and keep something of its own beside it, such as a record of
the calls.  Once that is left out of the store, every access to the store does the same.

* `Store.project` — the store of the source behind, without what the one before it keeps.
* `ProjectsTo` — the source before does what the one behind does.
-/

namespace KernelMemory

open KernelMemory.Action (Erases)

variable {A B : Type} {f : B → A}

/-- The store of the source that stands behind. -/
def Store.project (f : B → A) (s : Store B) : Store A where
  memory := s.memory
  source := f s.source
  log := s.log

/-- **A source does what another one does**, and keeps something beside it. -/
class ProjectsTo [FrameSource A] [FrameSource B] (f : B → A) : Prop where
  alloc : Erases (Store.project f) FrameSource.alloc FrameSource.alloc
  free (frame : Frame) : Erases (Store.project f) (FrameSource.free frame) (FrameSource.free frame)

/-- Every source does what it does itself. -/
lemma ProjectsTo.refl [FrameSource A] : ProjectsTo (id : A → A) := by
  have hsame : ∀ {α : Type} (act : Action (Store A) α), Erases (Store.project id) act act := by
    intro α act s
    change act.run s = _
    cases act.run s <;> rfl
  exact ⟨hsame _, fun _ => hsame _⟩

namespace Store

lemma erases_lookup {α : Type} (look : Memory → Except Panic α) :
    Erases (project f) (lookup look) (lookup look) := by
  intro s
  exact Erases.ofExcept (look s.memory) s

lemma erases_note (event : Log.Event) : Erases (project f) (note event) (note event) :=
  fun _ => rfl

lemma erases_entry (t : Slot) : Erases (project f) (entry t) (entry t) :=
  erases_lookup _

lemma erases_setEntry (t : Slot) (e : Entry) :
    Erases (project f) (setEntry t e) (setEntry t e) :=
  (erases_lookup _).bind fun _ _ => rfl

lemma erases_clearFrame (frame : Frame) :
    Erases (project f) (clearFrame frame) (clearFrame frame) :=
  (erases_lookup _).bind fun _ _ => rfl

end Store

end KernelMemory
