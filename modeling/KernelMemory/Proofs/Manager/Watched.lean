import KernelMemory.Proofs.Frames.Guarded
import KernelMemory.Proofs.Heap.Recorded
import KernelMemory.Proofs.Manager.Recorded
import KernelMemory.Proofs.Manager.System

/-!
# Systems do not look at the source

The manager, the client and the heaps look at nothing of the source itself.  So a system over a
source that stands before another one does the same as over the other one, call by call, and what
the source before it has seen is true of both.

* `System.project` — the system over the source that stands behind.
* **`System.erases_run`** — a call does the same over both sources.
* **`System.Reached.lift`** — what is reached over the source behind is reached over the one before.
* **`System.Reached.undisturbed`** — a guard before the source finds its books undisturbed.
-/

namespace KernelMemory

open KernelMemory.Action

variable {A B P α : Type} {f : B → A}

/-- The manager with a guard before its source. -/
def Manager.guarded (m : Manager A P) : Manager (Guarded A) P :=
  { m with store := Guarded.called True m.store }

/-- **An operation on a root** does the same with both sources. -/
theorem Manager.Operation.erases_run [FrameSource A] [FrameSource B] [ProjectsTo f]
    [PagingControl P] {root : Frame} {op : Manager.Operation} :
    Erases (Manager.project (P := P) f) (op.run root) (op.run root) :=
  erases_iff_alike.mpr (op.alike_run imitates_eq)

namespace System

/-- The system over the source that stands behind. -/
def project (f : B → A) (w : System B P) : System A P :=
  { w with manager := w.manager.project f }

/-- The same calls are permitted with both sources. -/
lemma permitted_project {call : Call P} {w : System B P} :
    call.Permitted (w.project f) ↔ call.Permitted w := by
  cases call <;> exact Iff.rfl

lemma erases_onManager {act : Action (Manager B P) α} {act' : Action (Manager A P) α}
    (h : Erases (Manager.project f) act act') :
    Erases (project (P := P) f) (onManager act) (onManager act') := by
  intro w
  have hmanager := h w.manager
  rw [onManager, onManager, run_within_eq, run_within_eq]
  dsimp only [project]
  rw [hmanager]
  cases act.run w.manager <;> rfl

lemma erases_onStore {act : Action (Store B) α} {act' : Action (Store A) α}
    (h : Erases (Store.project f) act act') :
    Erases (project (P := P) f) (onStore act) (onStore act') :=
  erases_onManager (Manager.erases_iff_alike.mpr (Manager.alike_onStore h))

lemma erases_modify {change : System B P → System B P} {change' : System A P → System A P}
    (h : ∀ w, (change w).project f = change' (w.project f)) :
    Erases (project (P := P) f) (modify change) (modify change') :=
  fun w => congrArg (EStateM.Result.ok ()) (h w).symm

variable [FrameSource A] [FrameSource B] [ProjectsTo f] [PagingControl P]

/-- **A call** does the same with both sources. -/
theorem erases_run {call : Call P} : Erases (project f) call.run call.run := by
  cases call with
  | allocate =>
      refine (erases_onStore ProjectsTo.alloc).bind fun frame? => ?_
      cases frame? with
      | none => exact .pure _
      | some frame => exact erases_modify fun _ => rfl
  | free frame =>
      exact (erases_onStore (ProjectsTo.free frame)).bind fun _ => erases_modify fun _ => rfl
  | startHeap =>
      refine (erases_onStore Heap.erases_start).bind fun r => ?_
      rcases r with e | h
      · exact .pure _
      · exact erases_modify fun _ => rfl
  | allocBytes i size =>
      refine .get_bind fun w => ?_
      dsimp only [project]
      cases w.heaps[i]? with
      | none => exact .pure _
      | some h =>
          exact (erases_onStore Heap.erases_alloc).bind fun _ => erases_modify fun _ => rfl
  | boot machine => exact erases_modify fun _ => rfl
  | createRoot =>
      have hcreate : Erases (Manager.project (P := P) f) Manager.createRoot Manager.createRoot :=
        Manager.erases_iff_alike.mpr Manager.alike_createRoot
      refine (erases_onManager hcreate).bind fun r => ?_
      rcases r with e | root
      · exact .pure _
      · exact erases_modify fun _ => rfl
  | operate root op => exact (erases_onManager Manager.Operation.erases_run).discard

/-- **What is reached with one source is reached with the other.** -/
theorem Reached.lift {w₀ : System B P} {w : System A P} (h : Reached (w₀.project f) w) :
    ∃ v, Reached w₀ v ∧ v.project f = w := by
  induction h with
  | start => exact ⟨w₀, .start, rfl⟩
  | call _ hcall hrun ih =>
      obtain ⟨v, hreached, rfl⟩ := ih
      obtain ⟨v', hrun', rfl⟩ := erases_run.lift hrun
      exact ⟨v', .call hreached (permitted_project.mp hcall) hrun', rfl⟩

/-! ## Books that nobody disturbs -/

/-- **Nobody but the source has changed its books** on the way to a system: with a guard before the
source the same is reached, and the guard has noticed nothing. -/
def Undisturbed [LawfulSource A] (m : Manager A P) (w : System A P) : Prop :=
  ∃ v, Reached { manager := m.guarded } v ∧ v.project Guarded.source = w ∧
    Guarded.Quiet v.manager.store

lemma Reached.undisturbed [LawfulSource A] [UsableSource A] {m : Manager A P} {w : System A P}
    (h : Reached { manager := m } w) (hheld : Holds m.store ∅) : Undisturbed m w := by
  let w₀ : System (Guarded A) P := { manager := m.guarded }
  have hlift : Reached (w₀.project Guarded.source) w := h
  obtain ⟨v, hreached, hproject⟩ := hlift.lift
  have hguarded : Holds m.guarded.store ∅ := ⟨hheld, trivial, .refl _⟩
  obtain ⟨C, hv⟩ := (Sound.initial hguarded).reached hreached
  obtain ⟨held, -, ⟨-, hquiet⟩, -⟩ := hv.held
  exact ⟨v, hreached, hproject, hquiet⟩

end System

end KernelMemory
