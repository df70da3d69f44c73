import KernelMemory.Proofs.Frames.Ledger
import KernelMemory.Proofs.Manager.Alike

/-!
# Managers do not look at the source

A manager hands its store to the operations on address spaces and looks at nothing of the source of
frames itself, so that it does the same with a source and with one that stands before it.

* `Manager.project` — a manager over the source that stands behind.
* `Manager.plain`, `World.plain` — a manager and a world without the record of a ledger.
* **`World.Step.lift`**, **`World.Run.lift`** — calls and runs do the same with a ledger and
  without.
-/

namespace KernelMemory.Manager

open KernelMemory.Action

variable {A B P α : Type} {f : B → A} {start : Finset Frame}

/-- The manager over the source that stands behind. -/
def project (f : B → A) (m : Manager B P) : Manager A P :=
  { m with store := m.store.project f }

/-- The manager without the record of its ledger. -/
def plain (m : Manager (Ledger A start) P) : Manager A P :=
  { m with store := Ledger.plain m.store }

/-- The world without the record of its ledger. -/
def World.plain (w : World (Ledger A start) P) : World A P where
  manager := w.manager.plain
  roots := w.roots

/-- On the same machine, a manager is like the one over the source that stands behind. -/
lemma erases_iff_alike {act : Action (Manager B P) α} {act' : Action (Manager A P) α} :
    Erases (project f) act act' ↔ Simulates (Alike f Eq) act act' := by
  have halike : Alike f (@Eq P) = fun m m' => m' = m.project f := by
    funext m m'
    refine propext ⟨fun h => ?_, fun h => ?_⟩
    · obtain ⟨s, p, kernelRoot, enabled⟩ := m'
      obtain ⟨hs, hmachine, hkernel, henabled⟩ := h
      cases hs
      cases hmachine
      cases hkernel
      cases henabled
      rfl
    · subst h
      exact ⟨rfl, rfl, rfl, rfl⟩
  rw [halike, erases_iff]

variable [PagingControl P] [FrameSource A] [FrameSource B] [ProjectsTo f]

lemma erases_call {call : Call} :
    Erases (project (P := P) f) call.run call.run := by
  rw [erases_iff_alike]
  cases call with
  | createRoot => exact alike_createRoot.bind fun _ => .pure _
  | createKernelRoot => exact (alike_createKernelRoot imitates_eq).bind fun _ => .pure _
  | switch root => exact (alike_switch imitates_eq trivial).bind fun _ => .pure _
  | enablePaging root =>
      exact (alike_enablePaging imitates_eq trivial).discard.bind fun _ => .pure _
  | map root va pa flags => exact (alike_map imitates_eq).discard.bind fun _ => .pure _
  | unmap root va => exact (alike_unmap imitates_eq).discard.bind fun _ => .pure _
  | identityMap va pa size flags =>
      exact (alike_mapRangeFrom imitates_eq).discard.bind fun _ => .pure _

namespace World

/-- **A call on a world** does the same with a ledger and without. -/
theorem Step.lift {w : World (Ledger A start) P} {w' : World A P} {call : Call}
    (h : Step w.plain call w') : ∃ l', Step w call l' ∧ l'.plain = w' := by
  obtain ⟨m₁, roots₁⟩ := w'
  obtain ⟨hon, made, hrun, rfl⟩ := h
  obtain ⟨m', hrun', rfl⟩ := erases_call.lift hrun
  exact ⟨⟨m', joined w.roots made⟩, ⟨hon, made, hrun', rfl⟩, rfl⟩

/-- The run without the records. -/
def plainSteps (steps : List (World (Ledger A start) P × Call)) : List (World A P × Call) :=
  steps.map fun p => (p.1.plain, p.2)

/-- **A run does the same** with a ledger and without. -/
theorem Run.lift {w₀ w : World A P} {steps : List (World A P × Call)} (h : Run w₀ steps w)
    {l₀ : World (Ledger A start) P} (hl₀ : l₀.plain = w₀) :
    ∃ lsteps l, Run l₀ lsteps l ∧ plainSteps lsteps = steps ∧ l.plain = w := by
  induction h generalizing l₀ with
  | nil w => exact ⟨[], l₀, .nil l₀, rfl, hl₀⟩
  | @cons w w₁ w₂ call steps hstep _ ih =>
      subst hl₀
      obtain ⟨l₁, hstep₁, hl₁⟩ := hstep.lift
      obtain ⟨lsteps, l₂, hrun, rfl, hl₂⟩ := ih hl₁
      exact ⟨(l₀, call) :: lsteps, l₂, .cons hstep₁ hrun, rfl, hl₂⟩

end World

end KernelMemory.Manager
