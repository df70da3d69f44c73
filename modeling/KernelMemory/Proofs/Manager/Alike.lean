import KernelMemory.Proofs.Manager.Operations
import KernelMemory.Proofs.Paging.Imitation
import KernelMemory.Proofs.Space.Recorded

/-!
# Managers on machines that imitate each other

A manager looks at nothing of its machine but what the machine answers, and at nothing of its source
but what the source hands out.  So a manager on a machine that imitates another one, with a source
that stands before another one, does what a manager on the other machine with the other source does.

* `Manager.Alike` — two managers with the same memory on related machines.
* **`Manager.Operation.alike_run`** — an operation on a root does the same with both.
* `Manager.alike_createRoot`, `Manager.alike_switch`, … — and so do the calls on roots.
-/

namespace KernelMemory.Manager

open KernelMemory.Action

variable {A B P Q : Type} {α : Type}

/-- **Two managers are alike**: one has the source that stands behind that of the other, and their
machines are related. -/
structure Alike (f : B → A) (R : P → Q → Prop) (m : Manager B P) (m' : Manager A Q) : Prop where
  store : m'.store = m.store.project f
  machine : R m.machine m'.machine
  kernelRoot : m'.kernelRoot = m.kernelRoot
  pagingEnabled : m'.pagingEnabled = m.pagingEnabled

variable {f : B → A} {R : P → Q → Prop} {Loads : Frame → Prop} {root : Frame} {va : VirtAddr}
  {pa : PhysAddr} {flags : Flags}

lemma alike_onStore {act : Action (Store B) α} {act' : Action (Store A) α}
    (h : Erases (Store.project f) act act') :
    Simulates (Alike f R) (onStore act) (onStore act') := by
  rintro ⟨s, p, kernelRoot, enabled⟩ ⟨s', q, kernelRoot', enabled'⟩ ⟨hs, hR, hkernel, henabled⟩
  obtain rfl : s' = s.project f := hs
  obtain rfl : kernelRoot' = kernelRoot := hkernel
  obtain rfl : enabled' = enabled := henabled
  have hstore := h s
  rw [onStore, onStore, run_within_eq, run_within_eq]
  dsimp only
  rw [hstore]
  cases act.run s <;> exact ⟨rfl, rfl, hR, rfl, rfl⟩

/-! ## Roots -/

lemma alike_createRoot [FrameSource A] [FrameSource B] [ProjectsTo f] :
    Simulates (Alike f R) createRoot createRoot :=
  (alike_onStore AddressSpace.erases_create).bind fun _ => .pure _

section

variable [PagingControl P] [PagingControl Q]

lemma alike_loadRoot (hR : Imitates R Loads) (hroot : Loads root) :
    Simulates (Alike f R) (loadRoot root) (loadRoot root) := by
  intro m m' hm
  have hload := hR.loadRoot hm.machine hroot
  rw [run_loadRoot, run_loadRoot]
  cases hp : PagingControl.loadRoot m.machine root <;>
    cases hq : PagingControl.loadRoot m'.machine root <;> rw [hp, hq] at hload
  case error.error => exact ⟨hload, hm⟩
  case ok.ok => exact ⟨rfl, { hm with machine := hload }⟩
  all_goals exact hload.elim

lemma alike_invalidate (hR : Imitates R Loads) :
    Simulates (Alike f R) (invalidate va) (invalidate va) := by
  refine .modify fun m m' hm => { hm with machine := hR.invalidate va.page ?_ }
  have hmemory : m'.store.memory = m.store.memory := by
    rw [hm.store]
    rfl
  rw [hmemory]
  exact hR.observe _ hm.machine

lemma alike_switch (hR : Imitates R Loads) (hroot : Loads root) :
    Simulates (Alike f R) (switch root) (switch root) :=
  (alike_onStore (Store.erases_note _)).bind fun _ => alike_loadRoot hR hroot

lemma alike_enablePaging (hR : Imitates R Loads) (hroot : Loads root) :
    Simulates (Alike f R) (enablePaging root) (enablePaging root) := by
  refine .get_bind fun m m' hm => ?_
  rw [hm.pagingEnabled]
  refine .ite (.pure _) ((alike_loadRoot hR hroot).bind fun _ => ?_)
  refine .bind (.modify fun m m' hm => ⟨hm.store, hR.enable hm.machine, rfl, rfl⟩) fun _ => ?_
  exact (alike_onStore (Store.erases_note _)).bind fun _ => .pure _

variable [FrameSource A] [FrameSource B] [ProjectsTo f]

lemma alike_createKernelRoot (hR : Imitates R Loads) :
    Simulates (Alike f R) createKernelRoot createKernelRoot := by
  refine (alike_onStore AddressSpace.erases_create).bind fun r => ?_
  rcases r with e | space
  · exact .pure _
  · refine .get_bind fun m m' hm => ?_
    have hactive : m'.activeRoot = m.activeRoot := (hR.activeRoot hm.machine).symm
    rw [hactive]
    exact (alike_onStore AddressSpace.erases_shareKernelHalf).bind fun _ => .pure _

/-! ## Pages -/

lemma alike_map (hR : Imitates R Loads) :
    Simulates (Alike f R) (map root va pa flags) (map root va pa flags) := by
  refine (alike_onStore AddressSpace.erases_map).bind fun r => ?_
  rcases r with e | ⟨⟩
  · exact .pure _
  · exact (alike_invalidate hR).bind fun _ => .pure _

lemma alike_unmap (hR : Imitates R Loads) :
    Simulates (Alike f R) (unmap root va) (unmap root va) := by
  refine (alike_onStore AddressSpace.erases_unmap).bind fun r => ?_
  rcases r with e | f
  · exact .pure _
  · exact (alike_invalidate hR).bind fun _ => .pure _

omit [PagingControl P] [PagingControl Q] [FrameSource A] [FrameSource B] [ProjectsTo f] in
lemma alike_isMapped : Simulates (Alike f R) (isMapped root va) (isMapped root va) :=
  alike_onStore (Store.erases_lookup _)

omit [PagingControl P] [PagingControl Q] [FrameSource A] [FrameSource B] [ProjectsTo f] in
lemma alike_translate : Simulates (Alike f R) (translate root va) (translate root va) :=
  alike_onStore (Store.erases_lookup _)

/-! ## Ranges and the self test -/

lemma alike_mapRangePage (hR : Imitates R Loads) {k : Nat} :
    Simulates (Alike f R) (mapRangePage va pa flags k) (mapRangePage va pa flags k) := by
  refine (Simulates.ofExcept _).bind fun distance => ?_
  rcases advance va distance .virtualWraps with e | va'
  · exact .pure _
  · rcases advance pa distance .physicalWraps with e | pa'
    · exact .pure _
    · refine .get_bind fun m m' hm => ?_
      rw [hm.kernelRoot]
      refine (alike_map hR).bind fun r => ?_
      rcases r with e | ⟨⟩
      · cases e
        case alreadyMapped => exact (alike_onStore (Store.erases_note _)).bind fun _ => .pure _
        all_goals exact .pure _
      · exact .pure _

lemma alike_mapRangeFrom (hR : Imitates R Loads) {k fresh count : Nat} :
    Simulates (Alike f R)
      (mapRangeFrom va pa flags k fresh count) (mapRangeFrom va pa flags k fresh count) := by
  induction count generalizing k fresh with
  | zero => exact .pure _
  | succ count ih =>
      refine (alike_mapRangePage hR).bind fun r => ?_
      rcases r with e | isFresh
      · exact .pure _
      · exact (Simulates.ofExcept _).bind fun sum => ih

lemma alike_exercise (hR : Imitates R Loads) {frame : Frame} :
    Simulates (Alike f R) (exercise va frame) (exercise va frame) := by
  refine .get_bind fun m m' hm => ?_
  rw [hm.kernelRoot]
  refine (alike_map hR).bind fun r => ?_
  rcases r with e | ⟨⟩
  · exact .pure _
  refine alike_translate.bind fun r => ?_
  rcases r with e | seen
  · exact .pure _
  refine (alike_unmap hR).bind fun r => ?_
  rcases r with e | unmapped
  · exact .pure _
  refine .ite (.pure _) (alike_isMapped.bind fun mapped => .ite (.pure _) ?_)
  exact (alike_onStore (Store.erases_note _)).bind fun _ => .pure _

lemma alike_selfTest (hR : Imitates R Loads) :
    Simulates (Alike f R) (selfTest va) (selfTest va) := by
  refine (alike_onStore ProjectsTo.alloc).bind fun frame? => ?_
  cases frame? with
  | none => exact .pure _
  | some frame =>
      refine (alike_exercise hR).bind fun r => ?_
      exact (alike_onStore (ProjectsTo.free frame)).bind fun _ => .pure _

/-- **An operation on a root** does the same with both managers. -/
theorem Operation.alike_run (hR : Imitates R Loads) {op : Operation} :
    Simulates (Alike f R) (op.run root) (op.run root) := by
  cases op with
  | map va pa flags => exact alike_map hR
  | unmap va => exact alike_unmap hR
  | isMapped va => exact alike_isMapped
  | translate va => exact alike_translate
  | identityMap va pa size flags => exact alike_mapRangeFrom hR
  | selfTest va => exact alike_selfTest hR

end

end KernelMemory.Manager
