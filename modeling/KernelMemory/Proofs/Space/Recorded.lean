import KernelMemory.Proofs.Frames.Projection
import KernelMemory.Proofs.Space.Runs

/-!
# Operations do not look at the source

No operation on an address space looks at what a source of frames is made of, so each does the same
with a source and with one that stands before it and keeps something beside it.  The proofs follow
the operations step by step.

* **`Space.erases_runCalls`** — a run of calls does the same with both sources.
-/

namespace KernelMemory

open KernelMemory.Action (Erases)

variable {A B : Type} {f : B → A} {holders : List Slot} {path : Path} {table : Frame}
  {e : Entry} {va : VirtAddr} {pa : PhysAddr} {flags : Flags} {space : AddressSpace}

namespace Space

lemma erases_gainChild :
    Erases (Store.project f) (gainChild holders) (gainChild holders) := by
  cases holders with
  | nil => exact .pure ()
  | cons x rest =>
      refine (Store.erases_entry x).bind fun link => .ite ?_ (.pure ())
      cases link.withLiveChildren? (link.liveChildren.val + 1) with
      | none => exact .throw _
      | some link => exact Store.erases_setEntry x link

lemma erases_loseChild :
    Erases (Store.project f) (loseChild table holders) (loseChild table holders) := by
  cases holders with
  | nil => exact .pure ()
  | cons x rest =>
      refine (Store.erases_entry x).bind fun link => .ite ?_ (.pure ())
      cases link.liveChildren.val with
      | zero => exact .throw _
      | succ live => exact Store.erases_setEntry x _

lemma erases_fill : Erases (Store.project f) (fill path e) (fill path e) :=
  (Store.erases_entry _).bind fun _ => (Store.erases_setEntry _ _).bind fun _ =>
    .ite (.pure ()) erases_gainChild

lemma erases_vacate : Erases (Store.project f) (vacate path) (vacate path) :=
  (Store.erases_entry _).bind fun _ => (Store.erases_setEntry _ _).bind fun _ =>
    .ite erases_loseChild (.pure ())

lemma erases_linkTable :
    Erases (Store.project f) (linkTable path table va) (linkTable path table va) :=
  (Store.erases_clearFrame table).bind fun _ => (Erases.ofExcept _).bind fun _ =>
    erases_fill.bind fun _ => Store.erases_note _

variable [FrameSource A] [FrameSource B] [ProjectsTo f]

lemma erases_release :
    Erases (Store.project f) (release table holders) (release table holders) := by
  induction holders generalizing table with
  | nil => exact .pure ()
  | cons x above ih =>
      refine (Store.erases_entry x).bind fun link => .ite ?_ (.pure ())
      exact erases_vacate.bind fun _ => (ProjectsTo.free table).bind fun _ =>
        (Store.erases_note _).bind fun _ => ih

lemma erases_reach {h : Nat} :
    Erases (Store.project f) (reach va h path) (reach va h path) := by
  induction h generalizing path with
  | zero => exact .pure _
  | succ h ih =>
      refine (Store.erases_entry path.slot).bind fun link => .ite ih (.ite (.pure _) ?_)
      refine ProjectsTo.alloc.bind fun frame? => ?_
      cases frame? with
      | none => exact erases_release.bind fun _ => .pure _
      | some table => exact erases_linkTable.bind fun _ => ih

end Space

namespace AddressSpace

open Space

lemma erases_shareKernelHalf {source : Frame} :
    Erases (Store.project f) (space.shareKernelHalf source) (space.shareKernelHalf source) := by
  rw [shareKernelHalf, shareKernelHalf]
  generalize kernelHalf = indices
  induction indices with
  | nil => exact .pure ()
  | cons i indices ih =>
      rw [List.forM_eq_forM, List.forM_eq_forM, List.forM_cons, List.forM_cons]
      exact ((Store.erases_entry _).bind fun _ => Store.erases_setEntry _ _).bind fun _ => ih

variable [FrameSource A] [FrameSource B] [ProjectsTo f]

lemma erases_create : Erases (Store.project f) create create := by
  refine ProjectsTo.alloc.bind fun frame? => ?_
  cases frame? with
  | none => exact .pure _
  | some root =>
      exact (Store.erases_clearFrame root).bind fun _ =>
        (Store.erases_note _).bind fun _ => .pure _

lemma erases_reach :
    Erases (Store.project f) (space.reach va) (space.reach va) := by
  rw [reach, reach]
  exact .ite Space.erases_reach (.pure _)

lemma erases_map :
    Erases (Store.project f) (space.map va pa flags) (space.map va pa flags) := by
  rw [map, map]
  refine .ite (.pure _) (erases_reach.bind fun result => ?_)
  rcases result with e | path | ⟨large, k⟩
  · exact .pure _
  · refine (Store.erases_entry path.slot).bind fun link => .ite (.pure _) ?_
    exact (Erases.ofExcept _).bind fun leaf => erases_fill.bind fun _ => .pure _
  · exact .pure _

lemma erases_unmap :
    Erases (Store.project f) (space.unmap va) (space.unmap va) := by
  refine (Store.erases_lookup _).bind fun result => ?_
  rcases result with e | path
  · exact .pure _
  · refine (Store.erases_entry path.slot).bind fun leaf => .ite (.pure _) ?_
    exact erases_vacate.bind fun _ => erases_release.bind fun _ => .pure _

end AddressSpace

namespace Space

variable [FrameSource A] [FrameSource B] [ProjectsTo f]

lemma erases_call {call : Call} :
    Erases (Store.project f) (call.run space) (call.run space) := by
  cases call with
  | map va pa flags => exact AddressSpace.erases_map.bind fun _ => .pure _
  | unmap va => exact AddressSpace.erases_unmap.bind fun _ => .pure _
  | walkOrCreate va =>
      exact (AddressSpace.erases_reach.bind fun _ => .pure _).bind fun _ => .pure _

/-- **A run of calls** does the same with a ledger and without. -/
theorem erases_runCalls {calls : List Call} :
    Erases (Store.project f) (runCalls space calls) (runCalls space calls) := by
  induction calls with
  | nil => exact .pure _
  | cons call calls ih => exact erases_call.bind fun event => ih.bind fun events => .pure _

end Space

end KernelMemory
