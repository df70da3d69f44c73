import KernelMemory.Proofs.Manager.Effects

/-!
# The operations on a root

The operations that a manager has for the pages of a root, each with what it gives.  Two of them, on
ranges and for the self test, always work on the kernel's root.

* `Manager.Operation` — an operation; `Operation.Reply` — what it gives.
* `Operation.Drops` — the pages that the machine is told to drop, by how the operation ended.
* **`Operation.effect`** — every operation on a root returns, drops these pages, each after its
  change, and leaves the root fit for the next one.
-/

namespace KernelMemory.Manager

open KernelMemory.Action Chart

/-- An operation on a root. -/
inductive Operation where
  | map (va : VirtAddr) (pa : PhysAddr) (flags : Flags)
  | unmap (va : VirtAddr)
  | isMapped (va : VirtAddr)
  | translate (va : VirtAddr)
  | identityMap (va : VirtAddr) (pa : PhysAddr) (size : UInt64) (flags : Flags)
  | selfTest (va : VirtAddr)
deriving DecidableEq, Repr

namespace Operation

/-- What an operation gives. -/
def Reply : Operation → Type
  | map .. => Except MapError Unit
  | unmap _ => Except MapError Frame
  | isMapped _ => Bool
  | translate _ => Except MapError Mapping
  | identityMap .. => Except MapError Nat
  | selfTest _ => Except MapError Unit

/-- The operation works on the kernel's root. -/
def OnKernel : Operation → Prop
  | identityMap .. => True
  | selfTest _ => True
  | _ => False

variable {A P : Type}

/-- Makes an operation on a root. -/
def run [FrameSource A] [PagingControl P] (root : Frame) :
    (op : Operation) → Action (Manager A P) op.Reply
  | map va pa flags => Manager.map root va pa flags
  | unmap va => Manager.unmap root va
  | isMapped va => Manager.isMapped root va
  | translate va => Manager.translate root va
  | identityMap va pa size flags => Manager.identityMap va pa size flags
  | selfTest va => Manager.selfTest va

/-- **The pages that the machine is told to drop**, from one state of a manager to another: the page
of an address once if it was mapped or unmapped, the pages of a range that are mapped now and were
not before in ascending order, and the page of a self test twice if it could be mapped. -/
def Drops [FrameSource A] [PagingControl P] (root : Frame) (m : Manager A P) :
    (op : Operation) → op.Reply → Manager A P → List VirtPage → Prop
  | map va _ _, .ok (), _, pages => pages = [va.page]
  | map .., .error _, _, pages => pages = []
  | unmap va, .ok _, _, pages => pages = [va.page]
  | unmap _, .error _, _, pages => pages = []
  | isMapped _, _, _, pages => pages = []
  | translate _, _, _, pages => pages = []
  | identityMap .., _, m', pages => pages.Pairwise (fun p q => p.number < q.number) ∧
      ∀ va, va.page ∈ pages ↔ AddressSpace.isMapped ⟨root⟩ m.store.memory va = .ok false ∧
        AddressSpace.isMapped ⟨root⟩ m'.store.memory va = .ok true
  | selfTest va, r, _, pages => SelfTested m va r pages

variable [FrameSource A] [LawfulSource A] [PagingControl P] {C : Chart} {lowest : Prop}
  {root : Frame} {m : Manager A P}

/-- **Every operation on a root returns**, and its effect is as the pages that are dropped say. -/
theorem effect (op : Operation) (hs : C.Serves lowest root m.store)
    (hroot : op.OnKernel → m.kernelRoot = root) :
    Ensures (op.run root) noPanic m fun reply m' => ∃ C' l, Effect C C' lowest root m l m' ∧
      op.Drops root m reply m' (l.map Invalidation.page) := by
  cases op with
  | map va pa flags =>
      refine (map_effect hs).mono fun r m' hend => ?_
      rcases r with err | ⟨⟩
      · obtain ⟨s', rfl, -, -, hrestored⟩ := hend
        exact ⟨C, [], .of_restored hs hrestored, rfl⟩
      · obtain ⟨C', e, -, -, -, -, heffect⟩ := hend
        exact ⟨C', _, heffect, rfl⟩
  | unmap va =>
      refine (unmap_effect hs).mono fun r m' hend => ?_
      rcases r with err | f
      · obtain ⟨rfl, -⟩ := hend
        exact ⟨C, [], .refl hs, rfl⟩
      · obtain ⟨C', e, -, -, -, heffect⟩ := hend
        exact ⟨C', _, heffect, rfl⟩
  | isMapped va =>
      refine (isMapped_effect hs va).mono ?_
      rintro r m' ⟨rfl, -⟩
      exact ⟨C, [], .refl hs, rfl⟩
  | translate va =>
      refine (translate_effect hs va).mono ?_
      rintro r m' ⟨rfl, -⟩
      exact ⟨C, [], .refl hs, rfl⟩
  | identityMap va pa size flags =>
      obtain rfl := hroot trivial
      exact identityMap_effect hs
  | selfTest va =>
      obtain rfl := hroot trivial
      refine (selfTest_effect hs).mono ?_
      rintro r m' ⟨C', l, heffect, -, hend⟩
      exact ⟨C', l, heffect, hend⟩

end Operation

end KernelMemory.Manager
