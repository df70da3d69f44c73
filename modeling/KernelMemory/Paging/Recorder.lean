import KernelMemory.Paging.Control

/-!
# A recorded machine

A stand-in for the processor that does what it is told and keeps a record of it.
-/

namespace KernelMemory

/-- What has been asked of a machine so far. -/
structure Recorder where
  root : Frame
  enabled : Bool := false
  fault : VirtAddr := ⟨0⟩
  invalidated : List VirtPage := []
  rootLoads : Nat := 0
deriving DecidableEq, Repr

instance : PagingControl Recorder where
  activeRoot r := r.root
  loadRoot r root := .ok { r with root, rootLoads := r.rootLoads + 1 }
  isEnabled r := r.enabled
  enable r := { r with enabled := true }
  invalidate r page := { r with invalidated := r.invalidated ++ [page] }
  faultAddress r := r.fault

end KernelMemory
