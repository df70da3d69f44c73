import KernelMemory.Paging.Control
import KernelMemory.Space.Map
import KernelMemory.Space.Report

/-!
# The virtual memory manager

The manager ties address spaces to the machine that translates through them: it switches roots,
turns paging on once, and invalidates a page whenever it has changed the page's mapping.  It
remembers which root is the kernel's, whatever root is active.

* `Manager.map`, `Manager.unmap` — a page of any root, followed by an invalidation on success.
* `Manager.identityMap` — a range of pages of the kernel's root; pages that are mapped stay as they
  are.
* `Manager.selfTest` — maps, looks up and unmaps one page, and leaves nothing behind.
-/

namespace KernelMemory

/-- A store, the machine that translates through it, and what the manager remembers. -/
structure Manager (A C : Type) where
  store : Store A
  machine : C
  /-- The root of the kernel's own address space. -/
  kernelRoot : Frame
  pagingEnabled : Bool := false

namespace Manager

variable {A C : Type} {α : Type}

/-- A manager for the root that is active on the machine. -/
def start [PagingControl C] (machine : C) (store : Store A) : Manager A C :=
  let kernelRoot := PagingControl.activeRoot machine
  { store := { store with log := store.log.push (.kernelRootFound kernelRoot) }
    machine
    kernelRoot }

/-- Runs an action on the store. -/
def onStore (act : Action (Store A) α) : Action (Manager A C) α :=
  Action.within
    (fun ⟨store, machine, kernelRoot, pagingEnabled⟩ =>
      (store, fun store => ⟨store, machine, kernelRoot, pagingEnabled⟩))
    act

/-- The root that is active on the machine. -/
def activeRoot [PagingControl C] (m : Manager A C) : Frame :=
  PagingControl.activeRoot m.machine

/-- Makes a root active on the machine. -/
def loadRoot [PagingControl C] (root : Frame) : Action (Manager A C) Unit := fun m =>
  match PagingControl.loadRoot m.machine root with
  | .ok machine => .ok () { m with machine }
  | .error p => .error p m

/-- The machine has seen memory as it stands and dropped what it remembers of a page. -/
def forget [PagingControl C] (m : Manager A C) (page : VirtPage) : Manager A C :=
  { m with
    machine := PagingControl.invalidate (PagingControl.observe m.machine m.store.memory) page }

/-- Drops what the machine remembers of the page that contains an address. -/
def invalidate [PagingControl C] (va : VirtAddr) : Action (Manager A C) Unit :=
  modify fun m => m.forget va.page

/-! ## Roots -/

/-- Makes a root with nothing mapped. -/
def createRoot [FrameSource A] : Action (Manager A C) (Except MapError Frame) := do
  return (← onStore AddressSpace.create).map AddressSpace.root

/-- Makes a root that shares the kernel half of the active one. -/
def createKernelRoot [FrameSource A] [PagingControl C] :
    Action (Manager A C) (Except MapError Frame) := do
  match ← onStore AddressSpace.create with
  | .error e => return .error e
  | .ok space =>
    onStore (space.shareKernelHalf (← get).activeRoot)
    return .ok space.root

/-- Makes a root active. -/
def switch [PagingControl C] (root : Frame) : Action (Manager A C) Unit := do
  onStore (Store.note (.rootSwitched root))
  loadRoot root

/-- Turns paging on, through a root that from then on is the kernel's.  This works only once. -/
def enablePaging [PagingControl C] (root : Frame) :
    Action (Manager A C) (Except MapError Unit) := do
  if (← get).pagingEnabled then
    return .error (.invalidRequest .pagingAlreadyEnabled)
  loadRoot root
  modify fun m =>
    { m with
      machine := PagingControl.enable m.machine
      pagingEnabled := true
      kernelRoot := root }
  onStore (Store.note (.pagingEnabled root))
  return .ok ()

/-! ## Pages -/

/-- Maps a page of a root. -/
def map [FrameSource A] [PagingControl C] (root : Frame) (va : VirtAddr) (pa : PhysAddr)
    (flags : Flags) : Action (Manager A C) (Except MapError Unit) := do
  match ← onStore (AddressSpace.map ⟨root⟩ va pa flags) with
  | .error e => return .error e
  | .ok () =>
    invalidate va
    return .ok ()

/-- Unmaps a page of a root and gives the frame it was mapped to. -/
def unmap [FrameSource A] [PagingControl C] (root : Frame) (va : VirtAddr) :
    Action (Manager A C) (Except MapError Frame) := do
  match ← onStore (AddressSpace.unmap ⟨root⟩ va) with
  | .error e => return .error e
  | .ok frame =>
    invalidate va
    return .ok frame

/-- Whether an address is mapped in a root. -/
def isMapped (root : Frame) (va : VirtAddr) : Action (Manager A C) Bool :=
  onStore (Store.lookup fun m => AddressSpace.isMapped ⟨root⟩ m va)

/-- What an address stands for in a root. -/
def translate (root : Frame) (va : VirtAddr) :
    Action (Manager A C) (Except MapError Mapping) :=
  onStore (Store.lookup fun m => AddressSpace.translate ⟨root⟩ m va)

/-! ## Ranges -/

/-- The address `distance` bytes further on, for a range that must not pass the last address. -/
def advance {kind : AddressKind} (a : Address kind) (distance : Nat) (wraps : InvalidRequest) :
    Except MapError (Address kind) :=
  if a.value.toNat + distance < 2 ^ 64 then .ok (.ofNat (a.value.toNat + distance))
  else .error (.invalidRequest wraps)

/-- Maps page `k` of a range in the kernel's root.  Gives whether the page was not mapped before. -/
def mapRangePage [FrameSource A] [PagingControl C] (va : VirtAddr) (pa : PhysAddr) (flags : Flags)
    (k : Nat) : Action (Manager A C) (Except MapError Bool) := do
  let distance ← Action.ofExcept (Checked.mul k pageSize)
  match advance va distance .virtualWraps, advance pa distance .physicalWraps with
  | .error e, _ => return .error e
  | .ok _, .error e => return .error e
  | .ok va, .ok pa =>
    match ← map (← get).kernelRoot va pa flags with
    | .ok () => return .ok true
    | .error .alreadyMapped =>
      onStore (Store.note (.rangePageMapped va))
      return .ok false
    | .error e => return .error e

/-- Maps `count` pages of a range from page `k` on, after `fresh` earlier pages that were not mapped
before; stops at the first page that cannot be mapped. -/
def mapRangeFrom [FrameSource A] [PagingControl C] (va : VirtAddr) (pa : PhysAddr) (flags : Flags)
    (k fresh : Nat) : (count : Nat) → Action (Manager A C) (Except MapError Nat)
  | 0 => return .ok fresh
  | count + 1 => do
    match ← mapRangePage va pa flags k with
    | .error e => return .error e
    | .ok isFresh =>
      let fresh ← Action.ofExcept (Checked.add fresh isFresh.toNat)
      mapRangeFrom va pa flags (k + 1) fresh count

/-- Maps the whole pages of a range in the kernel's root to the frames from `pa` on.  Gives how many
of them were not mapped before. -/
def identityMap [FrameSource A] [PagingControl C] (va : VirtAddr) (pa : PhysAddr) (size : UInt64)
    (flags : Flags) : Action (Manager A C) (Except MapError Nat) :=
  mapRangeFrom va pa flags 0 0 (size.toNat / pageSize)

/-! ## Self test -/

/-- The flags of the self test's page. -/
def selfTestFlags : Flags :=
  Flags.only .writable ||| Flags.only .noExecute

/-- Maps a page of the kernel's root to a frame, finds it there, unmaps it and finds it gone. -/
def exercise [FrameSource A] [PagingControl C] (va : VirtAddr) (frame : Frame) :
    Action (Manager A C) (Except MapError Unit) := do
  let root := (← get).kernelRoot
  match ← map root va frame.base selfTestFlags with
  | .error e => return .error e
  | .ok () =>
    match ← translate root va with
    | .error e => return .error e
    | .ok seen =>
      match ← unmap root va with
      | .error e => return .error e
      | .ok unmapped =>
        if seen.address ≠ frame.base ∨ unmapped ≠ frame then
          return .error (.invalidRequest .selfTestOtherFrame)
        if ← isMapped root va then
          return .error (.invalidRequest .selfTestStillMapped)
        onStore (Store.note (.selfTestPassed va))
        return .ok ()

/-- Tries one page of the kernel's root with a frame of its own, which is given back whatever the
outcome. -/
def selfTest [FrameSource A] [PagingControl C] (va : VirtAddr) :
    Action (Manager A C) (Except MapError Unit) := do
  match ← onStore FrameSource.alloc with
  | none => return .error .outOfMemory
  | some frame =>
    let result ← exercise va frame
    onStore (FrameSource.free frame)
    return result

end Manager

end KernelMemory
