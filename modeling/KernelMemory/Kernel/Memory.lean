import KernelMemory.Kernel.State

/-!
# Calls of the kernel

What the rest of the kernel may ask of memory.  Before memory is set up, calls that give an answer
refuse, and calls that give none leave a warning.  Page mapping answers with a truth value and
reports the reason of a failure in the log.
-/

namespace KernelMemory.Kernel

/-! ## Setting up -/

/-- The frame bitmap of the given regions, and the regions that remain. -/
def installFrames (regions : List Region) : Action Kernel (Bitmap × List Region) := fun k =>
  match Bitmap.install k.memory regions with
  | .ok (frames, memory, regions, event) =>
    .ok (frames, regions) { k with memory, log := k.log.push event }
  | .error p => .error p k

/-- The first heap and the manager's state, for a frame bitmap that has been installed. -/
def startSubsystem (frames : Bitmap) : Action Kernel Subsystem := fun k =>
  let store : Store Bitmap := { memory := k.memory, source := frames, log := k.log }
  let start : Action (Store Bitmap) (Option Heap) := do
    match ← Heap.start with
    | .ok heap => return some heap
    | .error e =>
      Store.note (.noHeap e)
      return none
  match start store with
  | .ok heap? store =>
    let m := Manager.start k.processor store
    .ok
      { frames := m.store.source, kernelRoot := m.kernelRoot, heap? }
      { k with memory := m.store.memory, log := m.store.log }
  | .error p store => .error p { k with memory := store.memory, log := store.log }

/-- Sets memory up from what the bootloader said.  This works only once.  Gives the regions that
remain once the bitmap has been set aside; a refused call leaves them as they were. -/
def setUp (boot : BootMemory) : Action Kernel (List Region × Except KernelError Unit) := do
  if (← get).directMap?.isSome then
    return (boot.regions, .error .alreadyInitialized)
  modify fun k =>
    { k with
      directMap? := some boot.directMap
      memory := { k.memory with window := { offset := boot.directMap } } }
  note (.directMapFound boot.directMap)
  let (frames, regions) ← installFrames boot.regions
  unless frames.isInitialized do
    note .noFrames
  let subsystem ← startSubsystem frames
  modify fun k => { k with subsystem? := some subsystem }
  return (regions, .ok ())

/-! ## Frames -/

/-- Takes a free frame and gives its first address. -/
def allocateFrame : Action Kernel (Except KernelError PhysAddr) := do
  match ← withManager (Manager.onStore Bitmap.allocate) with
  | .error e => return .error e
  | .ok (.error e) => return .error (.frame e)
  | .ok (.ok frame) => return .ok frame.base

/-- Gives back the frame that contains an address. -/
def freeFrame (pa : PhysAddr) : Action Kernel Unit := do
  match ← withManager (Manager.onStore (Bitmap.free pa)) with
  | .ok () => return ()
  | .error _ => note (.frameFreedEarly pa)

/-- The size of the free frames. -/
def freeBytes (k : Kernel) : Except Panic Nat :=
  match k.subsystem? with
  | none => .ok 0
  | some s => s.frames.freeBytes k.memory

/-- The size of the managed memory. -/
def totalBytes (k : Kernel) : Except Panic Nat :=
  match k.subsystem? with
  | none => .ok 0
  | some s => s.frames.totalBytes

/-! ## Address spaces -/

/-- Makes a root that shares the kernel half of the active one. -/
def createRoot : Action Kernel (Except KernelError Frame) :=
  attempt Manager.createKernelRoot

/-- The root of the kernel's own address space. -/
def kernelRoot : Action Kernel (Except KernelError Frame) :=
  withManager do return (← get).kernelRoot

/-- The root that is active on the processor. -/
def activeRoot : Action Kernel (Except KernelError Frame) :=
  withManager do return (← get).activeRoot

/-- Makes a root active. -/
def switch (root : Frame) : Action Kernel Unit := do
  match ← withManager (Manager.switch root) with
  | .ok () => return ()
  | .error _ => note .switchedEarly

/-- Whether an operation succeeded; the reason of a failure goes to the log. -/
def succeeded {α : Type} (operation : String) (result : Except KernelError α) :
    Action Kernel Bool := do
  match result with
  | .ok _ => return true
  | .error e =>
    note (.operationFailed operation e)
    return false

/-- Maps a page of a root. -/
def map (root : Frame) (va : VirtAddr) (pa : PhysAddr) (flags : Flags) : Action Kernel Bool := do
  succeeded "map" (← attempt (Manager.map root va pa flags))

/-- Unmaps a page of a root. -/
def unmap (root : Frame) (va : VirtAddr) : Action Kernel Bool := do
  succeeded "unmap" (← attempt (Manager.unmap root va))

/-- Whether an address is mapped in a root. -/
def isMapped (root : Frame) (va : VirtAddr) : Action Kernel Bool := do
  match ← withManager (Manager.isMapped root va) with
  | .ok answer => return answer
  | .error _ => return false

/-- What an address stands for in a root. -/
def translate (root : Frame) (va : VirtAddr) : Action Kernel (Except KernelError Mapping) :=
  attempt (Manager.translate root va)

/-- Maps the whole pages of a range in the kernel's root. -/
def identityMap (va : VirtAddr) (pa : PhysAddr) (size : UInt64) (flags : Flags) :
    Action Kernel (Except KernelError Nat) :=
  attempt (Manager.identityMap va pa size flags)

/-- Turns paging on, through a root that from then on is the kernel's. -/
def enablePaging (root : Frame) : Action Kernel (Except KernelError Unit) :=
  attempt (Manager.enablePaging root)

/-- Tries one page of the kernel's root. -/
def selfTest (va : VirtAddr) : Action Kernel (Except KernelError Unit) :=
  attempt (Manager.selfTest va)

/-! ## Bytes -/

/-- Hands out bytes of the heap; why there are none goes to the log. -/
def allocateBytes (size : UInt64) : Action Kernel (Option PhysAddr) := do
  let result ← withHeap fun
    | none => return (none, .error .outOfMemory)
    | some heap => do
      let (heap, result) ← Manager.onStore (heap.alloc size)
      return (some heap, result)
  match result with
  | .ok (.ok address) => return some address
  | .ok (.error e) =>
    note (.allocationFailed size.toNat e)
    return none
  | .error _ => return none

/-- Takes note of bytes that are given back. -/
def freeBytesAt (pointer : VirtAddr) : Action Kernel Unit := do
  let result ← withHeap fun
    | none => return (none, ())
    | some heap => do
      Manager.onStore (heap.free pointer)
      return (some heap, ())
  match result with
  | .ok () => return ()
  | .error _ => note (.bytesFreedEarly pointer)

/-- A number read off the heap, or zero if there is none. -/
def heapFigure (figure : Heap → Nat) (k : Kernel) : Nat :=
  match k.subsystem? with
  | none => 0
  | some s => s.heap?.elim 0 figure

/-- The number of bytes that the heap has handed out. -/
def heapUsed (k : Kernel) : Nat :=
  k.heapFigure Heap.used

/-- The number of bytes that the heap holds. -/
def heapTotal (k : Kernel) : Nat :=
  k.heapFigure Heap.total

/-- Reports how much memory there is and how much of it is used. -/
def report : Action Kernel Unit := do
  let k ← get
  let totalBytes ← Action.ofExcept k.totalBytes
  let freeBytes ← Action.ofExcept k.freeBytes
  note (.memoryReport totalBytes freeBytes k.heapUsed k.heapTotal)

end KernelMemory.Kernel
