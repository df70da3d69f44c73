import KernelMemory.Boot
import KernelMemory.Fault.Monitor
import KernelMemory.Frames.Bitmap
import KernelMemory.Heap
import KernelMemory.Manager
import KernelMemory.Paging.Processor

/-!
# The state of the kernel

Before memory is set up there is physical memory and a processor.  Setting it up adds, for good, the
place where memory is mapped, and the parts that stand behind the kernel's lock: the frame bitmap,
the memory manager's own state and the heap.  Every later call takes these parts and memory together
as one `Manager`, so no two calls ever see different halves of the state.
-/

namespace KernelMemory

/-- What stands behind the kernel's lock. -/
structure Subsystem where
  frames : Bitmap
  kernelRoot : Frame
  pagingEnabled : Bool := false
  /-- The heap, if there was a frame for it. -/
  heap? : Option Heap
deriving DecidableEq, Repr

namespace Subsystem

/-- The parts but the heap, with memory, the processor and the log, as one manager. -/
def manager (s : Subsystem) (memory : Memory) (processor : Processor) (log : Array Log.Event) :
    Manager Bitmap Processor where
  store := { memory, source := s.frames, log }
  machine := processor
  kernelRoot := s.kernelRoot
  pagingEnabled := s.pagingEnabled

/-- The parts that a manager holds, and a heap. -/
def ofManager (m : Manager Bitmap Processor) (heap? : Option Heap) : Subsystem where
  frames := m.store.source
  kernelRoot := m.kernelRoot
  pagingEnabled := m.pagingEnabled
  heap? := heap?

end Subsystem

/-- The machine and what the kernel has made of it. -/
structure Kernel where
  memory : Memory := { window := { offset := 0 } }
  processor : Processor := {}
  /-- Where memory is mapped, once that is known. -/
  directMap? : Option UInt64 := none
  /-- The parts of the memory subsystem, once they are set up. -/
  subsystem? : Option Subsystem := none
  faults : FaultState := .running
  log : Array Log.Event := ∅

namespace Kernel

variable {α : Type}

/-- Notes an event. -/
def note (e : Log.Event) : Action Kernel Unit :=
  modify fun k => { k with log := k.log.push e }

/-- Runs an action on the parts of the subsystem; without them there is nothing to run it on.  The
action is given the heap, and says what becomes of it. -/
def withHeap (act : Option Heap → Action (Manager Bitmap Processor) (Option Heap × α)) :
    Action Kernel (Except KernelError α)
  | k@{ subsystem? := none, .. } => .ok (.error .uninitialized) k
  | { memory, processor, directMap?, subsystem? := some s, faults, log } =>
    let resume (heap? : Option Heap) (m : Manager Bitmap Processor) : Kernel :=
      { memory := m.store.memory
        processor := m.machine
        directMap?
        subsystem? := some (.ofManager m heap?)
        faults
        log := m.store.log }
    match act s.heap? (s.manager memory processor log) with
    | .ok (heap?, a) m => .ok (.ok a) (resume heap? m)
    | .error p m => .error p (resume s.heap? m)

/-- Runs an action on all parts of the subsystem but the heap. -/
def withManager (act : Action (Manager Bitmap Processor) α) :
    Action Kernel (Except KernelError α) :=
  withHeap fun heap? => do return (heap?, ← act)

/-- Runs a page-table operation on the parts of the subsystem. -/
def attempt (act : Action (Manager Bitmap Processor) (Except MapError α)) :
    Action Kernel (Except KernelError α) := do
  match ← withManager act with
  | .error e => return .error e
  | .ok (.error e) => return .error (.map e)
  | .ok (.ok a) => return .ok a

end Kernel

end KernelMemory
