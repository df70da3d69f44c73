import KernelMemory.Panic

/-!
# Errors

What an operation can refuse, as opposed to the checks that stop the kernel.  Each part of the
subsystem has its own causes; `KernelError` is what a caller of the kernel sees.  A failure has a
short name for programs and a message for people; both stand here and nowhere else.
-/

namespace KernelMemory

/-- A type of failures. -/
class Failure (ε : Type) where
  name : ε → String
  message : ε → String

/-- Why a page-table request is invalid. -/
inductive InvalidRequest where
  /-- The upper bits of the virtual address are not all equal. -/
  | nonCanonical
  /-- The physical address does not fit an entry. -/
  | beyondPhysical
  /-- A large page maps the address, so it has no slot of its own. -/
  | coveredByLargePage
  | virtualWraps
  | physicalWraps
  | pagingAlreadyEnabled
  /-- The self test found another frame than the one it had mapped. -/
  | selfTestOtherFrame
  /-- The self test found its page mapped after unmapping it. -/
  | selfTestStillMapped
deriving DecidableEq, Repr

/-- The reason in words. -/
def InvalidRequest.message : InvalidRequest → String
  | nonCanonical => "non-canonical virtual address"
  | beyondPhysical => "physical address beyond 52 bits"
  | coveredByLargePage => "address is covered by a large page"
  | virtualWraps => "virtual range wraps around"
  | physicalWraps => "physical range wraps around"
  | pagingAlreadyEnabled => "paging is already enabled"
  | selfTestOtherFrame => "self test read back a different frame"
  | selfTestStillMapped => "self test page still mapped"

/-- Why a page-table operation failed. -/
inductive MapError where
  | outOfMemory
  | alreadyMapped
  | notMapped
  | invalidRequest (reason : InvalidRequest)
deriving DecidableEq, Repr

/-- The name of the failure. -/
def MapError.name : MapError → String
  | outOfMemory => "OutOfMemory"
  | alreadyMapped => "AlreadyMapped"
  | notMapped => "NotMapped"
  | invalidRequest _ => "InvalidRequest"

/-- The failure in words. -/
def MapError.message : MapError → String
  | outOfMemory => "no physical frame available for a page table"
  | alreadyMapped => "virtual page is already mapped"
  | notMapped => "virtual page is not mapped"
  | invalidRequest reason => "invalid request: " ++ reason.message

instance : Failure MapError := ⟨MapError.name, MapError.message⟩

/-- Why no frame was handed out. -/
inductive FrameError where
  | outOfMemory
  | uninitialized
deriving DecidableEq, Repr

/-- The name of the failure. -/
def FrameError.name : FrameError → String
  | outOfMemory => "OutOfMemory"
  | uninitialized => "Uninitialized"

/-- The failure in words. -/
def FrameError.message : FrameError → String
  | outOfMemory => "no free physical frame"
  | uninitialized => "frame allocator has no bitmap (no usable region could hold it)"

instance : Failure FrameError := ⟨FrameError.name, FrameError.message⟩

/-- Why a heap allocation failed. -/
inductive HeapError where
  | outOfMemory
  | zeroSize
  /-- The size does not fit 64 bits once it is rounded up. -/
  | sizeOverflow
deriving DecidableEq, Repr

/-- The name of the failure. -/
def HeapError.name : HeapError → String
  | outOfMemory => "OutOfMemory"
  | zeroSize => "InvalidRequest"
  | sizeOverflow => "InvalidRequest"

/-- The failure in words. -/
def HeapError.message : HeapError → String
  | outOfMemory => "heap cannot grow: physical memory or span slots exhausted"
  | zeroSize => "invalid heap request: zero-sized allocation"
  | sizeOverflow => "invalid heap request: allocation size overflows"

instance : Failure HeapError := ⟨HeapError.name, HeapError.message⟩

/-- Why the bootloader's answers cannot be used. -/
inductive BootError where
  | unsupportedRevision
  | noMemoryMap
  | noDirectMap
deriving DecidableEq, Repr

/-- The name of the failure. -/
def BootError.name : BootError → String
  | unsupportedRevision => "UnsupportedRevision"
  | noMemoryMap => "NoMemoryMap"
  | noDirectMap => "NoHhdm"

/-- The failure in words. -/
def BootError.message : BootError → String
  | unsupportedRevision => "bootloader does not support the requested base revision"
  | noMemoryMap => "bootloader provided no memory map"
  | noDirectMap => "bootloader provided no higher-half direct map"

instance : Failure BootError := ⟨BootError.name, BootError.message⟩

/-- Why a call of the kernel failed. -/
inductive KernelError where
  | uninitialized
  | alreadyInitialized
  | frame (e : FrameError)
  | map (e : MapError)
  | heap (e : HeapError)
deriving DecidableEq, Repr

/-- The name of the failure; that of a part of the subsystem stands behind the part's. -/
def KernelError.name : KernelError → String
  | uninitialized => "Uninitialized"
  | alreadyInitialized => "AlreadyInitialized"
  | frame e => "Frame." ++ e.name
  | map e => "Vmm." ++ e.name
  | heap e => "Heap." ++ e.name

/-- The failure in words; a failure of a part of the subsystem keeps its own. -/
def KernelError.message : KernelError → String
  | uninitialized => "memory subsystem is not initialized"
  | alreadyInitialized => "memory subsystem is already initialized"
  | frame e => e.message
  | map e => e.message
  | heap e => e.message

instance : Failure KernelError := ⟨KernelError.name, KernelError.message⟩

end KernelMemory
