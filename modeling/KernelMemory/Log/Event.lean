import KernelMemory.Entry
import KernelMemory.Error
import KernelMemory.Fault.PageFault
import KernelMemory.Log.Record
import KernelMemory.Region
import KernelMemory.Register

/-!
# Events

What the kernel reports of itself, as data: operations note events, and `Event.record` gives each
its level, its origin and its words.
-/

namespace KernelMemory.Log

/-- Something that an operation reports. -/
inductive Event where
  | spaceCreated (root : Frame)
  /-- A table was linked below the table at the given depth; the root has depth zero. -/
  | tableCreated (frame : Frame) (depth : Nat) (va : VirtAddr)
  /-- An empty table at the given depth was given back. -/
  | tableReleased (frame : Frame) (depth : Nat)
  /-- One step of a walk from the root, at a level that the reader chooses. -/
  | walkStep (level : Level) (tableText : String) (index : Index) (entry : Entry)
  | bitmapHomeless (reservation pages : Nat)
  | bitmapReady (pages reservation : Nat) (home : PhysAddr) (freeBytes : Nat)
  | freeWithoutBitmap (address : PhysAddr)
  | freeBeyondBitmap (address : PhysAddr) (pages : Nat)
  | frameFreedTwice (number : Nat)
  | heapStarted (frame : Frame)
  /-- The heap has a frame that does not continue its last run. -/
  | heapSpanAdded (frame : Frame) (spans : Nat)
  | heapAllocated (size : Nat) (address : PhysAddr)
  /-- Bytes of the heap came back and are not used again. -/
  | heapFreeIgnored (pointer : VirtAddr)
  | kernelRootFound (root : Frame)
  | rootSwitched (root : Frame)
  | rangePageMapped (va : VirtAddr)
  | pagingEnabled (root : Frame)
  | selfTestPassed (va : VirtAddr)
  | directMapFound (offset : UInt64)
  | noFrames
  | noHeap (e : HeapError)
  | operationFailed (operation : String) (e : KernelError)
  | frameFreedEarly (address : PhysAddr)
  | switchedEarly
  | bytesFreedEarly (pointer : VirtAddr)
  | allocationFailed (size : Nat) (e : HeapError)
  | memoryReport (totalBytes freeBytes heapUsed heapTotal : Nat)
  | bootRegion (region : Region)
  | bootMapTruncated (entries : Nat)
  | pageFault (fault : PageFault)
  | faultControl (cr0 : UInt64)
deriving DecidableEq, Repr

namespace Event

/-- One step of a walk in words: where the entry is, its word, and what the walk looks at. -/
def walkStepText (tableText : String) (index : Index) (entry : Entry) : String :=
  let position := toString index.val
  let position := String.ofList (List.replicate (3 - position.length) ' ') ++ position
  "  " ++ tableText ++ "[" ++ position ++ "] = " ++ Hex.lowerPadded 16 entry.toWord.toNat
    ++ s!" present={entry.present} huge={entry.huge} owned={entry.owned}"
    ++ s!" live={entry.liveChildren.val}"

/-- The bytes in a mebibyte. -/
def mebibyte : Nat := 1024 * 1024

/-- The text of a region while it is read from the bootloader. -/
def bootRegionText (region : Region) : String :=
  "boot: " ++ Hex.lowerPadded 12 region.base.toNat ++ ".." ++ Hex.lowerPadded 12 region.top
    ++ " " ++ region.kind.text

/-- The level, origin and words of an event. -/
def record : Event → Record
  | spaceCreated root =>
    ⟨.trace, "kernel_vmem::address_space", s!"new address space with root {root.debugText}"⟩
  | tableCreated frame depth va =>
    ⟨.trace, "kernel_vmem::address_space",
      s!"created table {frame.debugText} below depth {depth} for {va.text}"⟩
  | tableReleased frame depth =>
    ⟨.trace, "kernel_vmem::address_space",
      s!"released empty table {frame.debugText} at depth {depth}"⟩
  | walkStep level tableText index entry =>
    ⟨level, "kernel_vmem::address_space", walkStepText tableText index entry⟩
  | bitmapHomeless reservation pages =>
    ⟨.warn, "kernel_alloc::frame_alloc",
      s!"no usable region can hold the {reservation} byte frame bitmap for {pages} pages"⟩
  | bitmapReady pages reservation home freeBytes =>
    ⟨.info, "kernel_alloc::frame_alloc",
      s!"frame bitmap: {pages} pages, {reservation} bytes at {home.text}, {freeBytes / 1024} KiB free"⟩
  | freeWithoutBitmap address =>
    ⟨.warn, "kernel_alloc::frame_alloc",
      s!"free of {address.text} before the frame allocator was initialized"⟩
  | freeBeyondBitmap address pages =>
    ⟨.warn, "kernel_alloc::frame_alloc",
      s!"free of {address.text} beyond the {pages} managed pages"⟩
  | frameFreedTwice number =>
    ⟨.debug, "kernel_alloc::frame_alloc", s!"double free of frame {Hex.lower number}"⟩
  | heapStarted frame =>
    ⟨.debug, "kernel_alloc::heap", s!"heap: first span at {frame.debugText}"⟩
  | heapSpanAdded frame spans =>
    ⟨.debug, "kernel_alloc::heap", s!"heap: new span at {frame.debugText} ({spans} spans)"⟩
  | heapAllocated size address =>
    ⟨.trace, "kernel_alloc::heap", s!"heap: {size} bytes at {address.text}"⟩
  | heapFreeIgnored pointer =>
    ⟨.trace, "kernel_alloc::heap", s!"heap: ignoring free of {Hex.lower pointer.value.toNat}"⟩
  | kernelRootFound root =>
    ⟨.debug, "kernel_alloc::vmm", s!"vmm: kernel root {root.debugText}"⟩
  | rootSwitched root =>
    ⟨.debug, "kernel_alloc::vmm", s!"vmm: switching to {root.debugText}"⟩
  | rangePageMapped va =>
    ⟨.debug, "kernel_alloc::vmm", s!"identity map: {Hex.lower va.value.toNat} already mapped"⟩
  | pagingEnabled root =>
    ⟨.info, "kernel_alloc::vmm", s!"vmm: paging enabled with root {root.debugText}"⟩
  | selfTestPassed va =>
    ⟨.info, "kernel_alloc::vmm", s!"vmm: self test at {va.text} passed"⟩
  | directMapFound offset =>
    ⟨.debug, "kernel::memory", s!"memory: hhdm at {Hex.lower offset.toNat}"⟩
  | noFrames =>
    ⟨.warn, "kernel::memory", "memory: running without a frame allocator"⟩
  | noHeap e =>
    ⟨.warn, "kernel::memory", s!"memory: no kernel heap: {e.message}"⟩
  | operationFailed operation (.map e) =>
    ⟨.debug, "kernel::memory", s!"memory: {operation} failed: {e.message}"⟩
  | operationFailed operation e =>
    ⟨.warn, "kernel::memory", s!"memory: {operation} failed: {e.message}"⟩
  | frameFreedEarly address =>
    ⟨.warn, "kernel::memory", s!"memory: free of {address.text} before init"⟩
  | switchedEarly =>
    ⟨.warn, "kernel::memory", "memory: address space switch before init"⟩
  | bytesFreedEarly pointer =>
    ⟨.warn, "kernel::memory", s!"memory: kfree of {Hex.lower pointer.value.toNat} before init"⟩
  | allocationFailed size e =>
    ⟨.debug, "kernel::memory", s!"kmalloc({size}): {e.message}"⟩
  | memoryReport totalBytes freeBytes heapUsed heapTotal =>
    ⟨.info, "kernel::memory",
      s!"memory: {totalBytes / mebibyte} MiB total, {freeBytes / mebibyte} MiB free; "
        ++ s!"heap {heapUsed} of {heapTotal} bytes used"⟩
  | bootRegion region => ⟨.debug, "kernel::boot", bootRegionText region⟩
  | bootMapTruncated entries =>
    ⟨.warn, "kernel::boot",
      s!"boot: memory map has {entries} entries, keeping the first {maxRegions}"⟩
  | pageFault fault => ⟨.error, "kernel::interrupts::page_fault", fault.text⟩
  | faultControl cr0 =>
    ⟨.error, "kernel::interrupts::page_fault", "control: " ++ Cr0.layout.debugText cr0⟩

end Event

/-- The records that pass a filter, in order. -/
def visible (filter : Filter) (events : List Event) : List Record :=
  (events.map Event.record).filter fun r => filter.allows r.level

end KernelMemory.Log
