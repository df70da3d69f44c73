import KernelMemory.Panic

/-!
# Regions of physical memory

The firmware describes physical memory as a list of regions, each with a kind.  Only usable regions
hold memory that may be handed out.  Bases and lengths are arbitrary 64-bit numbers: the end of a
region that would lie beyond 64 bits is taken to be the last address.
-/

namespace KernelMemory

/-- What a region of physical memory is used for. -/
inductive RegionKind where
  | usable
  | reserved
  /-- Firmware tables, free once they have been read. -/
  | acpiReclaimable
  | acpiNvs
  | bad
  /-- Tables and stack of the bootloader, free once boot data has been consumed. -/
  | bootloaderReclaimable
  /-- The kernel image and the modules loaded with it. -/
  | kernelAndModules
  | framebuffer
deriving DecidableEq, Repr

namespace RegionKind

/-- Every kind. -/
def all : List RegionKind :=
  [usable, reserved, acpiReclaimable, acpiNvs, bad, bootloaderReclaimable, kernelAndModules,
    framebuffer]

/-- The name of the kind in messages. -/
def text : RegionKind → String
  | usable => "usable"
  | reserved => "reserved"
  | acpiReclaimable => "acpi-reclaimable"
  | acpiNvs => "acpi-nvs"
  | bad => "bad"
  | bootloaderReclaimable => "bootloader-reclaimable"
  | kernelAndModules => "kernel+modules"
  | framebuffer => "framebuffer"

/-- The name of the kind in debug text. -/
def debugText : RegionKind → String
  | usable => "Usable"
  | reserved => "Reserved"
  | acpiReclaimable => "AcpiReclaimable"
  | acpiNvs => "AcpiNvs"
  | bad => "BadMemory"
  | bootloaderReclaimable => "BootloaderReclaimable"
  | kernelAndModules => "KernelAndModules"
  | framebuffer => "Framebuffer"

/-- The kind with the given name. -/
def ofText? (name : String) : Option RegionKind :=
  all.find? fun kind => kind.text == name

end RegionKind

/-- A contiguous range of physical memory. -/
@[ext] structure Region where
  base : UInt64
  length : UInt64
  kind : RegionKind
deriving DecidableEq, Repr

namespace Region

/-- The address just past the region, or the last address if that lies beyond 64 bits. -/
def top (r : Region) : Nat :=
  min (r.base.toNat + r.length.toNat) (2 ^ 64 - 1)

/-- Whether the region holds memory that may be handed out. -/
def isUsable (r : Region) : Bool :=
  r.kind == .usable

/-- The whole pages of the region as a range of addresses, if there are any. -/
def pageSpan? (r : Region) : Option (Nat × Nat) :=
  let start := (r.base.toNat + (pageSize - 1)) / pageSize * pageSize
  let stop := r.top / pageSize * pageSize
  if start < 2 ^ 64 ∧ start < stop then some (start, stop) else none

/-- The fields with their values; numbers are decimal. -/
def debugText (r : Region) : String :=
  "MemoryRegion \x7b base: " ++ toString r.base ++ ", length: " ++ toString r.length
    ++ ", kind: " ++ r.kind.debugText ++ " \x7d"

/-- The sum of the lengths of the usable regions. -/
def usableBytes (regions : List Region) : Except Panic Nat :=
  Checked.sum ((regions.filter isUsable).map fun r => r.length.toNat)

end Region

end KernelMemory
