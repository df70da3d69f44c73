import KernelMemory.Log.Event

/-!
# What the bootloader says

The bootloader answers three questions: whether it speaks our revision of the protocol, what
physical memory looks like, and where it is mapped.  All three answers are needed, and are asked for
in this order.  Of the memory map the first `maxRegions` entries are kept.
-/

namespace KernelMemory

/-- One entry of the bootloader's memory map. -/
structure BootEntry where
  base : UInt64
  length : UInt64
  type : UInt64
deriving DecidableEq, Repr

/-- The kind that a type number stands for.  A type without a kind of its own counts as occupied by
the kernel. -/
def RegionKind.ofBootType (type : UInt64) : RegionKind :=
  match type.toNat with
  | 0 => .usable
  | 1 => .reserved
  | 2 => .acpiReclaimable
  | 3 => .acpiNvs
  | 4 => .bad
  | 5 => .bootloaderReclaimable
  | 7 => .framebuffer
  | _ => .kernelAndModules

/-- The region that an entry describes. -/
def BootEntry.region (e : BootEntry) : Region where
  base := e.base
  length := e.length
  kind := .ofBootType e.type

/-- The bootloader's answers. -/
structure BootAnswers where
  /-- Zero, if the bootloader speaks our revision of the protocol. -/
  revision : UInt64
  /-- The memory map, if there is one. -/
  map? : Option (List BootEntry)
  /-- The offset of the direct map of physical memory, if there is one. -/
  directMap? : Option UInt64
deriving DecidableEq, Repr

/-- What the kernel keeps of the bootloader's answers. -/
structure BootMemory where
  regions : List Region
  directMap : UInt64
deriving DecidableEq, Repr

namespace BootMemory

/-- What is reported while a memory map is read: every entry up to the first that cannot be kept,
and that one's complaint. -/
def events (entries : List BootEntry) : List Log.Event :=
  let seen := (entries.take (maxRegions + 1)).map fun e => Log.Event.bootRegion e.region
  if entries.length ≤ maxRegions then seen else seen ++ [.bootMapTruncated entries.length]

/-- What the kernel keeps, and what it reports meanwhile. -/
def ofAnswers (answers : BootAnswers) : Except BootError BootMemory × List Log.Event :=
  if answers.revision ≠ 0 then (.error .unsupportedRevision, [])
  else
    match answers.map?, answers.directMap? with
    | none, _ => (.error .noMemoryMap, [])
    | some _, none => (.error .noDirectMap, [])
    | some entries, some directMap =>
      (.ok { regions := (entries.take maxRegions).map BootEntry.region, directMap },
        events entries)

end BootMemory

end KernelMemory
