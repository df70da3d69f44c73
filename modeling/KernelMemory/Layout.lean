/-!
# The numbers the kernel is laid out by

Sizes, limits and fixed addresses.  Pages and frames are 4 KiB; a page table fills exactly one
frame with 512 words; the upper half of every root table, entries 256 and up, belongs to the
kernel.
-/

namespace KernelMemory

/-- The size of a physical frame and of a virtual page, in bytes. -/
abbrev pageSize : Nat := 4096

/-- The number of entries in one page table, at any level. -/
abbrev tableEntries : Nat := 512

/-- The position of an entry within a page table. -/
abbrev Index : Type := Fin tableEntries

/-- A table has entries, so that numerals stand for positions. -/
instance instNeZeroEntries : @NeZero Nat Zero.ofOfNat0 tableEntries := ⟨by decide⟩

/-- The first index of a root table that belongs to the kernel half. -/
abbrev kernelHalfStart : Nat := 256

/-- The address the kernel image is linked at. -/
abbrev kernelBase : UInt64 := 0xffffffff80000000

/-- The number of memory-map entries that are kept from the boot protocol. -/
abbrev maxRegions : Nat := 256

/-- The number of separate runs of frames the kernel heap keeps track of. -/
abbrev maxSpans : Nat := 32

/-- Heap allocations start at multiples of this many bytes. -/
abbrev heapAlign : Nat := 8

/-- A lower-half address that nothing else may use; the paging self test maps one page there. -/
abbrev selfTestAddress : UInt64 := 0x400000000000

/-- A page-table entry holds this many bits of a physical address. -/
abbrev physicalAddressBits : Nat := 52

/-- The number of children a page-table entry can count. -/
abbrev maxLiveChildren : Nat := 2047

/-! ## Powers

A power of natural numbers is core's own one, also where the power of a monoid is at hand. -/

attribute [default_instance 20000, instance (20000)] instPowNat

end KernelMemory
