import KernelMemory.Layout
import KernelMemory.Text.Hex

/-!
# Addresses and pages

An `Address` is a 64-bit number of one of three kinds, and a `Page` is one of the 2⁵² aligned
4 KiB blocks that addresses of that kind fall into.  The kind is an index of the type, so that a
physical address is never taken for a virtual one, while splitting, joining and printing are
written once.

* `Address.page`, `Address.offset`, `Page.join` — an address is a page and an offset within it;
  **`page_join_offset`** says that nothing is lost.
* `Page.ofNumber`, `Page.number` — a page by its number; numbers beyond 52 bits lose their high
  bits.
* `VirtAddr.index` — the position an address selects in a page table of a given height.
-/

namespace KernelMemory

/-- What an address refers to. -/
inductive AddressKind where
  /-- Either of the other two, or neither. -/
  | memory
  /-- A byte of physical memory. -/
  | physical
  /-- A byte as running code sees it, before page tables are consulted. -/
  | virtual
deriving DecidableEq, Repr

/-- A 64-bit address of the given kind. -/
@[ext] structure Address (kind : AddressKind) where
  value : UInt64
deriving DecidableEq, Repr, Hashable

/-- An aligned block of `pageSize` bytes in the addresses of the given kind. -/
@[ext] structure Page (kind : AddressKind) where
  /-- The position of the block, counted in blocks from address zero. -/
  number : Nat
  /-- The block lies within the 64-bit addresses. -/
  number_lt : number < 2 ^ 52 := by decide
deriving DecidableEq, Repr, Hashable

/-- An address of physical memory. -/
abbrev PhysAddr : Type := Address .physical

/-- An address that goes through page tables. -/
abbrev VirtAddr : Type := Address .virtual

/-- A page of physical memory. -/
abbrev Frame : Type := Page .physical

/-- A page of virtual memory. -/
abbrev VirtPage : Type := Page .virtual

variable {kind : AddressKind}

/-! ## Pages by number and by address -/

namespace Page

/-- The page with the given number, of which only the low 52 bits count. -/
def ofNumber (n : Nat) : Page kind :=
  ⟨n % 2 ^ 52, Nat.mod_lt _ (by decide)⟩

instance : Inhabited (Page kind) := ⟨ofNumber 0⟩

/-- The first address of the page. -/
def base (page : Page kind) : Address kind :=
  ⟨UInt64.ofNat (page.number * pageSize)⟩

/-- The address at `offset` within the page; only the low twelve bits of the offset count. -/
def join (page : Page kind) (offset : Nat) : Address kind :=
  ⟨UInt64.ofNat (page.number * pageSize + offset % pageSize)⟩

theorem toNat_base (page : Page kind) : page.base.value.toNat = page.number * pageSize := by
  have := page.number_lt
  simp only [base, pageSize, UInt64.toNat_ofNat']
  omega

theorem toNat_join (page : Page kind) (offset : Nat) :
    (page.join offset).value.toNat = page.number * pageSize + offset % pageSize := by
  have := page.number_lt
  simp only [join, pageSize, UInt64.toNat_ofNat']
  omega

theorem number_ofNumber {n : Nat} (h : n < 2 ^ 52) : (ofNumber n : Page kind).number = n :=
  Nat.mod_eq_of_lt h

@[simp] theorem ofNumber_number (page : Page kind) : ofNumber page.number = page :=
  Page.ext (number_ofNumber page.number_lt)

end Page

namespace Address

instance : Inhabited (Address kind) := ⟨⟨0⟩⟩

/-- The address with the given number, of which only the low 64 bits count. -/
def ofNat (n : Nat) : Address kind :=
  ⟨UInt64.ofNat n⟩

/-- The page that contains the address. -/
def page (a : Address kind) : Page kind :=
  ⟨a.value.toNat / pageSize, by have := a.value.toNat_lt; simp only [pageSize]; omega⟩

/-- The position of the address within its page. -/
def offset (a : Address kind) : Nat :=
  a.value.toNat % pageSize

/-- Whether the address is the first one of its page. -/
def isAligned (a : Address kind) : Bool :=
  a.offset == 0

/-- The first address of the page that contains the address. -/
def alignDown (a : Address kind) : Address kind :=
  a.page.base

/-- The least page boundary at or above the address, unless it lies beyond 64 bits. -/
def alignUp? (a : Address kind) : Option (Address kind) :=
  if a.value.toNat + (pageSize - 1) < 2 ^ 64 then
    some (ofNat (a.value.toNat + (pageSize - 1))).alignDown
  else none

/-- The sum of an address and a distance, unless it lies beyond 64 bits. -/
def add? (a : Address kind) (distance : UInt64) : Option (Address kind) :=
  if a.value.toNat + distance.toNat < 2 ^ 64 then some ⟨a.value + distance⟩ else none

instance : Ord (Address kind) where
  compare a b := compare a.value b.value

@[simp] theorem page_join_offset (a : Address kind) : a.page.join a.offset = a := by
  refine Address.ext (UInt64.toNat.inj ?_)
  rw [Page.toNat_join]
  simp only [page, offset, pageSize]
  omega

theorem page_join (p : Page kind) (offset : Nat) : (p.join offset).page = p := by
  ext
  simp only [page, Page.toNat_join, pageSize]
  omega

theorem ofNat_toNat (a : Address kind) : ofNat a.value.toNat = a :=
  Address.ext UInt64.ofNat_toNat

theorem page_base (p : Page kind) : p.base.page = p := by
  ext
  simp only [page, Page.toNat_base, pageSize]
  omega

end Address

instance : Ord (Page kind) where
  compare p q := compare p.number q.number

/-! ## Virtual addresses -/

namespace Address

/-- The number of address bits below those that select an entry in a table of the given height. -/
def indexShift (height : Nat) : Nat :=
  12 + 9 * height

/-- The entry that a virtual address selects in a table of the given height; a table of height
zero maps single pages, and the root table has height three. -/
def index (va : VirtAddr) (height : Nat) : Index :=
  ⟨va.value.toNat / 2 ^ indexShift height % tableEntries, Nat.mod_lt _ (by decide)⟩

/-- Bits 63 to 47 of a canonical address are all equal. -/
def isCanonical (va : VirtAddr) : Bool :=
  let high := va.value.toNat / 2 ^ 47
  high == 0 || high == 0x1FFFF

end Address

/-! ## Text -/

namespace AddressKind

/-- The name that addresses of this kind carry in debug text. -/
def addressLabel : AddressKind → String
  | memory => "MemoryAddress"
  | physical => "PA"
  | virtual => "VA"

/-- The name that pages of this kind carry in debug text. -/
def pageLabel : AddressKind → String
  | memory => "MemoryPage"
  | physical => "PhysicalPage"
  | virtual => "VirtualPage"

end AddressKind

/-- The name of the page size. -/
def pageSizeName : String := "4K"

namespace Address

/-- Sixteen upper-case digits. -/
def text (a : Address kind) : String :=
  Hex.upperPadded 16 a.value.toNat

/-- The digits in brackets behind the name of the kind. -/
def debugText (a : Address kind) : String :=
  kind.addressLabel ++ "(" ++ a.text ++ ")"

end Address

namespace Page

/-- The first address, and the name of the page size. -/
def text (p : Page kind) : String :=
  p.base.text ++ "/" ++ pageSizeName

/-- The first address in brackets behind the names of the kind and the page size. -/
def debugText (p : Page kind) : String :=
  kind.pageLabel ++ "<" ++ pageSizeName ++ ">(" ++ p.base.text ++ ")"

end Page

end KernelMemory
