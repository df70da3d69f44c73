import KernelMemory.Space.Path

/-!
# Finding what maps an address

The read-only walk: from the root down through table links until it reaches the slot of a single
page or an entry that maps a large page; at an entry that is not present it fails.  Nothing here
changes memory.

* `AddressSpace.find` — where the walk for an address ends.
* `AddressSpace.walk`, `AddressSpace.isMapped`, `AddressSpace.translate` — what callers learn of it.
-/

namespace KernelMemory

/-- A tree of page tables, given by its root. -/
@[ext] structure AddressSpace where
  root : Frame
deriving DecidableEq, Repr

/-- Where a walk ends, if no table is missing on the way. -/
inductive Walk where
  /-- At the slot of a single page, present or not. -/
  | slot (path : Path)
  /-- At an entry that maps a large page, in a table of the given height. -/
  | large (entry : Entry) (height : Nat)
deriving DecidableEq, Repr

/-- The slot of a single page at the end of a walk. -/
def Walk.path? : Walk → Except MapError Path
  | slot path => .ok path
  | large .. => .error (.invalidRequest .coveredByLargePage)

/-- What a mapped address stands for. -/
@[ext] structure Mapping where
  address : PhysAddr
  flags : Flags
  pageBytes : Nat
deriving DecidableEq, Repr

/-- Follows links from a slot of a table of the given height. -/
def Memory.descend (m : Memory) (va : VirtAddr) :
    (height : Nat) → Path → Except Panic (Except MapError Walk)
  | 0, path => return .ok (.slot path)
  | height + 1, path => do
    let entry ← m.readEntry path.slot
    if entry.isTable then
      m.descend va height (path.down entry.frame (va.index height))
    else if entry.present then
      return .ok (.large entry (height + 1))
    else
      return .error .notMapped

/-- What an entry of a table of the given height makes of an address, if it is present.  Bits of the
entry's frame below the size of the page do not count. -/
def Entry.translate (e : Entry) (height : Nat) (va : VirtAddr) : Except MapError Mapping :=
  let size := 2 ^ Address.indexShift height
  if e.present then
    .ok {
      address := .ofNat (e.frame.number * pageSize / size * size + va.value.toNat % size)
      flags := e.flags
      pageBytes := size }
  else .error .notMapped

namespace AddressSpace

/-- The root as a table. -/
def rootTable (space : AddressSpace) : TableFrame rootHeight :=
  ⟨space.root⟩

/-- Where the walk for an address ends; only canonical addresses have one. -/
def find (space : AddressSpace) (m : Memory) (va : VirtAddr) :
    Except Panic (Except MapError Walk) :=
  if va.isCanonical then
    m.descend va rootHeight (.ofRoot space.root va)
  else return .error (.invalidRequest .nonCanonical)

/-- The slot of the single page that contains an address. -/
def walk (space : AddressSpace) (m : Memory) (va : VirtAddr) :
    Except Panic (Except MapError Path) := do
  return (← space.find m va).bind Walk.path?

/-- Whether an address is mapped, by a page of any size. -/
def isMapped (space : AddressSpace) (m : Memory) (va : VirtAddr) : Except Panic Bool := do
  match ← space.find m va with
  | .error _ => return false
  | .ok (.slot path) => return (← m.readEntry path.slot).present
  | .ok (.large ..) => return true

/-- What an address stands for. -/
def translate (space : AddressSpace) (m : Memory) (va : VirtAddr) :
    Except Panic (Except MapError Mapping) := do
  match ← space.find m va with
  | .error e => return .error e
  | .ok (.slot path) => return (← m.readEntry path.slot).translate 0 va
  | .ok (.large entry height) => return entry.translate height va

end AddressSpace

end KernelMemory
