import KernelMemory.Space.Edit
import KernelMemory.Space.Find

/-!
# Mapping and unmapping pages

The operations that change an address space.  Missing tables are made on the way to a page and given
back when their last entry goes; a request that cannot be met gives back what it had made.

* `AddressSpace.create` — a root with nothing mapped.
* `AddressSpace.reach` — the walk that makes missing tables.
* `AddressSpace.map`, `AddressSpace.unmap` — one page; a mapped page is never overwritten.
* `AddressSpace.shareKernelHalf` — the upper half of another root, without its tables.
-/

namespace KernelMemory

variable {A : Type}

namespace Space

/-- Links a new table, owned and empty, into a slot that is not present. -/
def linkTable (path : Path) (table : Frame) (va : VirtAddr) : Action (Store A) Unit := do
  Store.clearFrame table
  fill path (← Action.ofExcept (Entry.ownedTable table))
  Store.note (.tableCreated table path.depth va)

/-- Follows links from a slot of a table of the given height and makes the tables that are missing.
Without a frame for one, tables on the way that have no children are given back. -/
def reach [FrameSource A] (va : VirtAddr) :
    (height : Nat) → Path → Action (Store A) (Except MapError Walk)
  | 0, path => return .ok (.slot path)
  | height + 1, path => do
    let entry ← Store.entry path.slot
    if entry.isTable then
      reach va height (path.down entry.frame (va.index height))
    else if entry.present then
      return .ok (.large entry (height + 1))
    else
      match ← FrameSource.alloc with
      | none =>
        release path.slot.table path.holders
        return .error .outOfMemory
      | some table =>
        linkTable path table va
        reach va height (path.down table (va.index height))

end Space

namespace AddressSpace

/-- Makes an address space with an empty root. -/
def create [FrameSource A] : Action (Store A) (Except MapError AddressSpace) := do
  match ← FrameSource.alloc with
  | none => return .error .outOfMemory
  | some root =>
    Store.clearFrame root
    Store.note (.spaceCreated root)
    return .ok { root }

/-- Where the walk for an address ends once the missing tables are made. -/
def reach [FrameSource A] (space : AddressSpace) (va : VirtAddr) :
    Action (Store A) (Except MapError Walk) :=
  if va.isCanonical then
    Space.reach va rootHeight (.ofRoot space.root va)
  else return .error (.invalidRequest .nonCanonical)

/-- The slot of the single page that contains an address, with the tables on the way made where they
were missing. -/
def walkOrCreate [FrameSource A] (space : AddressSpace) (va : VirtAddr) :
    Action (Store A) (Except MapError Path) := do
  return (← space.reach va).bind Walk.path?

/-- Maps the page that contains `va` to the frame that contains `pa`, unless it is mapped. -/
def map [FrameSource A] (space : AddressSpace) (va : VirtAddr) (pa : PhysAddr) (flags : Flags) :
    Action (Store A) (Except MapError Unit) := do
  if 2 ^ physicalAddressBits ≤ pa.value.toNat then
    return .error (.invalidRequest .beyondPhysical)
  match ← space.reach va with
  | .error e => return .error e
  | .ok (.slot path) =>
    if (← Store.entry path.slot).present then
      return .error .alreadyMapped
    Space.fill path (← Action.ofExcept (Entry.leaf pa.page flags))
    return .ok ()
  | .ok (.large ..) => return .error .alreadyMapped

/-- Unmaps the page that contains `va` and gives the frame it was mapped to.  Tables that are left
without children are given back; the frame itself is not. -/
def unmap [FrameSource A] (space : AddressSpace) (va : VirtAddr) :
    Action (Store A) (Except MapError Frame) := do
  match ← Store.lookup fun m => space.walk m va with
  | .error e => return .error e
  | .ok path =>
    let leaf ← Store.entry path.slot
    if !leaf.present then
      return .error .notMapped
    Space.vacate path
    Space.release path.slot.table path.holders
    return .ok leaf.frame

/-- The indices of a root table that belong to the kernel half. -/
@[irreducible] def kernelHalf : List Index :=
  (List.finRange tableEntries).drop kernelHalfStart

/-- Makes the kernel half of another root visible in this one.  The links are borrowed: the tables
behind them stay with their owner. -/
def shareKernelHalf (space : AddressSpace) (source : Frame) : Action (Store A) Unit :=
  kernelHalf.forM fun i => do
    let entry ← Store.entry ⟨source, i⟩
    Store.setEntry ⟨space.root, i⟩ (if entry.present then entry.borrowed else .absent)

end AddressSpace

end KernelMemory
