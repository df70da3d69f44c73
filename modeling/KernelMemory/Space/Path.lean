import KernelMemory.Table

/-!
# Paths through a tree of tables

A `Path` is the way from a root table down to one slot.  It remembers the slots that hold the links
above, nearest first: they are where the live counts of the tables on the way are kept, and the way
back up along which empty tables are given back.
-/

namespace KernelMemory

/-- A slot and the links that lead to its table. -/
@[ext] structure Path where
  /-- The slot that has been reached. -/
  slot : Slot
  /-- The slots that hold the links above it, nearest first. -/
  holders : List Slot := []
deriving DecidableEq, Repr

namespace Path

/-- The slot of the root table that an address selects. -/
def ofRoot (root : Frame) (va : VirtAddr) : Path :=
  { slot := ⟨root, va.index rootHeight⟩ }

/-- One level further down, into a slot of the linked table. -/
def down (p : Path) (table : Frame) (index : Index) : Path where
  slot := ⟨table, index⟩
  holders := p.slot :: p.holders

/-- How many links lead to the slot's table. -/
def depth (p : Path) : Nat :=
  p.holders.length

@[simp] theorem depth_ofRoot {root : Frame} {va : VirtAddr} : (ofRoot root va).depth = 0 := rfl

@[simp] theorem depth_down {p : Path} {table : Frame} {index : Index} :
    (p.down table index).depth = p.depth + 1 := rfl

end Path

end KernelMemory
