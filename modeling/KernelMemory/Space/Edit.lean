import KernelMemory.Space.Path

/-!
# Changing entries and their counts

The number of present entries in an owned table is kept in the entry that links the table.  `fill`
and `vacate` change a slot and keep that count right; `release` gives back tables whose count has
reached zero, from a table upwards, and stops at the first one that is in use or not owned.
-/

namespace KernelMemory.Space

variable {A : Type}

/-- Counts one more child in the entry that links a table, if the kernel owns the table.  The root
has no such entry. -/
def gainChild : (holders : List Slot) → Action (Store A) Unit
  | [] => pure ()
  | holder :: _ => do
    let link ← Store.entry holder
    if link.owned then
      match link.withLiveChildren? (link.liveChildren.val + 1) with
      | some link => Store.setEntry holder link
      | none => throw .liveCountFull

/-- Counts one child less in the entry that links a table, if the kernel owns the table. -/
def loseChild (table : Frame) : (holders : List Slot) → Action (Store A) Unit
  | [] => pure ()
  | holder :: _ => do
    let link ← Store.entry holder
    if link.owned then
      match link.liveChildren.val with
      | 0 => throw (.liveCountUnderflow table)
      | live + 1 => Store.setEntry holder (link.counting live)

/-- Writes a present entry; a slot that was not present before counts as one more child. -/
def fill (path : Path) (entry : Entry) : Action (Store A) Unit := do
  let previous ← Store.entry path.slot
  Store.setEntry path.slot entry
  unless previous.present do
    gainChild path.holders

/-- Empties a slot; one that was present before counts as one child less. -/
def vacate (path : Path) : Action (Store A) Unit := do
  let previous ← Store.entry path.slot
  Store.setEntry path.slot .absent
  if previous.present then
    loseChild path.slot.table path.holders

/-- Gives back a table that the kernel owns and that has no children left, then looks at the table
above it. -/
def release [FrameSource A] (table : Frame) : (holders : List Slot) → Action (Store A) Unit
  | [] => pure ()
  | holder :: above => do
    let link ← Store.entry holder
    if link.owned && link.liveChildren == 0 then
      vacate { slot := holder, holders := above }
      FrameSource.free table
      Store.note (.tableReleased table (above.length + 1))
      release holder.table above

end KernelMemory.Space
