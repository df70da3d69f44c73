import KernelMemory.Space.Find

/-!
# Reporting a walk

For a fault report: every entry on the way to an address, from the root down to the one that decides
what the address stands for.
-/

namespace KernelMemory

variable {A : Type}

namespace TableFrame

/-- Notes the entry that an address selects in a table, and gives it. -/
def reportEntry {height : Nat} (table : TableFrame height) (level : Log.Level) (va : VirtAddr) :
    Action (Store A) Entry := do
  let slot := table.slot va
  let entry ← Store.entry slot
  Store.note (.walkStep level table.debugText slot.index entry)
  return entry

/-- Notes the entries on the way from a table down to an address. -/
def reportWalk (level : Log.Level) (va : VirtAddr) :
    (height : Nat) → TableFrame height → Action (Store A) Unit
  | 0, table => discard (table.reportEntry level va)
  | height + 1, table => do
    let entry ← table.reportEntry level va
    if let some child := table.child? entry then
      reportWalk level va height child

end TableFrame

/-- Notes the entries on the way from the root down to an address. -/
def AddressSpace.report (space : AddressSpace) (level : Log.Level) (va : VirtAddr) :
    Action (Store A) Unit :=
  space.rootTable.reportWalk level va rootHeight

end KernelMemory
