import KernelMemory.Kernel.State

/-!
# The kernel's page-fault handler

A page fault ends the kernel.  The first one is reported: the fault, the modes of the processor and,
if memory is mapped, the entries on the way to the address.  A fault that happens after that is not.
The second part takes a handler apart into its steps: a report may itself fault, at any entry that
it reads, and then another handler starts before the first one is through.
-/

namespace KernelMemory.Kernel

/-- Reports the entries on the way from the active root to an address. -/
def reportWalk (va : VirtAddr) : Action Kernel Unit := fun k =>
  let space : AddressSpace := ⟨PagingControl.activeRoot k.processor⟩
  let store : Store Unit := { memory := k.memory, source := (), log := k.log }
  match space.report .error va store with
  | .ok () store => .ok () { k with log := store.log }
  | .error p store => .error p { k with log := store.log }

/-- Reports a page fault with the given error code at the address that the processor reports. -/
def reportFault (code : UInt64) : Action Kernel Unit := do
  let k ← get
  let fault := PageFault.capture k.processor code
  note (.pageFault fault)
  note (.faultControl k.processor.cr0)
  if k.directMap?.isSome then
    reportWalk fault.address

/-- Handles a page fault with the given error code; nothing runs afterwards. -/
def handleFault (code : UInt64) : Action Kernel Unit := do
  let (entry, faults) := (← get).faults.enter
  modify fun k => { k with faults }
  match entry with
  | .haltNow => return ()
  | .report =>
    reportFault code
    modify fun k => { k with faults := k.faults.halt }

/-- The processor raises a page fault at an address. -/
def raiseFault (address : VirtAddr) (code : UInt64) : Action Kernel Unit := do
  modify fun k => { k with processor := { k.processor with cr2 := address.value } }
  handleFault code

/-! ## Handlers that interrupt each other -/

/-- How far the handler of a page fault has come. -/
inductive Handler where
  /-- The processor is about to raise a fault at an address. -/
  | raised (address : VirtAddr) (code : UInt64)
  /-- The handler is about to claim the machine. -/
  | entering (code : UInt64)
  /-- It found the machine claimed and is about to halt it. -/
  | refused
  /-- It has claimed the machine and is about to ask the processor for the address. -/
  | capturing (code : UInt64)
  /-- It is about to report the fault. -/
  | reporting (fault : PageFault)
  /-- It is about to report the modes of the processor. -/
  | describing (address : VirtAddr)
  /-- It is about to look for the root, if memory is mapped. -/
  | locating (address : VirtAddr)
  /-- It is about to report the entry for an address in a table of the given height. -/
  | walking (address : VirtAddr) (height : Nat) (table : TableFrame height)
  /-- It is about to halt the machine; what it was told is kept, if it has entered. -/
  | halting (told : Option FaultEntry)
  /-- It is through. -/
  | stopped (told : Option FaultEntry)
  /-- Its report has panicked. -/
  | panicked (p : Panic)

namespace Handler

/-- Where a report goes on from an entry: to the table below, if there is one. -/
def below (address : VirtAddr) : (height : Nat) → TableFrame height → Entry → Handler
  | 0, _, _ => halting (some .report)
  | height + 1, table, entry =>
    match table.child? entry with
    | some child => walking address height child
    | none => halting (some .report)

/-- One atomic step of a handler.  A handler that begins at `halting none` only halts the machine.
-/
def advance (k : Kernel) : Handler → Kernel × Handler
  | raised address code =>
    ({ k with processor := { k.processor with cr2 := address.value } }, entering code)
  | entering code =>
    match k.faults.claim with
    | (true, faults) => ({ k with faults }, capturing code)
    | (false, faults) => ({ k with faults }, refused)
  | refused => ({ k with faults := k.faults.halt }, stopped (some .haltNow))
  | capturing code => (k, reporting (PageFault.capture k.processor code))
  | reporting fault => ({ k with log := k.log.push (.pageFault fault) }, describing fault.address)
  | describing address =>
    ({ k with log := k.log.push (.faultControl k.processor.cr0) }, locating address)
  | locating address =>
    if k.directMap?.isSome then
      let space : AddressSpace := ⟨PagingControl.activeRoot k.processor⟩
      (k, walking address rootHeight space.rootTable)
    else (k, halting (some .report))
  | walking address height table =>
    let store : Store Unit := { memory := k.memory, source := (), log := k.log }
    match table.reportEntry .error address store with
    | .ok entry store => ({ k with log := store.log }, below address height table entry)
    | .error p store => ({ k with log := store.log }, panicked p)
  | halting told => ({ k with faults := k.faults.halt }, stopped told)
  | stopped told => (k, stopped told)
  | panicked p => (k, panicked p)

end Handler

end KernelMemory.Kernel
