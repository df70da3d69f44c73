import KernelMemory.Sync.Interleaving

/-!
# The fault monitor

A page fault is reported once.  The monitor moves from running to fault handling when the first
handler enters, and to halted when that handler is done or a second one enters while the first is
still at work.  Entering is a compare-exchange, followed by a store if it fails.  The second part
has these as separate steps, for handlers that interrupt each other anywhere.
-/

namespace KernelMemory

/-- How far the machine has come with a fault. -/
inductive FaultState where
  /-- No fault has happened. -/
  | running
  /-- A handler is at work. -/
  | faultHandling
  /-- Nothing runs any more. -/
  | halted
deriving DecidableEq, Repr

/-- What a handler is to do. -/
inductive FaultEntry where
  /-- Report the fault, then halt. -/
  | report
  /-- Halt at once. -/
  | haltNow
deriving DecidableEq, Repr

namespace FaultState

/-- The states in order. -/
def rank : FaultState → Nat
  | running => 0
  | faultHandling => 1
  | halted => 2

/-- The name of the state. -/
def text : FaultState → String
  | running => "Running"
  | faultHandling => "FaultHandling"
  | halted => "Halted"

/-! ## One handler -/

/-- The compare-exchange: the first handler claims a running machine. -/
def claim : FaultState → Bool × FaultState
  | running => (true, faultHandling)
  | s => (false, s)

/-- The halting store. -/
def halt (_ : FaultState) : FaultState :=
  halted

/-- What a handler is to do, and the state once it knows. -/
def enter (s : FaultState) : FaultEntry × FaultState :=
  match s.claim with
  | (true, s) => (.report, s)
  | (false, s) => (.haltNow, s.halt)

end FaultState

/-- The name of what a handler is to do. -/
def FaultEntry.text : FaultEntry → String
  | report => "Report"
  | haltNow => "HaltNow"

/-! ## Handlers that interrupt each other -/

/-- What the handlers share. -/
structure FaultBoard where
  state : FaultState := .running
  reports : Nat := 0
deriving DecidableEq, Repr

/-- How far a handler has come. -/
inductive FaultHandler where
  /-- It is about to claim the machine. -/
  | entering
  /-- It found the machine claimed and is about to halt it. -/
  | refused
  /-- It has claimed the machine and is about to report its fault. -/
  | reporting
  /-- It is about to halt the machine; what it was told is kept, if it has entered. -/
  | halting (told : Option FaultEntry)
  /-- It is through. -/
  | done (told : Option FaultEntry)
deriving DecidableEq, Repr

/-- One atomic step of a handler.  A handler that begins at `halting none` only halts the machine.
-/
def FaultHandler.advance (board : FaultBoard) : FaultHandler → FaultBoard × FaultHandler
  | entering =>
    match board.state.claim with
    | (true, state) => ({ board with state }, reporting)
    | (false, state) => ({ board with state }, refused)
  | refused => ({ board with state := board.state.halt }, done (some .haltNow))
  | reporting => ({ board with reports := board.reports + 1 }, halting (some .report))
  | halting told => ({ board with state := board.state.halt }, done told)
  | done told => (board, done told)

end KernelMemory
