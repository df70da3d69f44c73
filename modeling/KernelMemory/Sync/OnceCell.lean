import KernelMemory.Sync.Interleaving

/-!
# The once cell

A cell that takes one value for good.  Its state goes from empty through writing to ready; the slot
for the value is written between the two changes of state, so that whoever sees the cell ready finds
the value complete.  As with the spin lock, the operations of a single caller come first and then
the atomic steps of threads that share a cell.
-/

namespace KernelMemory.Sync

/-- How far a cell has come. -/
inductive CellState where
  /-- Nobody has brought a value. -/
  | empty
  /-- Somebody is writing the value. -/
  | writing
  | ready
deriving DecidableEq, Repr

/-- A cell for one value. -/
structure OnceCell (α : Type) where
  state : CellState := .empty
  /-- What has been written to the slot. -/
  slot : Option α := none
deriving DecidableEq, Repr

namespace OnceCell

variable {α : Type}

/-! ## One caller -/

/-- The compare-exchange: claims an empty cell for writing, and says whether it was empty. -/
def claim (c : OnceCell α) : Bool × OnceCell α :=
  match c.state with
  | .empty => (true, { c with state := .writing })
  | _ => (false, c)

/-- Writes the slot. -/
def write (c : OnceCell α) (value : α) : OnceCell α :=
  { c with slot := some value }

/-- The store that makes the value visible. -/
def publish (c : OnceCell α) : OnceCell α :=
  { c with state := .ready }

/-- Whether the value is there. -/
def isSet (c : OnceCell α) : Bool :=
  c.state == .ready

/-- The value, if it is there. -/
def get? (c : OnceCell α) : Option α :=
  if c.isSet then c.slot else none

/-- Brings a value.  Gives the cell with the value, or the value back if another one came first. -/
def set (c : OnceCell α) (value : α) : Except α (OnceCell α) :=
  match c.claim with
  | (true, c) => .ok (c.write value).publish
  | (false, _) => .error value

/-- The value, which is brought first if there is none.  While somebody else is writing there is no
answer. -/
def getOrInit? (c : OnceCell α) (init : Unit → α) : Option (α × OnceCell α) :=
  match c.get? with
  | some value => some (value, c)
  | none =>
    match c.set (init ()) with
    | .ok c => c.get?.map fun value => (value, c)
    | .error _ => none

/-- The values that go when the cell goes. -/
def contents (c : OnceCell α) : List α :=
  c.get?.toList

/-! ## Many threads -/

/-- What a thread does with the cell. -/
inductive Request (α : Type) where
  | get
  | set (value : α)
  /-- Asks for the value, and brings one if it finds none. -/
  | getOrInit (value : α)
  | isSet
deriving DecidableEq, Repr

/-- What a thread learns from a request. -/
inductive Answer (α : Type) where
  | absent
  /-- What the slot held. -/
  | found (slot : Option α)
  /-- The thread's own value was taken, and this is what the slot held afterwards. -/
  | stored (slot : Option α)
  /-- The thread has its value back. -/
  | rejected (value : α)
  | isSet (answer : Bool)
deriving DecidableEq, Repr

/-- How far a thread has come with its next request. -/
inductive Progress (α : Type) where
  | ready
  /-- It saw the cell ready and is about to read the slot. -/
  | reading
  /-- It saw the cell not ready and is about to make the value that it would bring. -/
  | making
  /-- It is about to claim the cell. -/
  | claiming (value : α)
  /-- It has claimed the cell and is about to write the slot. -/
  | writing (value : α)
  /-- It has written the slot and is about to make the value visible. -/
  | publishing
  /-- It has made its value visible and is about to look at it. -/
  | returning
  /-- Another value came first, and it waits until that one is visible. -/
  | waiting
deriving DecidableEq, Repr

/-- A thread that uses the cell. -/
structure Thread (α : Type) where
  /-- What it is still to do. -/
  program : List (Request α)
  /-- How far it has come with the first of these. -/
  progress : Progress α := .ready
  /-- What it has learned, newest first. -/
  answers : List (Answer α) := []
  /-- The values it made in vain and let go. -/
  dropped : List α := []
  /-- The values it has made, newest first. -/
  made : List α := []
deriving DecidableEq, Repr

namespace Thread

/-- Whether nothing is left to do. -/
def isDone (t : Thread α) : Bool :=
  t.program.isEmpty

/-- The thread after its first request has been answered. -/
def finish (t : Thread α) (answer : Answer α) : Thread α :=
  { t with program := t.program.drop 1, progress := .ready, answers := answer :: t.answers }

/-- The first step of a request. -/
def start (c : OnceCell α) (t : Thread α) : Request α → Thread α
  | .get => if c.isSet then { t with progress := .reading } else t.finish .absent
  | .set value => { t with progress := .claiming value }
  | .getOrInit _ => { t with progress := if c.isSet then .reading else .making }
  | .isSet => t.finish (.isSet c.isSet)

/-- What becomes of a thread that finds the cell claimed by another. -/
def lose (t : Thread α) (value : α) : Request α → Thread α
  | .getOrInit _ => { t with progress := .waiting, dropped := value :: t.dropped }
  | _ => t.finish (.rejected value)

/-- One atomic step. -/
def advance (c : OnceCell α) (t : Thread α) : OnceCell α × Thread α :=
  match t.program with
  | [] => (c, t)
  | request :: _ =>
    match t.progress with
    | .ready => (c, t.start c request)
    | .reading => (c, t.finish (.found c.slot))
    | .making =>
      match request with
      | .getOrInit value => (c, { t with progress := .claiming value, made := value :: t.made })
      | _ => (c, t)
    | .claiming value =>
      match c.claim with
      | (true, c) => (c, { t with progress := .writing value })
      | (false, c) => (c, t.lose value request)
    | .writing value => (c.write value, { t with progress := .publishing })
    | .publishing => (c.publish, { t with progress := .returning })
    | .returning => (c, t.finish (.stored c.slot))
    | .waiting => (c, if c.isSet then { t with progress := .reading } else t)

end Thread

/-- The cell after a number of threads have each asked for its value and brought the given one in
case they find none.  The threads take turns, and no thread needs more than eight. -/
def contend (c : OnceCell α) (value : α) (threads : Nat) : OnceCell α :=
  let start : Threads (OnceCell α) (Thread α) :=
    { shared := c, locals := List.replicate threads { program := [.getOrInit value] } }
  (start.roundRobin Thread.advance Thread.isDone 8).shared

end OnceCell

end KernelMemory.Sync
