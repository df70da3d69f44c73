import KernelMemory.Sync.Interleaving

/-!
# The spin lock

A value and a flag that says whether somebody holds the lock.  The flag is taken by a
compare-exchange and given up by a store; whoever holds the lock reads and writes the value through
a guard.  The first part has the operations as a single caller sees them.  The second part has their
atomic steps, for threads that use one lock at the same time: it is built from the same
compare-exchange and store.
-/

namespace KernelMemory.Sync

/-- A value behind a lock. -/
structure SpinLock (α : Type) where
  locked : Bool := false
  value : α
deriving DecidableEq, Repr

namespace SpinLock

variable {α ε β : Type}

/-! ## One caller -/

/-- The compare-exchange: takes the lock if it is free, and says whether it was. -/
def acquire (l : SpinLock α) : Bool × SpinLock α :=
  if l.locked then (false, l) else (true, { l with locked := true })

/-- The releasing store. -/
def release (l : SpinLock α) : SpinLock α :=
  { l with locked := false }

/-- The lock as taken by this caller, unless somebody holds it. -/
def tryLock? (l : SpinLock α) : Option (SpinLock α) :=
  match l.acquire with
  | (true, l) => some l
  | (false, _) => none

/-- Runs `body` on the value with the lock held.  The lock is released however `body` ends.  While
somebody else holds the lock there is no answer. -/
def withLock? (l : SpinLock α) (body : EStateM ε α β) : Option (Except ε β × SpinLock α) := do
  let l ← l.tryLock?
  match body l.value with
  | .ok b value => some (.ok b, { l with value }.release)
  | .error e value => some (.error e, { l with value }.release)

/-- Replaces the value while nobody holds the lock. -/
def replace? (l : SpinLock α) (value : α) : Option (SpinLock α) :=
  if l.locked then none else some { l with value }

/-! ## Many threads -/

/-- What a thread does with the lock. -/
inductive Request (α : Type) where
  /-- Takes the lock, however long it takes. -/
  | lock
  /-- Takes the lock if it is free. -/
  | tryLock
  /-- Reads the value through the guard. -/
  | read
  /-- Writes the value through the guard. -/
  | write (value : α)
  /-- Reads the value through the guard and writes back what `f` makes of it. -/
  | update (f : α → α)
  /-- Panics: nothing more is done before the drop of the guard. -/
  | panic
  /-- Drops the guard. -/
  | unlock

namespace Request

/-- The requests of a closure that runs under the lock.  Its guard is dropped behind it, and also
if it panics. -/
def withLock (body : List (Request α)) : List (Request α) :=
  .lock :: (body ++ [.unlock])

/-- The requests of one update under the lock. -/
def locked (f : α → α) : List (Request α) :=
  withLock [.update f]

end Request

/-- How far a thread has come with its next request. -/
inductive Progress (α : Type) where
  | ready
  /-- It saw the lock held and waits for the flag to clear. -/
  | spinning
  /-- It has read the value and is about to write the given one. -/
  | writing (value : α)
  /-- It has panicked and passes over what comes before the drop of its guard. -/
  | unwinding

/-- A thread that uses the lock. -/
structure Thread (α : Type) where
  /-- What it is still to do. -/
  program : List (Request α)
  /-- How far it has come with the first of these. -/
  progress : Progress α := .ready
  holdsGuard : Bool := false
  /-- The answers to its attempts to take a lock that might be held, newest first. -/
  attempts : List Bool := []
  /-- The values that it has read, newest first. -/
  seen : List α := []
  /-- The changes that it has made to the value, newest first. -/
  changes : List (α → α) := []

namespace Thread

/-- Whether nothing is left to do. -/
def isDone (t : Thread α) : Bool :=
  t.program.isEmpty

/-- The thread after its first request. -/
def next (t : Thread α) : Thread α :=
  { t with program := t.program.drop 1 }

/-- The thread with a change noted. -/
def changed (t : Thread α) (f : α → α) : Thread α :=
  { t with progress := .ready, changes := f :: t.changes }

/-- One atomic step towards taking the lock: the compare-exchange, or the load while the thread
waits for the flag to clear. -/
def take (l : SpinLock α) (t : Thread α) : SpinLock α × Thread α :=
  match t.progress with
  | .spinning => (l, if l.locked then t else { t with progress := .ready })
  | _ =>
    match l.acquire with
    | (true, l) => (l, { t.next with progress := .ready, holdsGuard := true })
    | (false, l) => (l, { t with progress := .spinning })

/-- One attempt to take the lock. -/
def attempt (l : SpinLock α) (t : Thread α) : SpinLock α × Thread α :=
  match l.acquire with
  | (true, l) => (l, { t.next with holdsGuard := true, attempts := true :: t.attempts })
  | (false, l) => (l, { t.next with attempts := false :: t.attempts })

/-- One atomic step of an access to the value through the guard; without one, nothing is done. -/
def access (l : SpinLock α) (t : Thread α) : Request α → SpinLock α × Thread α
  | .read => (l, { t.next with seen := l.value :: t.seen })
  | .write value => ({ l with value }, t.next.changed fun _ => value)
  | .update f =>
    match t.progress with
    | .writing value => ({ l with value }, t.next.changed f)
    | _ => (l, { t with progress := .writing (f l.value) })
  | _ => (l, t.next)

/-- The store that gives the lock up, if the thread has a guard to drop. -/
def drop (l : SpinLock α) (t : Thread α) : SpinLock α × Thread α :=
  if t.holdsGuard then (l.release, { t.next with progress := .ready, holdsGuard := false })
  else (l, { t.next with progress := .ready })

/-- Whether the thread passes a request over: it has panicked, and its guard is not yet dropped. -/
def passes (t : Thread α) : Request α → Bool
  | .unlock => false
  | _ =>
    match t.progress with
    | .unwinding => true
    | _ => false

/-- One atomic step of a request. -/
def perform (l : SpinLock α) (t : Thread α) : Request α → SpinLock α × Thread α
  | .lock => t.take l
  | .tryLock => t.attempt l
  | .panic => (l, { t.next with progress := .unwinding })
  | .unlock => t.drop l
  | request => if t.holdsGuard then t.access l request else (l, t.next)

/-- One atomic step. -/
def advance (l : SpinLock α) (t : Thread α) : SpinLock α × Thread α :=
  match t.program with
  | [] => (l, t)
  | request :: _ => if t.passes request then (l, t.next) else t.perform l request

end Thread

/-- The lock after a number of threads have each updated the value so many times.  The threads take
turns; some thread has the lock for at most eight turns per update, so the turns suffice. -/
def contend (l : SpinLock α) (f : α → α) (threads updates : Nat) : SpinLock α :=
  let thread : Thread α := { program := (List.replicate updates (Request.locked f)).flatten }
  let start : Threads (SpinLock α) (Thread α) :=
    { shared := l, locals := List.replicate threads thread }
  (start.roundRobin Thread.advance Thread.isDone (8 * (threads + 1) * (updates + 1))).shared

end SpinLock

end KernelMemory.Sync
