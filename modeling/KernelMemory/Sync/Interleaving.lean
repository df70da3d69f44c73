/-!
# Interleaved threads

Several threads act on one shared object.  Each has a local state, and `advance` says what the next
atomic step of a thread does to the shared object and to its own state.  A schedule is a list of
thread numbers; the threads take their steps in that order, one after the other, and every order of
steps is some schedule.
-/

namespace KernelMemory.Sync

/-- A shared object and the local states of the threads that use it. -/
structure Threads (σ τ : Type) where
  shared : σ
  /-- The threads, by number. -/
  locals : List τ
deriving DecidableEq, Repr

namespace Threads

variable {σ τ : Type}

/-- Thread `i` takes its next step; a number without a thread does nothing. -/
def step (advance : σ → τ → σ × τ) (t : Threads σ τ) (i : Nat) : Threads σ τ :=
  match t.locals[i]? with
  | none => t
  | some thread =>
    let (shared, thread) := advance t.shared thread
    { shared, locals := t.locals.set i thread }

/-- The threads take steps in the order of a schedule. -/
def run (advance : σ → τ → σ × τ) (t : Threads σ τ) (schedule : List Nat) : Threads σ τ :=
  schedule.foldl (step advance) t

/-- Every thread takes one step. -/
def round (advance : σ → τ → σ × τ) (t : Threads σ τ) : Threads σ τ :=
  t.run advance (List.range t.locals.length)

/-- The threads take turns until all are done, for at most the given number of rounds. -/
def roundRobin (advance : σ → τ → σ × τ) (isDone : τ → Bool) (t : Threads σ τ) :
    (rounds : Nat) → Threads σ τ
  | 0 => t
  | rounds + 1 =>
    if t.locals.all isDone then t
    else (t.round advance).roundRobin advance isDone rounds

end Threads

end KernelMemory.Sync
