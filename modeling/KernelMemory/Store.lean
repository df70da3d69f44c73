import KernelMemory.Log.Event
import KernelMemory.Memory

/-!
# The store that operations act on

A `Store` is physical memory, a source of free frames and the events noted so far.  An `Action` runs
on a state and may panic; a panic keeps the effects that came before it.  A `FrameSource` hands out
frames and takes them back.  Its operations act on the whole store, because a source may keep its
own books in the memory whose frames it hands out.
-/

namespace KernelMemory

/-! ## Actions -/

/-- A computation on a state that ends with a value or a panic, and with a state in both cases. -/
abbrev Action (σ : Type) : Type → Type :=
  EStateM Panic σ

namespace Action

variable {σ τ α : Type}

/-- A checked computation without effects. -/
def ofExcept (x : Except Panic α) : Action σ α :=
  match x with
  | .ok a => pure a
  | .error p => throw p

/-- Runs an action on a part of a larger state.  `focus` takes the state apart, into the part and
what puts a new part in its place. -/
def within (focus : σ → τ × (τ → σ)) (act : Action τ α) : Action σ α := fun s =>
  match focus s with
  | (t, restore) =>
    match act t with
    | .ok a t => .ok a (restore t)
    | .error p t => .error p (restore t)

end Action

/-! ## The store -/

/-- Physical memory, a source of frames and a log. -/
structure Store (A : Type) where
  memory : Memory
  source : A
  /-- What has been reported, oldest first. -/
  log : Array Log.Event := ∅

namespace Store

variable {A : Type}

/-- Notes an event. -/
def note (e : Log.Event) : Action (Store A) Unit :=
  modify fun s => { s with log := s.log.push e }

/-- Looks something up in memory. -/
def lookup {α : Type} (f : Memory → Except Panic α) : Action (Store A) α := do
  Action.ofExcept (f (← get).memory)

/-- The check that a frame can be used. -/
def touch (f : Frame) : Action (Store A) Unit :=
  lookup fun m => m.touch f

/-- Changes memory. -/
def change (f : Memory → Memory) : Action (Store A) Unit :=
  modify fun s => { s with memory := f s.memory }

/-- The entry in a slot. -/
def entry (s : Slot) : Action (Store A) Entry :=
  lookup fun m => m.readEntry s

/-- Replaces the entry in a slot. -/
def setEntry (s : Slot) (e : Entry) : Action (Store A) Unit := do
  touch s.table
  change fun m => m.setEntry s e

/-- Fills a frame with zeros. -/
def clearFrame (f : Frame) : Action (Store A) Unit := do
  touch f
  change fun m => m.clear f

/-- The word at an address, if the window shows its first byte. -/
def read (pa : PhysAddr) : Action (Store A) UInt64 :=
  lookup fun m => do
    discard (m.window.pointer pa)
    return m.read pa

/-- Replaces the word at an address, if the window shows its first byte. -/
def write (pa : PhysAddr) (value : UInt64) : Action (Store A) Unit := do
  lookup fun m => discard (m.window.pointer pa)
  change fun m => m.write pa value

end Store

/-! ## Sources of frames -/

/-- A source of free frames that keeps its books in the state `A` and in memory. -/
class FrameSource (A : Type) where
  /-- Takes a free frame, if there is one; its contents are arbitrary. -/
  alloc : Action (Store A) (Option Frame)
  /-- Gives a frame back. -/
  free : Frame → Action (Store A) Unit

end KernelMemory
