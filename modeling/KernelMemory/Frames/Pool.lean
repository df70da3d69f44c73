import KernelMemory.Store

/-!
# A pool of frames

The plainest source of frames: a stack of free ones and the number of those handed out.  A fresh
pool hands out its lowest frame first; a frame that comes back is the next to go.
-/

namespace KernelMemory

/-- A stack of free frames. -/
structure Pool where
  /-- The free frames, the next to be handed out first. -/
  free : List Frame := []
  outstanding : Nat := 0
deriving DecidableEq, Repr

namespace Pool

/-- The pool of `count` frames from `first` on. -/
def ofRange (first count : Nat) : Except Panic Pool := do
  let _ ← Checked.add first count
  return { free := (List.range count).map fun k => .ofNumber (first + k) }

/-- How many frames are free. -/
def available (p : Pool) : Nat :=
  p.free.length

/-- Keeps only the `count` frames that would be handed out next. -/
def limit (p : Pool) (count : Nat) : Pool :=
  { p with free := p.free.take count }

/-- Takes the topmost frame. -/
def pop (p : Pool) : Option Frame × Pool :=
  match p.free with
  | [] => (none, p)
  | f :: rest => (some f, { free := rest, outstanding := p.outstanding + 1 })

/-- Gives a frame back, which must not be in the pool; there must be one to give back. -/
def push (p : Pool) (f : Frame) : Except Panic Pool := do
  if f ∈ p.free then throw (.doubleFree f)
  let outstanding ← Checked.sub p.outstanding 1
  return { free := f :: p.free, outstanding }

instance : FrameSource Pool where
  alloc := modifyGet fun s =>
    let (frame?, source) := s.source.pop
    (frame?, { s with source })
  free f := fun s =>
    match s.source.push f with
    | .ok source => .ok () { s with source }
    | .error p => .error p s

end Pool

end KernelMemory
