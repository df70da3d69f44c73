import KernelMemory.Store

/-!
# The kernel heap

The heap hands out bytes from runs of consecutive frames, in ascending order, and never takes any
back.  Only the last run is handed out from.  When it has too little room, frames are added one at a
time: a frame that continues the last run makes it longer, any other starts a new run, of which
there may be `maxSpans`.

* `Heap.start` — a heap of one frame.
* `Heap.grow` — adds frames until the last run has enough room.
* `Heap.alloc` — the next bytes of the last run.
-/

namespace KernelMemory

/-- A run of consecutive frames, of which the first `used` bytes have been handed out. -/
structure Span where
  first : Frame
  frames : Nat := 1
  used : Nat := 0
deriving DecidableEq, Repr

namespace Span

/-- The first address. -/
def base (s : Span) : PhysAddr :=
  s.first.base

/-- The number of bytes. -/
def length (s : Span) : Nat :=
  s.frames * pageSize

/-- The number of bytes that have not been handed out. -/
def remaining (s : Span) : Nat :=
  s.length - s.used

/-- The address just past the run. -/
def stop (s : Span) : Except Panic Nat :=
  Checked.add s.base.value.toNat s.length

end Span

/-- The runs of frames that the heap hands out from. -/
structure Heap where
  /-- The run that is handed out from. -/
  last : Span
  /-- The runs before it, newest first. -/
  earlier : List Span := []
deriving DecidableEq, Repr

namespace Heap

variable {A : Type}

/-- All runs, oldest first. -/
def spans (h : Heap) : List Span :=
  (h.last :: h.earlier).reverse

/-- The number of bytes that have been handed out. -/
def used (h : Heap) : Nat :=
  h.spans.foldr (fun s n => s.used + n) 0

/-- The number of bytes in all runs. -/
def total (h : Heap) : Nat :=
  h.spans.foldr (fun s n => s.length + n) 0

/-- A heap of one frame. -/
def start [FrameSource A] : Action (Store A) (Except HeapError Heap) := do
  match ← FrameSource.alloc with
  | none => return .error .outOfMemory
  | some first =>
    Store.note (.heapStarted first)
    return .ok { last := { first } }

/-! ## Growth -/

/-- The heap with one more frame, or nothing if that would make too many runs. -/
def addFrame? (h : Heap) (f : Frame) : Except Panic (Option Heap) := do
  if (← h.last.stop) = f.base.value.toNat then
    let _ ← Checked.add h.last.length pageSize
    return some { h with last := { h.last with frames := h.last.frames + 1 } }
  else if h.earlier.length + 1 < maxSpans then
    return some { last := { first := f }, earlier := h.last :: h.earlier }
  else
    return none

/-- A heap that gains a frame has a longer last run, or one run more. -/
theorem addFrame?_eq_ok {h h' : Heap} {f : Frame} (eq : h.addFrame? f = .ok (some h')) :
    (h'.earlier = h.earlier ∧ h'.last = { h.last with frames := h.last.frames + 1 }) ∨
      (h.earlier.length + 1 < maxSpans ∧ h'.last = { first := f } ∧
        h'.earlier = h.last :: h.earlier) := by
  simp only [addFrame?, Span.stop] at eq
  cases hs : Checked.add h.last.base.value.toNat h.last.length with
  | error p => simp [hs, bind, Except.bind] at eq
  | ok stop =>
    simp only [hs, bind, Except.bind] at eq
    split at eq
    · cases hl : Checked.add h.last.length pageSize with
      | error p => simp [hl] at eq
      | ok length =>
        rw [hl] at eq
        cases eq
        exact .inl ⟨rfl, rfl⟩
    · split at eq
      · next hlt =>
        cases eq
        exact .inr ⟨hlt, rfl, rfl⟩
      · cases eq

/-- Adds frames until the last run has `size` bytes left.  A frame that would make one run too many
is given back.  This ends because each frame makes the last run longer or adds a run. -/
def grow [FrameSource A] (h : Heap) (size : Nat) :
    Action (Store A) (Heap × Except HeapError Unit) := do
  if _fits : size ≤ h.last.remaining then
    return (h, .ok ())
  else
    match ← FrameSource.alloc with
    | none => return (h, .error .outOfMemory)
    | some f =>
      match added : h.addFrame? f with
      | .error p => throw p
      | .ok none =>
        FrameSource.free f
        return (h, .error .outOfMemory)
      | .ok (some larger) =>
        if larger.earlier.length ≠ h.earlier.length then
          Store.note (.heapSpanAdded f (larger.earlier.length + 1))
        larger.grow size
termination_by (maxSpans - h.earlier.length, size + h.last.used - h.last.length)
decreasing_by
  simp only [Span.remaining, Span.length, pageSize] at _fits ⊢
  rcases addFrame?_eq_ok added with ⟨he, hl⟩ | ⟨hlt, _, he⟩
  · rw [he, hl]
    apply Prod.Lex.right
    simp only
    omega
  · rw [he]
    apply Prod.Lex.left
    simp only [List.length_cons, maxSpans] at hlt ⊢
    omega

/-! ## Allocation -/

/-- A size rounded up to the heap's alignment, if it then fits 64 bits. -/
def roundUp? (size : Nat) : Option Nat :=
  let rounded := (size + (heapAlign - 1)) / heapAlign * heapAlign
  if rounded < 2 ^ 64 then some rounded else none

/-- Hands out the next `size` bytes of the last run, which must have them left.  Bytes at the null
address cannot be handed out. -/
def bump (h : Heap) (size : Nat) : Action (Store A) (Heap × Except HeapError PhysAddr) := do
  let address : PhysAddr :=
    .ofNat (← Action.ofExcept (Checked.add h.last.base.value.toNat h.last.used))
  let used ← Action.ofExcept (Checked.add h.last.used size)
  let h := { h with last := { h.last with used } }
  Store.note (.heapAllocated size address)
  let pointer ← Store.lookup fun m => m.window.pointer address
  if pointer.value = 0 then
    return (h, .error .outOfMemory)
  else
    return (h, .ok address)

/-- Hands out `size` bytes, rounded up to the heap's alignment. -/
def alloc [FrameSource A] (h : Heap) (size : UInt64) :
    Action (Store A) (Heap × Except HeapError PhysAddr) := do
  if size = 0 then
    return (h, .error .zeroSize)
  match roundUp? size.toNat with
  | none => return (h, .error .sizeOverflow)
  | some size =>
    match ← h.grow size with
    | (h, .error e) => return (h, .error e)
    | (h, .ok ()) => h.bump size

/-! ## Membership -/

/-- Whether an address, as code sees it, lies in one of the runs. -/
def contains (h : Heap) (window : Window) (pointer : VirtAddr) : Except Panic Bool :=
  h.spans.anyM fun s => do
    let start := (← window.pointer s.base).value.toNat
    return start ≤ pointer.value.toNat && pointer.value.toNat - start < s.length

/-- Takes note of bytes that are given back; they must be the heap's, and are not used again. -/
def free (h : Heap) (pointer : VirtAddr) : Action (Store A) Unit := do
  if ← Store.lookup fun m => h.contains m.window pointer then
    Store.note (.heapFreeIgnored pointer)
  else
    throw (.foreignPointer pointer)

end Heap

end KernelMemory
