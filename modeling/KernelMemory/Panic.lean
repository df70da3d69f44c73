import KernelMemory.Address

/-!
# Panics and checked arithmetic

A `Panic` is a check that failed: the kernel stops and nothing after it runs.  It is kept apart from
the errors a caller can handle.  `Checked` holds the arithmetic of 64-bit quantities, which panics
where the result does not fit.
-/

namespace KernelMemory

/-- Why the kernel stopped. -/
inductive Panic where
  | addOverflow
  | subOverflow
  | mulOverflow
  /-- A value does not fit the field it was meant for; the field's largest value is given. -/
  | valueOutOfBounds (max : Nat)
  | indexOutOfBounds (length index : Nat)
  /-- An address lies beyond the frames a window shows. -/
  | outsideMemory (address : PhysAddr) (frames : Nat)
  | emptyMemory
  | doubleFree (frame : Frame)
  /-- A table's count of children has reached its limit. -/
  | liveCountFull
  /-- A child left a table whose count of children was already zero. -/
  | liveCountUnderflow (table : Frame)
  /-- An address was given back to a heap that does not contain it. -/
  | foreignPointer (pointer : VirtAddr)
deriving DecidableEq, Repr

/-- The message a panic ends with. -/
def Panic.message : Panic → String
  | addOverflow => "attempt to add with overflow"
  | subOverflow => "attempt to subtract with overflow"
  | mulOverflow => "attempt to multiply with overflow"
  | valueOutOfBounds max => s!"value out of bounds [0, {max}]"
  | indexOutOfBounds length index =>
    s!"index out of bounds: the len is {length} but the index is {index}"
  | outsideMemory address frames =>
    s!"physical address {address.debugText} outside simulated memory of {frames} frames"
  | emptyMemory => "simulated memory needs at least one frame"
  | doubleFree frame => s!"double free of {frame.debugText} in simulated frame pool"
  | liveCountFull => "assertion failed: live < PageEntry::MAX_LIVE_CHILDREN"
  | liveCountUnderflow table => s!"live count underflow in {table.debugText}"
  | foreignPointer pointer => "free of foreign pointer " ++ Hex.lower pointer.value.toNat

/-! ## Checked arithmetic -/

namespace Checked

variable {a b c : Nat}

/-- The sum, if it fits 64 bits. -/
def add (a b : Nat) : Except Panic Nat :=
  if a + b < 2 ^ 64 then .ok (a + b) else .error .addOverflow

/-- The difference, if it is not negative. -/
def sub (a b : Nat) : Except Panic Nat :=
  if b ≤ a then .ok (a - b) else .error .subOverflow

/-- The product, if it fits 64 bits. -/
def mul (a b : Nat) : Except Panic Nat :=
  if a * b < 2 ^ 64 then .ok (a * b) else .error .mulOverflow

/-- The sum of a list, if every partial sum from the left fits 64 bits. -/
def sum (l : List Nat) : Except Panic Nat :=
  l.foldlM add 0

theorem add_eq_ok_iff : add a b = .ok c ↔ a + b < 2 ^ 64 ∧ a + b = c := by
  simp only [add]
  split <;> simp <;> omega

theorem sub_eq_ok_iff : sub a b = .ok c ↔ b ≤ a ∧ a - b = c := by
  simp only [sub]
  split <;> simp <;> omega

theorem mul_eq_ok_iff : mul a b = .ok c ↔ a * b < 2 ^ 64 ∧ a * b = c := by
  simp only [mul]
  split <;> simp <;> omega

end Checked

end KernelMemory
