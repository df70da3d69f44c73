import KernelMemory.Layout
import KernelMemory.Text.Hex

/-!
# The interrupt table

The table has 256 gates of sixteen bytes.  The kernel fills one of them, for page faults: a present
interrupt gate of ring zero, with the handler's address split over three fields.
-/

namespace KernelMemory

/-- What kind of gate it is and who may use it. -/
structure GateAttributes where
  /-- The interrupt stack, or zero for the current one. -/
  stack : Fin 8 := 0
  /-- The type of the gate: fourteen for interrupts, fifteen for traps. -/
  type : Fin 16 := 0
  /-- The lowest privilege that may raise the interrupt. -/
  privilege : Fin 4 := 0
  present : Bool := false
deriving DecidableEq, Repr

/-- The attribute word of a gate. -/
def GateAttributes.toNat (a : GateAttributes) : Nat :=
  a.stack + 2 ^ 8 * a.type + 2 ^ 13 * a.privilege + 2 ^ 15 * a.present.toNat

/-- One gate of the interrupt table. -/
structure Gate where
  offsetLow : UInt16 := 0
  selector : UInt16 := 0
  attributes : GateAttributes := {}
  offsetMiddle : UInt16 := 0
  offsetHigh : UInt32 := 0
deriving DecidableEq, Repr

namespace Gate

/-- A present interrupt gate of ring zero. -/
def interrupt (handler : UInt64) (selector : UInt16) : Gate where
  offsetLow := UInt16.ofNat handler.toNat
  selector := selector
  attributes := { type := 14, present := true }
  offsetMiddle := UInt16.ofNat (handler.toNat / 2 ^ 16)
  offsetHigh := UInt32.ofNat (handler.toNat / 2 ^ 32)

/-- The address that the gate leads to. -/
def handler (g : Gate) : UInt64 :=
  UInt64.ofNat
    (g.offsetLow.toNat + 2 ^ 16 * g.offsetMiddle.toNat + 2 ^ 32 * g.offsetHigh.toNat)

theorem handler_interrupt (handler : UInt64) (selector : UInt16) :
    (interrupt handler selector).handler = handler := by
  apply UInt64.toNat.inj
  have := handler.toNat_lt
  simp only [Gate.handler, interrupt, UInt64.toNat_ofNat', UInt16.toNat_ofNat',
    UInt32.toNat_ofNat']
  omega

end Gate

/-- The number of gates. -/
abbrev gateCount : Nat := 256

/-- The size of a gate in bytes. -/
abbrev gateBytes : Nat := 16

/-- The gate that page faults go through. -/
abbrev pageFaultVector : Fin gateCount := 14

/-- The gates by vector. -/
structure InterruptTable where
  gates : Vector Gate gateCount := .replicate gateCount {}

namespace InterruptTable

/-- The last byte of the table, counted from its first. -/
def limit : Nat :=
  gateCount * gateBytes - 1

/-- The table with a handler for page faults. -/
def install (t : InterruptTable) (handler : UInt64) (selector : UInt16) : InterruptTable :=
  { t with gates := t.gates.set pageFaultVector (Gate.interrupt handler selector) }

/-- The gates that are in use, with their vectors. -/
def used (t : InterruptTable) : List (Nat × Gate) :=
  (t.gates.toList.zipIdx.map fun (g, i) => (i, g)).filter fun (_, g) => g != {}

end InterruptTable

end KernelMemory
