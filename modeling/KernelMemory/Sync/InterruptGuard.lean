/-!
# Interrupt guards

While a guard lives, this processor takes no interrupts.  A guard that is dropped turns interrupts
back on only if they were on when it was made, so guards may be nested.
-/

namespace KernelMemory.Sync

/-- A promise to turn interrupts back on, if they were on. -/
structure InterruptGuard where
  /-- Whether interrupts were on when the guard was made. -/
  restoresInterrupts : Bool
deriving DecidableEq, Repr

namespace InterruptGuard

/-- Makes a guard, given whether interrupts are on.  Interrupts are off afterwards. -/
def enter (interruptsOn : Bool) : InterruptGuard :=
  ⟨interruptsOn⟩

/-- Whether interrupts are on after the guard is dropped. -/
def leave (g : InterruptGuard) (interruptsOn : Bool) : Bool :=
  g.restoresInterrupts || interruptsOn

end InterruptGuard

/-- A program that runs under an operating system cannot see interrupts: for it they are never on.
-/
def hostedInterrupts : Bool := false

end KernelMemory.Sync
