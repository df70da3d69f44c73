import KernelMemory.Fault.PageFault
import KernelMemory.Memory

/-!
# Control over paging

What the memory manager needs of the machine it runs on: the active root, the switch that turns
paging on, and a way to drop what the processor remembers of a page.  The machine translates through
memory, so that it sees what stands there when it is told to drop a page.
-/

namespace KernelMemory

/-- A machine that translates addresses through an active root table. -/
class PagingControl (C : Type) where
  /-- The root that addresses are translated through. -/
  activeRoot : C → Frame
  loadRoot : C → Frame → Except Panic C
  isEnabled : C → Bool
  enable : C → C
  /-- Drops what is remembered of a page. -/
  invalidate : C → VirtPage → C
  /-- Sees memory as it stands.  A machine that keeps translations takes them from there; one that
  keeps none has no use for it. -/
  observe : C → Memory → C := fun machine _ => machine
  /-- The address of the latest page fault. -/
  faultAddress : C → VirtAddr

/-- The page fault with the given error code at the address that the machine reports. -/
def PageFault.capture {C : Type} [PagingControl C] (machine : C) (code : UInt64) : PageFault where
  address := PagingControl.faultAddress machine
  code := ⟨code⟩

end KernelMemory
