import KernelMemory.Paging.Control
import KernelMemory.Register

/-!
# The processor

The registers that control paging.  CR3 selects the root table, bit 31 of CR0 turns
paging on, CR2 holds the address of the latest page fault, and an invalidation names a page by
its first address.
-/

namespace KernelMemory

/-- The state of the processor as far as paging goes. -/
structure Processor where
  /-- Modes, among them paging. -/
  cr0 : UInt64 := 0
  /-- The address of the latest page fault. -/
  cr2 : UInt64 := 0
  /-- The active root table. -/
  cr3 : UInt64 := 0
  /-- The addresses whose pages were invalidated, oldest first. -/
  invalidated : List VirtAddr := []
deriving DecidableEq, Repr

/-- Sets the paging bit of CR0 and keeps all others. -/
def Cr0.withPaging (bits : UInt64) : UInt64 :=
  bits ||| UInt64.ofNat (2 ^ paging.offset)

instance : PagingControl Processor where
  activeRoot p := Cr3.root p.cr3
  loadRoot p root := do return { p with cr3 := ← Cr3.ofRoot root }
  isEnabled p := Cr0.paging.test p.cr0
  enable p := { p with cr0 := Cr0.withPaging p.cr0 }
  invalidate p page := { p with invalidated := p.invalidated ++ [page.base] }
  faultAddress p := ⟨p.cr2⟩

end KernelMemory
