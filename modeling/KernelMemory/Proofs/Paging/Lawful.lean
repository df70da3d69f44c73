import KernelMemory.Paging.Processor
import KernelMemory.Paging.Recorder
import KernelMemory.Proofs.BitField
import KernelMemory.Proofs.Outcome

/-!
# Well-behaved machines

The manager relies on little in the machine that it controls: a root that was made active is active,
and nothing else that it asks of the machine changes the active root.

* `LawfulPaging` — these laws.
* `Cr3.ofRoot_eq_ok_iff` — what stands in CR3 once a root is active.
* **`Processor.instLawfulPaging`**, **`Recorder.instLawfulPaging`** — the processor and its stand-in
  obey them.
-/

namespace KernelMemory

/-- **A well-behaved machine.** -/
class LawfulPaging (P : Type) [PagingControl P] : Prop where
  activeRoot_loadRoot {p p' : P} {root : Frame} :
    PagingControl.loadRoot p root = .ok p' → PagingControl.activeRoot p' = root
  activeRoot_enable (p : P) :
    PagingControl.activeRoot (PagingControl.enable p) = PagingControl.activeRoot p
  activeRoot_invalidate (p : P) (page : VirtPage) :
    PagingControl.activeRoot (PagingControl.invalidate p page) = PagingControl.activeRoot p
  activeRoot_observe (p : P) (memory : Memory) :
    PagingControl.activeRoot (PagingControl.observe p memory) = PagingControl.activeRoot p

namespace Cr3

variable {f : Frame} {bits : UInt64}

/-- **The register value that selects a root is the address of the root**, for the frames whose
numbers fit. -/
theorem ofRoot_eq_ok_iff : ofRoot f = .ok bits ↔ f.number < 2 ^ 40 ∧ f.base.value = bits := by
  have hget : rootFrame.get 0 = 0 := by decide
  have hvalue : UInt64.ofNat (0 - rootFrame.get 0 * 2 ^ rootFrame.offset +
      f.number * 2 ^ rootFrame.offset) = f.base.value := by
    rw [hget, Nat.zero_mul, Nat.zero_sub, Nat.zero_add]
    rfl
  rw [ofRoot, BitField.set_eq_ok_iff, show (0 : UInt64).toNat = 0 from rfl, hvalue]
  rfl

/-- The address of a root selects the root. -/
lemma root_base (h : f.number < 2 ^ 40) : root f.base.value = f := by
  have hget : rootFrame.get f.base.value = f.number := by
    change f.base.value.toNat / 2 ^ 12 % 2 ^ 40 = f.number
    rw [Page.toNat_base, pageSize]
    omega
  rw [root, hget, Page.ofNumber_number]

/-- The register value that selects a root selects that root. -/
lemma root_ofRoot (h : ofRoot f = .ok bits) : root bits = f := by
  obtain ⟨hlt, rfl⟩ := ofRoot_eq_ok_iff.mp h
  exact root_base hlt

end Cr3

instance Processor.instLawfulPaging : LawfulPaging Processor where
  activeRoot_loadRoot {p p' root} h := by
    cases hbits : Cr3.ofRoot root with
    | error e =>
        simp only [PagingControl.loadRoot, hbits] at h
        cases h
    | ok bits =>
        simp only [PagingControl.loadRoot, hbits] at h
        cases h
        exact Cr3.root_ofRoot hbits
  activeRoot_enable _ := rfl
  activeRoot_invalidate _ _ := rfl
  activeRoot_observe _ _ := rfl

instance Recorder.instLawfulPaging : LawfulPaging Recorder where
  activeRoot_loadRoot h := by
    cases h
    rfl
  activeRoot_enable _ := rfl
  activeRoot_invalidate _ _ := rfl
  activeRoot_observe _ _ := rfl

end KernelMemory
