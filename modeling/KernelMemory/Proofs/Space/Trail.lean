import KernelMemory.Proofs.Space.Indices
import KernelMemory.Proofs.Space.Outline

/-!
# Trails of addresses

The table that a walk comes to at a height is decided by the indices that the address has above it.
These are its trail: an address has an L3 table for its first index, an L2 table for its first two
and an L1 table for its first three.

* `Address.trail` — the indices of an address above a height, the lowest first.
* `Address.trails` — the trails of all addresses of a set to the tables below the root.
* `Memory.tableAt` — the table at the end of a trail.
* **`Outline.Leads.tableAt_trail`** — it is the table that the walk for the address comes to.
-/

namespace KernelMemory

namespace Address

variable {va va' : VirtAddr} {h : Nat}

/-- The indices of an address above a height, the lowest first. -/
def trail (va : VirtAddr) (h : Nat) : List Index :=
  (List.range' (h + 1) (rootHeight - h)).map va.index

/-- **The trails of the addresses of a set**, to the tables below the root, and to the root. -/
def trails (pages : Set VirtAddr) : Set (List Index) :=
  {l | l = [] ∨ ∃ va ∈ pages, ∃ h < rootHeight, l = va.trail h}

lemma trail_of_lt (hh : h < rootHeight) :
    va.trail h = va.index (h + 1) :: va.trail (h + 1) := by
  have hlen : rootHeight - h = rootHeight - (h + 1) + 1 := by omega
  rw [trail, trail, hlen, List.range'_succ, List.map_cons]

/-- Trails to one height are the same if the indices above are. -/
lemma trail_eq_iff :
    va'.trail h = va.trail h ↔ ∀ k, h < k → k ≤ rootHeight → va'.index k = va.index k := by
  rw [trail, trail, List.map_inj_left]
  simp only [List.mem_range'_1]
  constructor
  · exact fun hall k hk hle => hall k ⟨hk, by omega⟩
  · exact fun hall k ⟨hk, hlt⟩ => hall k hk (by omega)

/-- **There is a canonical address for any indices.** -/
theorem exists_index_eq (g : Nat → Index) :
    ∃ va : VirtAddr, va.isCanonical = true ∧ ∀ k ≤ rootHeight, va.index k = g k := by
  let p : Parts := ⟨g 3, g 2, g 1, g 0, 0⟩
  have hparts : p.address.parts = p := p.parts_address
  refine ⟨p.address, p.isCanonical_address, fun k hk => ?_⟩
  obtain rfl | rfl | rfl | rfl : k = 0 ∨ k = 1 ∨ k = 2 ∨ k = 3 := by
    have hk : k ≤ 3 := hk
    omega
  · exact congrArg Parts.l1 hparts
  · exact congrArg Parts.l2 hparts
  · exact congrArg Parts.l3 hparts
  · exact congrArg Parts.l4 hparts

/-- There is a canonical address that has the indices of another above a height and a given one at
it. -/
lemma exists_index_update (va : VirtAddr) (hh : h ≤ rootHeight) (i : Index) :
    ∃ va' : VirtAddr, va'.isCanonical = true ∧ va'.index h = i ∧
      ∀ k, h < k → k ≤ rootHeight → va'.index k = va.index k := by
  obtain ⟨va', hcanonical, hindex⟩ := exists_index_eq (Function.update va.index h i)
  refine ⟨va', hcanonical, (hindex h hh).trans (Function.update_self ..), fun k hk hle => ?_⟩
  rw [hindex k hle, Function.update_of_ne (by omega)]

end Address

/-- The table at the end of a trail below a root. -/
def Memory.tableAt (m : Memory) (root : Frame) : List Index → Frame
  | [] => root
  | i :: above => (m.entry ⟨m.tableAt root above, i⟩).frame

/-- **The walk for an address comes to the table at the end of its trail.** -/
theorem Outline.Leads.tableAt_trail {m : Memory} {root t : Frame} {va : VirtAddr}
    {holders : List Slot} {h : Nat} (hl : m.outline.Leads root va holders t h) :
    m.tableAt root (va.trail h) = t := by
  induction hl with
  | root => rfl
  | @down holders t h hl _ ih =>
      rw [Address.trail_of_lt hl.height_le, Memory.tableAt, ih, Memory.outline_apply,
        Entry.outline_frame]

end KernelMemory
