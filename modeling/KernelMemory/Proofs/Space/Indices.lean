import Mathlib.Logic.ExistsUnique
import KernelMemory.Table

/-!
# What tables see of an address

A walk looks at four indices of an address, one in each table on its way, and whoever follows it to
a page adds the offset.  These are the 48 low bits.  The upper sixteen say nothing of their own: in
a canonical address they repeat bit 47, so that the indices and the offset decide the whole of it.
Of the addresses that are not canonical each has its indices in common with one that is, and no
table could tell the two apart.

* `Address.SamePage` — two addresses select the same slots; **`samePage_iff`** — for canonical
  addresses that is to be in one page.
* `Address.Parts` — the indices and the offset; `Parts.address` puts them in their places.
* **`Parts.parts_address`** — any parts can be read off some canonical address.
* **`address_parts_iff`** — an address is recovered from its parts just if it is canonical.
* **`canonical_decomposes`** — canonical addresses and parts are in bijection, page by page.
-/

namespace KernelMemory.Address

variable {va va' : VirtAddr} {h : Nat}

/-! ## Pages of addresses -/

/-- Two addresses select the same slots. -/
def SamePage (va va' : VirtAddr) : Prop :=
  ∀ k ≤ rootHeight, va'.index k = va.index k

instance (va va' : VirtAddr) : Decidable (SamePage va va') :=
  inferInstanceAs (Decidable (∀ k ≤ rootHeight, va'.index k = va.index k))

/-- **Canonical addresses select the same slots if they are in one page.** -/
theorem samePage_iff (hva : va.isCanonical = true) (hva' : va'.isCanonical = true) :
    SamePage va va' ↔ va'.page = va.page := by
  have hlt := va.value.toNat_lt
  have hlt' := va'.value.toNat_lt
  simp only [isCanonical, Bool.or_eq_true, beq_iff_eq] at hva hva'
  constructor
  · intro h
    have h0 := congrArg Fin.val (h 0 (by decide))
    have h1 := congrArg Fin.val (h 1 (by decide))
    have h2 := congrArg Fin.val (h 2 (by decide))
    have h3 := congrArg Fin.val (h 3 (by decide))
    simp only [index, indexShift, tableEntries] at h0 h1 h2 h3
    ext
    simp only [page, pageSize]
    omega
  · intro h k hk
    have hpage := congrArg Page.number h
    simp only [page, pageSize] at hpage
    ext
    simp only [index, indexShift, tableEntries]
    have hdiv : ∀ n : Nat, n / 2 ^ (12 + 9 * k) = n / 4096 / 2 ^ (9 * k) := by
      intro n
      rw [Nat.div_div_eq_div_mul, ← show (2 : Nat) ^ 12 = 4096 from rfl, ← Nat.pow_add]
    rw [hdiv, hdiv, hpage]

/-- The addresses of a page are canonical if one of them is. -/
lemma isCanonical_congr (hpage : va'.page = va.page) : va'.isCanonical = va.isCanonical := by
  have hnumber := congrArg Page.number hpage
  have hhigh : va'.value.toNat / 2 ^ 47 = va.value.toNat / 2 ^ 47 := by
    simp only [page, pageSize] at hnumber
    omega
  rw [isCanonical, isCanonical, hhigh]

/-! ## Indices -/

/-- An index is nine bits of the address. -/
lemma val_index (va : VirtAddr) (hh : h ≤ rootHeight) :
    (va.index h).val = (va.value >>> UInt64.ofNat (indexShift h) &&& 0x1FF).toNat := by
  have hshift : indexShift h < 64 := by
    simp only [indexShift, rootHeight] at hh ⊢
    omega
  have hmask : (0x1FF : UInt64).toNat = 2 ^ 9 - 1 := rfl
  have hamount : (UInt64.ofNat (indexShift h)).toNat % 64 = indexShift h := by
    rw [UInt64.toNat_ofNat']
    omega
  rw [UInt64.toNat_and, UInt64.toNat_shiftRight, hmask, hamount, Nat.and_two_pow_sub_one_eq_mod,
    Nat.shiftRight_eq_div_pow]
  rfl

/-- **The upper indices of the root** belong to the upper half of the canonical addresses. -/
theorem kernelHalfStart_le_iff (hva : va.isCanonical = true) :
    kernelHalfStart ≤ (va.index rootHeight).val ↔ 0xffff800000000000 ≤ va.value := by
  have hstart : (0xffff800000000000 : UInt64).toNat = 0xffff800000000000 := rfl
  rw [UInt64.le_iff_toNat_le, hstart]
  simp only [isCanonical, Bool.or_eq_true, beq_iff_eq] at hva
  simp only [index, indexShift, tableEntries, rootHeight, kernelHalfStart]
  omega

/-! ## Parts -/

/-- What tables and accesses see of an address: an index for each table on the way, the root's
first, and the offset in the page. -/
@[ext] structure Parts where
  l4 : Index
  l3 : Index
  l2 : Index
  l1 : Index
  offset : Fin pageSize
deriving DecidableEq, Repr

/-- The parts of an address. -/
def parts (va : VirtAddr) : Parts where
  l4 := va.index 3
  l3 := va.index 2
  l2 := va.index 1
  l1 := va.index 0
  offset := ⟨va.offset, Nat.mod_lt _ (by decide)⟩

namespace Parts

variable (p : Parts)

/-- The parts in their places: the indices at bits 39, 30, 21 and 12, and the offset at bit zero. -/
def low (p : Parts) : Nat :=
  p.l4 * 2 ^ 39 + p.l3 * 2 ^ 30 + p.l2 * 2 ^ 21 + p.l1 * 2 ^ 12 + p.offset

/-- The address that has the parts in their places and bit 47 in all places above. -/
def address (p : Parts) : VirtAddr :=
  ⟨⟨(BitVec.ofNat 48 p.low).signExtend 64⟩⟩

lemma bounds : p.l4.val < 512 ∧ p.l3.val < 512 ∧ p.l2.val < 512 ∧ p.l1.val < 512 ∧
    p.offset.val < 4096 :=
  ⟨p.l4.isLt, p.l3.isLt, p.l2.isLt, p.l1.isLt, p.offset.isLt⟩

lemma low_lt : p.low < 2 ^ 48 := by
  have := p.bounds
  simp only [low]
  omega

/-- The sign extension in numbers: bit 47 stands for the upper sixteen bits too. -/
lemma toNat_address : p.address.value.toNat = p.low + p.low / 2 ^ 47 * (0xFFFF * 2 ^ 48) := by
  have hlow := p.low_lt
  have hsmall : p.low < 2 ^ 64 := by omega
  rw [address, ← UInt64.toNat_toBitVec, BitVec.toNat_signExtend, BitVec.msb_eq_decide,
    BitVec.toNat_setWidth, BitVec.toNat_ofNat, Nat.mod_eq_of_lt hlow, Nat.mod_eq_of_lt hsmall]
  by_cases hsign : 2 ^ 47 ≤ p.low
  · rw [if_pos (decide_eq_true hsign)]
    omega
  · rw [if_neg (by simpa using hsign)]
    omega

lemma isCanonical_address : p.address.isCanonical = true := by
  have hlow := p.low_lt
  simp only [isCanonical, toNat_address, Bool.or_eq_true, beq_iff_eq]
  omega

/-- **Any parts are those of some canonical address.** -/
@[simp] theorem parts_address : p.address.parts = p := by
  have := p.bounds
  ext <;> simp only [parts, Address.index, indexShift, tableEntries, Address.offset, pageSize,
    toNat_address, low] <;> omega

end Parts

lemma low_parts (va : VirtAddr) : va.parts.low = va.value.toNat % 2 ^ 48 := by
  simp only [Parts.low, parts, index, indexShift, tableEntries, offset, pageSize]
  omega

/-- **An address is recovered from its parts** just if it is canonical. -/
theorem address_parts_iff : va.parts.address = va ↔ va.isCanonical = true := by
  constructor
  · intro h
    rw [← h]
    exact va.parts.isCanonical_address
  · intro hva
    refine Address.ext (UInt64.toNat.inj ?_)
    rw [Parts.toNat_address, low_parts]
    simp only [isCanonical, Bool.or_eq_true, beq_iff_eq] at hva
    omega

/-- **Canonical addresses are decided by their parts.**  They have the same four indices if they are
in one page, each index is nine bits, the upper half has the upper indices of the root, and an
address is its parts in their places with bit 47 above them, where any parts belong to exactly one
canonical address. -/
theorem canonical_decomposes (a b : VirtAddr) (ha : a.isCanonical = true)
    (hb : b.isCanonical = true) :
    ((∀ h ≤ rootHeight, a.index h = b.index h) ↔ a.page = b.page) ∧
    (∀ h ≤ rootHeight,
      (a.index h).val = (a.value >>> UInt64.ofNat (indexShift h) &&& 0x1FF).toNat ∧
        (a.index h).val < 512) ∧
    (256 ≤ (a.index rootHeight).val ↔ 0xffff800000000000 ≤ a.value) ∧
    a.parts.address = a ∧
    ∀ p : Parts, ∃! c : VirtAddr, c.isCanonical = true ∧ c.parts = p := by
  refine ⟨samePage_iff hb ha, fun h hh => ⟨a.val_index hh, (a.index h).isLt⟩,
    kernelHalfStart_le_iff ha, address_parts_iff.mpr ha, fun p => ?_⟩
  refine ⟨p.address, ⟨p.isCanonical_address, p.parts_address⟩, ?_⟩
  rintro c ⟨hc, rfl⟩
  exact (address_parts_iff.mpr hc).symm

/-- Two addresses at the start of the upper half. -/
theorem canonical_decomposes_sample :
    (∀ h ≤ rootHeight, index ⟨0xffff800000001abc⟩ h = index ⟨0xffff800000001def⟩ h) ∧
      256 ≤ (index ⟨0xffff800000001abc⟩ rootHeight).val ∧
      (⟨256, 0, 0, 1, 0xabc⟩ : Parts).address = ⟨0xffff800000001abc⟩ := by
  obtain ⟨hpage, -, hupper, hrecovered, -⟩ :=
    canonical_decomposes ⟨0xffff800000001abc⟩ ⟨0xffff800000001def⟩ (by decide) (by decide)
  exact ⟨hpage.mpr (by decide), hupper.mpr (by decide), hrecovered⟩

end KernelMemory.Address
