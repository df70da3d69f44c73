import KernelMemory.Proofs.Space.State
import KernelMemory.Space.Find

/-!
# What lookups find

The read-only walk needs nothing of a state but that the tables on its way can be used.  It ends
where `Outline.resolve` says, so that what callers learn of an address depends on the outline alone.

* **`AddressSpace.find_eq`** — where the walk for an address ends.
* **`AddressSpace.isMapped_eq`**, **`AddressSpace.translate_eq`** — what callers learn of an
  address.
* `Entry.flags_outline`, `Entry.flags_of_leaf` — the flags that they learn.
-/

namespace KernelMemory

/-! ## Flags of entries -/

namespace Flags

/-- The set that a page gets: the caller's flags but for `huge`, and `present` in any case. -/
def forPage (flags : Flags) : Flags :=
  ⟨flags.truncate.bits &&& ~~~(only .huge).bits ||| (only .present).bits⟩

/-- The bits with a name are the ones that are flags. -/
lemma testBit_archBits {i : Nat} : archBits.toNat.testBit i = true ↔ ∃ f : Flag, f.bit = i := by
  constructor
  · intro h
    have hi : i < 64 := by
      by_contra hge
      have hlt : archBits.toNat < 2 ^ i :=
        Nat.lt_of_lt_of_le archBits.toNat_lt (Nat.pow_le_pow_right (by decide) (not_lt.mp hge))
      rw [Nat.testBit_lt_two_pow hlt] at h
      cases h
    have hall : ∀ i < 64, archBits.toNat.testBit i = true → i ∈ Flag.all.map Flag.bit := by decide
    obtain ⟨f, -, hf⟩ := List.mem_map.mp (hall i hi h)
    exact ⟨f, hf⟩
  · rintro ⟨f, rfl⟩
    cases f <;> decide

/-- Two words are one set of flags if they agree in the bits that have a name. -/
lemma and_archBits_congr {v w : UInt64}
    (h : ∀ f : Flag, v.toNat.testBit f.bit = w.toNat.testBit f.bit) :
    v &&& archBits = w &&& archBits := by
  refine UInt64.toNat.inj (Nat.eq_of_testBit_eq fun i => ?_)
  rw [UInt64.toNat_and, UInt64.toNat_and, Nat.testBit_and, Nat.testBit_and]
  cases hi : archBits.toNat.testBit i with
  | false => rw [Bool.and_false, Bool.and_false]
  | true =>
      obtain ⟨f, rfl⟩ := testBit_archBits.mp hi
      rw [h f]

lemma testBit_only (f : Flag) (i : Nat) :
    (only f).bits.toNat.testBit i = decide (f.bit = i) := by
  have hbits : (only f).bits.toNat = 2 ^ f.bit := by cases f <;> rfl
  rw [hbits, Nat.testBit_two_pow]

/-- What a page gets has no bits without a name. -/
lemma forPage_and_archBits (flags : Flags) :
    flags.forPage.bits &&& archBits = flags.forPage.bits := by
  refine UInt64.toNat.inj (Nat.eq_of_testBit_eq fun i => ?_)
  simp only [forPage, truncate, UInt64.toNat_and, UInt64.toNat_or, Nat.testBit_and, Nat.testBit_or,
    testBit_only]
  cases hi : archBits.toNat.testBit i with
  | true => simp
  | false =>
      have hne : Flag.present.bit ≠ i := fun heq => by
        rw [testBit_archBits.mpr ⟨.present, heq⟩] at hi
        cases hi
      simp [hne]

/-- The flags that a page gets. -/
lemma has_forPage (flags : Flags) (f : Flag) : flags.forPage.has f =
    if f = .present then true else if f = .huge then false else flags.has f := by
  have hhuge : (~~~(only .huge).bits).toNat.testBit f.bit = decide (f ≠ .huge) := by
    cases f <;> decide
  have hpresent : (only .present).bits.toNat.testBit f.bit = decide (f = .present) := by
    cases f <;> decide
  have hnamed : archBits.toNat.testBit f.bit = true := testBit_archBits.mpr ⟨f, rfl⟩
  simp only [has, forPage, truncate, UInt64.toNat_and, UInt64.toNat_or, Nat.testBit_and,
    Nat.testBit_or, hhuge, hpresent, hnamed]
  by_cases h : f = .present <;> by_cases h' : f = .huge <;> simp [h, h']

end Flags

namespace Entry

variable {e e' : Entry} {f : Frame} {flags : Flags}

/-- Whether a flag is set in an entry. -/
def has (e : Entry) : Flag → Bool
  | .present => e.present
  | .writable => e.writable
  | .user => e.user
  | .writeThrough => e.writeThrough
  | .noCache => e.cacheDisabled
  | .accessed => e.accessed
  | .dirty => e.dirty
  | .huge => e.huge
  | .global => e.global
  | .noExecute => e.noExecute

/-- A flag is the bit of the word that has its name. -/
lemma testBit_toWord (e : Entry) (flag : Flag) :
    e.toWord.toNat.testBit flag.bit = e.has flag := by
  have h := ofWord_toWord e
  cases flag
  case present => exact congrArg Entry.present h
  case writable => exact congrArg Entry.writable h
  case user => exact congrArg Entry.user h
  case writeThrough => exact congrArg Entry.writeThrough h
  case noCache => exact congrArg Entry.cacheDisabled h
  case accessed => exact congrArg Entry.accessed h
  case dirty => exact congrArg Entry.dirty h
  case huge => exact congrArg Entry.huge h
  case global => exact congrArg Entry.global h
  case noExecute => exact congrArg Entry.noExecute h

/-- The flags of an entry are its bits with a name. -/
lemma flags_congr (h : ∀ flag, e'.has flag = e.has flag) : e'.flags = e.flags := by
  refine Flags.ext (Flags.and_archBits_congr fun flag => ?_)
  rw [testBit_toWord, testBit_toWord, h]

/-- The count is not among the flags. -/
@[simp] lemma flags_outline : e.outline.flags = e.flags := by
  refine flags_congr fun flag => ?_
  rw [outline]
  split
  · cases flag <;> rfl
  · rfl

/-- **The flags of a page** are those that its caller asked for, as far as a page can have them. -/
theorem flags_of_leaf (h : leaf f flags = .ok e) : e.flags = flags.forPage := by
  have hfields : ∀ flag, e.has flag = flags.forPage.has flag := by
    intro flag
    rw [Flags.has_forPage]
    rw [leaf] at h
    split at h
    · cases h
      cases flag <;> simp [has]
    · cases h
  refine Flags.ext ?_
  rw [← Flags.forPage_and_archBits]
  refine Flags.and_archBits_congr fun flag => ?_
  rw [testBit_toWord, hfields, Flags.has]

/-- What an entry makes of an address does not depend on the count. -/
@[simp] lemma translate_outline (h : Nat) (va : VirtAddr) :
    e.outline.translate h va = e.translate h va := by
  simp [translate]

lemma translate_of_not_present {h : Nat} {va : VirtAddr} (hold : e.present = false) :
    e.translate h va = .error .notMapped := by
  rw [translate, hold]
  rfl

/-- **A page maps the addresses in it to those in its frame**, at the same offsets. -/
theorem translate_of_present {va : VirtAddr} (hpresent : e.present = true) :
    e.translate 0 va = .ok
      { address := e.frame.join va.offset, flags := e.flags, pageBytes := pageSize } := by
  have haddress : e.frame.number * pageSize / 2 ^ Address.indexShift 0 * 2 ^ Address.indexShift 0 +
      va.value.toNat % 2 ^ Address.indexShift 0 =
        e.frame.number * pageSize + va.offset % pageSize := by
    simp only [Address.indexShift, Address.offset, pageSize]
    omega
  rw [translate, if_pos hpresent]
  simp only [haddress]
  rfl

end Entry

/-! ## The read-only walk -/

variable {A : Type} [FrameSource A] [LawfulSource A] {C : Chart} {s : Store A} {o : Outline}
  {root : Frame} {va : VirtAddr} {h : Nat} {path : Path} {space : AddressSpace}

/-- **The ends of a read-only walk**: at the slot of a page, at a large page, or at an unused slot.
-/
def Chart.Lands (C : Chart) (o : Outline) (root : Frame) (va : VirtAddr)
    (result : Except MapError Walk) : Prop :=
  match result with
  | .ok (.slot path) => C.Way o root va 0 path
  | .ok (.large e k) => o.resolve root va = some (e.outline, k) ∧ e.present = true ∧ ¬ C.tidy ∧
      0 < k
  | .error e => e = .notMapped ∧ o.resolve root va = none

/-- One step of the walk, where the table can be used. -/
lemma Memory.descend_succ {m : Memory} (hshown : m.Shows path.slot.table) :
    m.descend va (h + 1) path =
      if (m.entry path.slot).isTable then
        m.descend va h (path.down (m.entry path.slot).frame (va.index h))
      else if (m.entry path.slot).present then
        .ok (.ok (.large (m.entry path.slot) (h + 1)))
      else .ok (.error .notMapped) := by
  rw [descend, readEntry_eq hshown]
  rfl

/-- The walk ends in one of its ways, from every slot on the way. -/
lemma Memory.descend_eq (hd : C.Describes s) (hway : C.Way s.memory.outline root va h path) :
    ∃ result, s.memory.descend va h path = .ok result ∧
      C.Lands s.memory.outline root va result := by
  induction h generalizing path with
  | zero => exact ⟨.ok (.slot path), rfl, hway⟩
  | succ h ih =>
      have hslot := hway.height hd.fits
      have hresolve := hway.resolve_eq
      rw [Outline.follow, outline_apply, Entry.outline_isTable, Entry.outline_present] at hresolve
      rw [descend_succ (hd.shown ⟨_, hslot⟩)]
      by_cases htable : (s.memory.entry path.slot).isTable = true
      · rw [if_pos htable]
        have hdown := hway.down (by simpa using htable)
        rw [outline_apply, Entry.outline_frame] at hdown
        exact ih hdown
      · rw [if_neg htable] at hresolve ⊢
        by_cases hpresent : (s.memory.entry path.slot).present = true
        · rw [if_pos hpresent] at hresolve ⊢
          refine ⟨_, rfl, hresolve, hpresent, fun htidy => htable ?_, Nat.succ_pos h⟩
          simpa using (hd.fits.inner htidy hslot (by simpa using hpresent)).1
        · rw [if_neg hpresent] at hresolve ⊢
          exact ⟨_, rfl, rfl, hresolve⟩

namespace AddressSpace

/-- **The walk for a canonical address** ends in one of its ways. -/
theorem find_eq (hd : C.Describes s) (hroot : C.IsRoot space.root) (hva : va.isCanonical = true) :
    ∃ result, space.find s.memory va = .ok result ∧
      C.Lands s.memory.outline space.root va result := by
  rw [find, if_pos hva]
  exact Memory.descend_eq hd (.ofRoot hroot)

lemma find_of_not_canonical (hva : va.isCanonical = false) (m : Memory) :
    space.find m va = .ok (.error (.invalidRequest .nonCanonical)) := by
  rw [find, if_neg (by simp [hva])]
  rfl

lemma resolve_slot {m : Memory} (hway : C.Way m.outline root va 0 path) :
    m.outline.resolve root va =
      if (m.entry path.slot).present then some ((m.entry path.slot).outline, 0) else none := by
  rw [hway.resolve_eq, Outline.follow, Memory.outline_apply, Entry.outline_present]

/-- **An address is mapped** if some entry decides what it stands for. -/
theorem isMapped_eq (hd : C.Describes s) (hroot : C.IsRoot space.root)
    (hva : va.isCanonical = true) :
    space.isMapped s.memory va = .ok (s.memory.outline.resolve space.root va).isSome := by
  obtain ⟨result, hfind, hlands⟩ := find_eq hd hroot hva
  rw [isMapped, hfind]
  rcases result with e | path | ⟨e, k⟩
  · rw [hlands.2]
    rfl
  · rw [resolve_slot hlands]
    change (do return (← s.memory.readEntry path.slot).present) = _
    rw [Memory.readEntry_eq (hd.shown ⟨0, hlands.height hd.fits⟩)]
    change Except.ok (s.memory.entry path.slot).present = _
    cases (s.memory.entry path.slot).present <;> rfl
  · rw [hlands.1]
    rfl

/-- **What an address stands for** is what the entry that decides it makes of the address. -/
theorem translate_eq (hd : C.Describes s) (hroot : C.IsRoot space.root)
    (hva : va.isCanonical = true) :
    space.translate s.memory va = .ok (match s.memory.outline.resolve space.root va with
      | none => .error .notMapped
      | some (e, k) => e.translate k va) := by
  obtain ⟨result, hfind, hlands⟩ := find_eq hd hroot hva
  rw [translate, hfind]
  rcases result with e | path | ⟨e, k⟩
  · obtain ⟨rfl, hnone⟩ := hlands
    rw [hnone]
    rfl
  · rw [resolve_slot hlands]
    change (do return (← s.memory.readEntry path.slot).translate 0 va) = _
    rw [Memory.readEntry_eq (hd.shown ⟨0, hlands.height hd.fits⟩)]
    change Except.ok ((s.memory.entry path.slot).translate 0 va) = _
    cases hpresent : (s.memory.entry path.slot).present with
    | false => rw [Entry.translate_of_not_present hpresent]; rfl
    | true => simp
  · rw [hlands.1]
    simp only [Entry.translate_outline]
    rfl

/-- Addresses stand for the same where the same entry decides it. -/
lemma translate_congr {C' : Chart} {s' : Store A} {space' : AddressSpace} (hd : C.Describes s)
    (hd' : C'.Describes s') (hroot : C.IsRoot space.root) (hroot' : C'.IsRoot space'.root)
    (hsame : s'.memory.outline.resolve space'.root va = s.memory.outline.resolve space.root va) :
    space'.translate s'.memory va = space.translate s.memory va := by
  cases hva : va.isCanonical with
  | true => rw [translate_eq hd hroot hva, translate_eq hd' hroot' hva, hsame]
  | false =>
      rw [translate, translate, find_of_not_canonical hva, find_of_not_canonical hva]
      rfl

end AddressSpace

end KernelMemory
