import KernelMemory.Proofs.Space.Lookup

/-!
# The walk of the processor

The processor knows nothing of entries and heights.  It reads words: at each of four levels nine
bits of the address select a word of a table, and the first word that does not link a further table
decides what the address stands for.  This is written down level by level, and `translate` is found
to say the same of every memory whose tables on the way can be used, whatever the words are: tables
may link each other in circles, and large pages may lie at any of the three upper levels with any of
the bits set that do not count there.

* `Hardware.walk` — the slot of the word that decides an address, with the number of address bits
  that lie within the page.
* `Hardware.Maps` — what such a word makes of the address.
* `Hardware.stop_congr`, `Hardware.stop_same` — the walk depends on the address bits above the page
  and on the links.
* **`AddressSpace.translate_walk`** — the answer is the one of the processor; within a page answers
  move with the address, and the frame bits below the size of a page do not count.
-/

namespace KernelMemory

namespace Hardware

variable {m m' : Memory} {root : Frame} {va va' : VirtAddr} {s t : Slot} {w w' : UInt64}
  {h shift : Nat}

/-! ## Words of a table -/

/-- Whether a word links a table, at a level above the lowest: it is present (bit 0), and is not a
large page (bit 7). -/
def links (w : UInt64) : Bool :=
  w.toNat.testBit 0 && !w.toNat.testBit 7

/-- The table that a word links, in bits 51 to 12. -/
def target (w : UInt64) : Frame :=
  ⟨w.toNat / 2 ^ 12 % 2 ^ 40, (Nat.mod_lt _ (by decide)).trans (by decide)⟩

/-- Nine bits of an address, from the given one upwards. -/
def field (va : VirtAddr) (low : Nat) : Index :=
  ⟨va.value.toNat / 2 ^ low % 2 ^ 9, Nat.mod_lt _ (by decide)⟩

/-- **What a present word makes of an address** in its page of `2 ^ shift` bytes. -/
structure Maps (w : UInt64) (shift : Nat) (va : VirtAddr) (x : Mapping) : Prop where
  bytes : x.pageBytes = 2 ^ shift
  /-- Bits 0 to 8 and bit 63 are the flags. -/
  flag : ∀ i, x.flags.bits.toNat.testBit i = (w.toNat.testBit i && (decide (i ≤ 8) || i == 63))
  /-- Bits 51 to `shift` are the address of the page. -/
  address : x.address.value.toNat =
    w.toNat / 2 ^ shift % 2 ^ (52 - shift) * 2 ^ shift + va.value.toNat % 2 ^ shift

/-- Two answers differ by no more than the distance between the addresses that they are for. -/
def AtDistance (va va' : VirtAddr) : Except MapError Mapping → Except MapError Mapping → Prop
  | .ok x, .ok x' => x'.pageBytes = x.pageBytes ∧ x'.flags = x.flags ∧
      x'.address.value.toNat + va.value.toNat = x.address.value.toNat + va'.value.toNat
  | .error e, .error e' => e' = e
  | _, _ => False

/-! ## The walk, level by level -/

/-- **The slot of the word that decides an address**, with the number of address bits that lie
within its page. -/
def walk (m : Memory) (root : Frame) (va : VirtAddr) : Slot × Nat :=
  let slot4 : Slot := ⟨root, field va 39⟩
  let slot3 : Slot := ⟨target (m.word slot4), field va 30⟩
  let slot2 : Slot := ⟨target (m.word slot3), field va 21⟩
  let slot1 : Slot := ⟨target (m.word slot2), field va 12⟩
  if links (m.word slot4) then
    if links (m.word slot3) then
      if links (m.word slot2) then (slot1, 12) else (slot2, 21)
    else (slot3, 30)
  else (slot4, 39)

/-- The tables that the walk for an address reads can be used. -/
def Shown (m : Memory) (root : Frame) (va : VirtAddr) : Prop :=
  let slot4 : Slot := ⟨root, field va 39⟩
  let slot3 : Slot := ⟨target (m.word slot4), field va 30⟩
  let slot2 : Slot := ⟨target (m.word slot3), field va 21⟩
  let slot1 : Slot := ⟨target (m.word slot2), field va 12⟩
  m.Shows slot4.table ∧ (links (m.word slot4) = true →
    m.Shows slot3.table ∧ (links (m.word slot3) = true →
      m.Shows slot2.table ∧ (links (m.word slot2) = true → m.Shows slot1.table)))

/-! ### The levels as one recursion -/

/-- Where the walk ends that has come to a slot of a table of the given height. -/
def stop (m : Memory) (va : VirtAddr) : (height : Nat) → Slot → Slot × Nat
  | 0, s => (s, Address.indexShift 0)
  | height + 1, s =>
    if links (m.word s) then stop m va height ⟨target (m.word s), va.index height⟩
    else (s, Address.indexShift (height + 1))

/-- The tables can be used that the walk reads from a slot on. -/
def Usable (m : Memory) (va : VirtAddr) : (height : Nat) → Slot → Prop
  | 0, s => m.Shows s.table
  | height + 1, s => m.Shows s.table ∧
      (links (m.word s) = true → Usable m va height ⟨target (m.word s), va.index height⟩)

lemma walk_eq_stop : walk m root va = stop m va rootHeight ⟨root, va.index rootHeight⟩ := rfl

lemma shown_iff_usable : Shown m root va ↔ Usable m va rootHeight ⟨root, va.index rootHeight⟩ :=
  Iff.rfl

lemma Usable.shows (hu : Usable m va h s) : m.Shows s.table := by
  cases h with
  | zero => exact hu
  | succ h => exact hu.1

lemma exists_shift (m : Memory) (va : VirtAddr) (h : Nat) (s : Slot) :
    ∃ k ≤ h, (stop m va h s).2 = Address.indexShift k := by
  induction h generalizing s with
  | zero => exact ⟨0, Nat.le_refl _, rfl⟩
  | succ h ih =>
      rw [stop]
      split
      · obtain ⟨k, hk, hshift⟩ := ih ⟨target (m.word s), va.index h⟩
        exact ⟨k, Nat.le_succ_of_le hk, hshift⟩
      · exact ⟨h + 1, Nat.le_refl _, rfl⟩

/-- A word above the lowest level at which the walk ends does not link a table. -/
lemma links_stop (hlarge : Address.indexShift 0 < (stop m va h s).2) :
    links (m.word (stop m va h s).1) = false := by
  induction h generalizing s with
  | zero => exact absurd hlarge (Nat.lt_irrefl _)
  | succ h ih =>
      rw [stop] at hlarge ⊢
      split
      case isTrue hlinks =>
        rw [if_pos hlinks] at hlarge
        exact ih hlarge
      case isFalse hlinks => exact Bool.eq_false_iff.mpr hlinks

/-! ### What the walk depends on -/

/-- Addresses that agree from some bit on select the same words at the levels above. -/
lemma index_congr {j k : Nat}
    (hva : va'.value.toNat / 2 ^ Address.indexShift k = va.value.toNat / 2 ^ Address.indexShift k)
    (hk : k ≤ j) : va'.index j = va.index j := by
  have hsplit : Address.indexShift j = Address.indexShift k + 9 * (j - k) := by
    simp only [Address.indexShift]
    omega
  have hdiv : va'.value.toNat / 2 ^ Address.indexShift j =
      va.value.toNat / 2 ^ Address.indexShift j := by
    rw [hsplit, Nat.pow_add, ← Nat.div_div_eq_div_mul, ← Nat.div_div_eq_div_mul, hva]
  exact Fin.ext (congrArg (· % tableEntries) hdiv)

/-- **The addresses of a page** have one walk: it does not look at the bits within the page. -/
theorem stop_congr (hva : va'.value.toNat / 2 ^ (stop m va h s).2 =
      va.value.toNat / 2 ^ (stop m va h s).2) :
    stop m va' h s = stop m va h s ∧ (Usable m va h s → Usable m va' h s) := by
  induction h generalizing s with
  | zero => exact ⟨rfl, id⟩
  | succ h ih =>
      simp only [stop, Usable] at hva ⊢
      by_cases hlinks : links (m.word s) = true
      · simp only [if_pos hlinks] at hva ⊢
        obtain ⟨k, hk, hshift⟩ := exists_shift m va h ⟨target (m.word s), va.index h⟩
        have hindex : va'.index h = va.index h := index_congr (hshift ▸ hva) hk
        obtain ⟨hstop, husable⟩ := ih hva
        rw [hindex]
        exact ⟨hstop, fun hu => ⟨hu.1, fun _ => husable (hu.2 hlinks)⟩⟩
      · simp only [if_neg hlinks]
        exact ⟨trivial, fun hu => ⟨hu.1, fun h => absurd h hlinks⟩⟩

/-- Two memories have the same links. -/
structure SameLinks (m m' : Memory) : Prop where
  window : m'.window = m.window
  links : ∀ s, links (m'.word s) = links (m.word s)
  target : ∀ s, Hardware.links (m.word s) = true → target (m'.word s) = target (m.word s)

/-- **Memories with the same links** have one walk. -/
theorem stop_same (hm : SameLinks m m') :
    stop m' va h s = stop m va h s ∧ (Usable m va h s → Usable m' va h s) := by
  induction h generalizing s with
  | zero => exact ⟨rfl, fun hu => hu.of_window hm.window⟩
  | succ h ih =>
      simp only [stop, Usable, hm.links]
      by_cases hlinks : links (m.word s) = true
      · rw [if_pos hlinks, if_pos hlinks, hm.target s hlinks]
        exact ⟨ih.1, fun hu => ⟨hu.1.of_window hm.window, fun _ => ih.2 (hu.2 hlinks)⟩⟩
      · rw [if_neg hlinks, if_neg hlinks]
        exact ⟨rfl, fun hu => ⟨hu.1.of_window hm.window, fun h => absurd h hlinks⟩⟩

/-- A word can be exchanged for one that does not link a table either, and a word at the lowest
level only for itself. -/
lemma sameLinks_setWord (hlinks : links w = links (m.word s))
    (htarget : links (m.word s) = true → w = m.word s) : SameLinks m (m.setWord s w) where
  window := rfl
  links t := by
    rw [Memory.word_setWord]
    split
    case isTrue heq => rw [hlinks, heq]
    case isFalse => rfl
  target t ht := by
    rw [Memory.word_setWord]
    split
    case isTrue heq =>
      subst heq
      rw [htarget ht]
    case isFalse => rfl

/-! ### The walk as a whole -/

lemma walk_shift (m : Memory) (root : Frame) (va : VirtAddr) :
    ∃ k ≤ rootHeight, (walk m root va).2 = Address.indexShift k :=
  exists_shift m va rootHeight ⟨root, va.index rootHeight⟩

/-- The page of an address is at most 512 GiB large. -/
lemma walk_shift_le (m : Memory) (root : Frame) (va : VirtAddr) :
    (walk m root va).2 ≤ 39 := by
  obtain ⟨k, hk, hshift⟩ := walk_shift m root va
  rw [hshift, Address.indexShift]
  simp only [rootHeight] at hk
  omega

lemma links_walk (hlarge : 12 < (walk m root va).2) :
    links (m.word (walk m root va).1) = false := by
  rw [walk_eq_stop] at hlarge ⊢
  exact links_stop hlarge

lemma walk_congr (hva : va'.value.toNat / 2 ^ (walk m root va).2 =
      va.value.toNat / 2 ^ (walk m root va).2) :
    walk m root va' = walk m root va ∧ (Shown m root va → Shown m root va') := by
  obtain ⟨k, hk, hshift⟩ := walk_shift m root va
  have hindex : va'.index rootHeight = va.index rootHeight := index_congr (hshift ▸ hva) hk
  rw [walk_eq_stop] at hva
  rw [walk_eq_stop, walk_eq_stop, shown_iff_usable, shown_iff_usable, hindex]
  exact stop_congr hva

lemma walk_same (hm : SameLinks m m') :
    walk m' root va = walk m root va ∧ (Shown m root va → Shown m' root va) := by
  rw [walk_eq_stop, walk_eq_stop, shown_iff_usable, shown_iff_usable]
  exact stop_same hm

/-- Bits of the deciding word that lie between its flags and the address of its page have no part in
the walk. -/
lemma SameLinks.of_walk {slot : Slot} (hwalk : walk m root va = (slot, shift))
    (hw : ∀ i, ¬ (12 ≤ i ∧ i < shift) → w.toNat.testBit i = (m.word slot).toNat.testBit i) :
    SameLinks m (m.setWord slot w) := by
  refine sameLinks_setWord ?_ fun htable => ?_
  · rw [Hardware.links, Hardware.links, hw 0 (by omega), hw 7 (by omega)]
  · refine UInt64.toNat.inj (Nat.eq_of_testBit_eq fun i => hw i fun hi => ?_)
    have hlarge : 12 < (walk m root va).2 := by
      rw [hwalk]
      exact hi.1.trans_lt hi.2
    have hnone := links_walk hlarge
    rw [hwalk] at hnone
    rw [hnone] at htable
    cases htable

/-! ## Words as entries -/

/-- The answer for an address whose walk ends at a word. -/
def answer (w : UInt64) (shift : Nat) (va : VirtAddr) : Except MapError Mapping :=
  if w.toNat.testBit 0 then
    .ok {
      address := .ofNat
        (w.toNat / 2 ^ shift % 2 ^ (52 - shift) * 2 ^ shift + va.value.toNat % 2 ^ shift)
      flags := ⟨w &&& Flags.archBits⟩
      pageBytes := 2 ^ shift }
  else .error .notMapped

/-- The address of a page has no bits beyond 51. -/
lemma address_lt (w : UInt64) (va : VirtAddr) (hshift : shift ≤ 52) :
    w.toNat / 2 ^ shift % 2 ^ (52 - shift) * 2 ^ shift + va.value.toNat % 2 ^ shift < 2 ^ 52 := by
  have hpage : w.toNat / 2 ^ shift % 2 ^ (52 - shift) < 2 ^ (52 - shift) :=
    Nat.mod_lt _ (Nat.two_pow_pos _)
  have hoffset : va.value.toNat % 2 ^ shift < 2 ^ shift := Nat.mod_lt _ (Nat.two_pow_pos _)
  calc _ < w.toNat / 2 ^ shift % 2 ^ (52 - shift) * 2 ^ shift + 2 ^ shift :=
        Nat.add_lt_add_left hoffset _
    _ = (w.toNat / 2 ^ shift % 2 ^ (52 - shift) + 1) * 2 ^ shift := (Nat.succ_mul ..).symm
    _ ≤ 2 ^ (52 - shift) * 2 ^ shift := Nat.mul_le_mul_right _ hpage
    _ = 2 ^ 52 := by rw [← Nat.pow_add, Nat.sub_add_cancel hshift]

/-- The bits that are flags. -/
lemma testBit_archBits (i : Nat) :
    Flags.archBits.toNat.testBit i = (decide (i ≤ 8) || i == 63) := by
  rw [Bool.eq_iff_iff, Flags.testBit_archBits]
  constructor
  · rintro ⟨f, rfl⟩
    cases f <;> decide
  · intro hi
    simp only [Bool.or_eq_true, decide_eq_true_eq, beq_iff_eq] at hi
    rcases hi with hi | rfl
    · have hall : ∀ i ≤ 8, ∃ f ∈ Flag.all, f.bit = i := by decide
      obtain ⟨f, -, hf⟩ := hall i hi
      exact ⟨f, hf⟩
    · exact ⟨.noExecute, rfl⟩

lemma answer_of_present (hpresent : w.toNat.testBit 0 = true) : answer w shift va = .ok {
    address := .ofNat
      (w.toNat / 2 ^ shift % 2 ^ (52 - shift) * 2 ^ shift + va.value.toNat % 2 ^ shift)
    flags := ⟨w &&& Flags.archBits⟩
    pageBytes := 2 ^ shift } :=
  if_pos hpresent

lemma answer_eq_error_iff :
    answer w shift va = .error .notMapped ↔ w.toNat.testBit 0 = false := by
  rw [answer]
  cases w.toNat.testBit 0 <;> simp

/-- The answer for a present word is what the word makes of the address. -/
lemma exists_maps (va : VirtAddr) (hshift : shift ≤ 52) (hpresent : w.toNat.testBit 0 = true) :
    ∃ x, answer w shift va = .ok x ∧ Maps w shift va x := by
  refine ⟨_, answer_of_present hpresent, rfl, fun i => ?_, ?_⟩
  · rw [UInt64.toNat_and, Nat.testBit_and, testBit_archBits]
  · rw [Address.ofNat, UInt64.toNat_ofNat', Nat.mod_eq_of_lt]
    exact (address_lt w va hshift).trans (by decide)

/-- An entry makes of an address what its word makes of it. -/
lemma translate_ofWord {k : Nat} (hk : k ≤ rootHeight) :
    (Entry.ofWord w).translate k va = answer w (Address.indexShift k) va := by
  have hpage : w.toNat / 2 ^ 12 % 2 ^ 40 * pageSize / 2 ^ Address.indexShift k =
      w.toNat / 2 ^ Address.indexShift k % 2 ^ (52 - Address.indexShift k) := by
    have hcases : k = 0 ∨ k = 1 ∨ k = 2 ∨ k = 3 := by
      simp only [rootHeight] at hk
      omega
    simp only [Address.indexShift, pageSize]
    rcases hcases with rfl | rfl | rfl | rfl <;> omega
  rw [Entry.translate, answer, ← hpage, Entry.flags, Entry.toWord_ofWord]
  rfl

/-- Addresses of one page get answers at their distance. -/
lemma answer_atDistance (hshift : shift ≤ 52)
    (hva : va'.value.toNat / 2 ^ shift = va.value.toNat / 2 ^ shift) :
    AtDistance va va' (answer w shift va) (answer w shift va') := by
  have hoffset : va'.value.toNat % 2 ^ shift + va.value.toNat =
      va.value.toNat % 2 ^ shift + va'.value.toNat := by
    have hsplit := Nat.div_add_mod va.value.toNat (2 ^ shift)
    have hsplit' := Nat.div_add_mod va'.value.toNat (2 ^ shift)
    rw [hva] at hsplit'
    omega
  cases hpresent : w.toNat.testBit 0 with
  | false =>
      rw [answer_eq_error_iff.mpr hpresent, answer_eq_error_iff.mpr hpresent]
      rfl
  | true =>
      obtain ⟨x, hx, hmaps⟩ := exists_maps va hshift hpresent
      obtain ⟨x', hx', hmaps'⟩ := exists_maps va' hshift hpresent
      rw [hx, hx']
      refine ⟨hmaps'.bytes.trans hmaps.bytes.symm, ?_, ?_⟩
      · refine Flags.ext (UInt64.toNat.inj (Nat.eq_of_testBit_eq fun i => ?_))
        rw [hmaps'.flag, hmaps.flag]
      · rw [hmaps'.address, hmaps.address]
        omega

/-- Bits between the flags and the size of the page do not count. -/
lemma answer_congr (hshift : shift ≤ 63)
    (hw : ∀ i, ¬ (12 ≤ i ∧ i < shift) → w'.toNat.testBit i = w.toNat.testBit i) :
    answer w' shift va = answer w shift va := by
  have hpresent := hw 0 (by omega)
  have hpage : w'.toNat / 2 ^ shift = w.toNat / 2 ^ shift := by
    refine Nat.eq_of_testBit_eq fun i => ?_
    rw [Nat.testBit_div_two_pow, Nat.testBit_div_two_pow]
    exact hw _ fun h => by omega
  have hflags : w' &&& Flags.archBits = w &&& Flags.archBits := by
    refine Flags.and_archBits_congr fun f => hw _ fun h => ?_
    cases f <;> simp only [Flag.bit] at h <;> omega
  rw [answer, answer, hpresent, hpage, hflags]

/-! ## The read-only walk ends where the processor's does -/

/-- The ends of the read-only walk, where the one of the processor ends at a slot. -/
inductive Stops (m : Memory) (s : Slot) : Nat → Except MapError Walk → Prop
  | slot (path : Path) : path.slot = s → m.Shows s.table →
      Stops m s (Address.indexShift 0) (.ok (.slot path))
  | large (k : Nat) : k ≤ rootHeight → Stops m s (Address.indexShift k) (.ok (.large (m.entry s) k))
  | missing (shift : Nat) : (m.word s).toNat.testBit 0 = false →
      Stops m s shift (.error .notMapped)

lemma descend_stops (path : Path) (hh : h ≤ rootHeight) (hu : Usable m va h path.slot) :
    ∃ result, m.descend va h path = .ok result ∧
      Stops m (stop m va h path.slot).1 (stop m va h path.slot).2 result := by
  induction h generalizing path with
  | zero => exact ⟨_, rfl, .slot path rfl hu⟩
  | succ h ih =>
      have hisTable : (m.entry path.slot).isTable = links (m.word path.slot) := rfl
      have hpresent : (m.entry path.slot).present = (m.word path.slot).toNat.testBit 0 := rfl
      rw [Memory.descend_succ hu.shows, hisTable, hpresent, stop]
      by_cases hlinks : links (m.word path.slot) = true
      · rw [if_pos hlinks, if_pos hlinks]
        exact ih _ (Nat.le_of_succ_le hh) (hu.2 hlinks)
      · rw [if_neg hlinks, if_neg hlinks]
        split
        case isTrue => exact ⟨_, rfl, .large (h + 1) hh⟩
        case isFalse hnone => exact ⟨_, rfl, .missing _ (Bool.eq_false_iff.mpr hnone)⟩

/-- What callers learn of an address is the answer for the word at which the walk ends. -/
lemma Stops.translate {result : Except MapError Walk} (hstops : Stops m s shift result)
    (hfind : (⟨root⟩ : AddressSpace).find m va = .ok result) :
    (⟨root⟩ : AddressSpace).translate m va = .ok (answer (m.word s) shift va) := by
  rw [AddressSpace.translate, hfind]
  cases hstops with
  | slot path heq hshows =>
      rw [← translate_ofWord (Nat.zero_le _), ← heq]
      change (do return (← m.readEntry path.slot).translate 0 va) = _
      rw [Memory.readEntry_eq (heq ▸ hshows)]
      rfl
  | large k hk =>
      rw [← translate_ofWord hk]
      rfl
  | missing shift hnone =>
      rw [answer_eq_error_iff.mpr hnone]
      rfl

/-- Memory in which the first word of table 0 links table 1, whose first word is a page of 1 GiB. -/
def sample : Memory :=
  (Memory.setWord { window := { offset := 0 } } ⟨⟨0, by decide⟩, 0⟩ 0x1003).setWord
    ⟨⟨1, by decide⟩, 0⟩ 0x8000000040201083

end Hardware

open Hardware

namespace AddressSpace

variable {m : Memory} {root : Frame} {va : VirtAddr}

/-- The answer for an address is the one of the word at which the processor's walk ends. -/
lemma translate_eq_answer (hshown : Shown m root va) (hva : va.isCanonical = true) :
    (⟨root⟩ : AddressSpace).translate m va =
      .ok (answer (m.word (Hardware.walk m root va).1) (Hardware.walk m root va).2 va) := by
  obtain ⟨result, hdescend, hstops⟩ :=
    descend_stops (.ofRoot root va) (Nat.le_refl _) (shown_iff_usable.mp hshown)
  rw [walk_eq_stop]
  refine hstops.translate ?_
  rw [find, if_pos hva, hdescend]

/-- **Translation is the walk of the processor.**  For every memory whose tables on the way of a
canonical address can be used, the answer is `notMapped` exactly if the word is not present at which
the walk ends, and otherwise what the word makes of the address.  Answers for the addresses of one
page differ by the distance of the addresses, and the bits of the word from 12 up to the size of the
page do not count. -/
theorem translate_walk (hshown : Shown m root va) (hva : va.isCanonical = true) :
    ∃ slot shift answer, Hardware.walk m root va = (slot, shift) ∧
      (⟨root⟩ : AddressSpace).translate m va = .ok answer ∧
      (answer = .error .notMapped ↔ (m.word slot).toNat.testBit 0 = false) ∧
      ((m.word slot).toNat.testBit 0 = true → ∃ x, answer = .ok x ∧ Maps (m.word slot) shift va x) ∧
      (∀ va' : VirtAddr, va'.isCanonical = true →
        va'.value.toNat / 2 ^ shift = va.value.toNat / 2 ^ shift →
        ∃ answer', (⟨root⟩ : AddressSpace).translate m va' = .ok answer' ∧
          AtDistance va va' answer answer') ∧
      (∀ w : UInt64, (∀ i, ¬ (12 ≤ i ∧ i < shift) →
          w.toNat.testBit i = (m.word slot).toNat.testBit i) →
        (⟨root⟩ : AddressSpace).translate (m.setWord slot w) va = .ok answer) := by
  have hshift := walk_shift_le m root va
  have hanswer := translate_eq_answer hshown hva
  have hmoved : ∀ va' : VirtAddr, va'.isCanonical = true →
      va'.value.toNat / 2 ^ (Hardware.walk m root va).2 =
        va.value.toNat / 2 ^ (Hardware.walk m root va).2 →
      (⟨root⟩ : AddressSpace).translate m va' =
        .ok (answer (m.word (Hardware.walk m root va).1) (Hardware.walk m root va).2 va') := by
    intro va' hva' hsame
    obtain ⟨hwalk', hshown'⟩ := walk_congr hsame
    rw [translate_eq_answer (hshown' hshown) hva', hwalk']
  generalize hwalk : Hardware.walk m root va = ended at hshift hanswer hmoved
  obtain ⟨slot, shift⟩ := ended
  refine ⟨slot, shift, answer (m.word slot) shift va, rfl, hanswer, answer_eq_error_iff,
    exists_maps va (hshift.trans (by decide)), fun va' hva' hsame => ?_, fun w hw => ?_⟩
  · exact ⟨_, hmoved va' hva' hsame, answer_atDistance (hshift.trans (by decide)) hsame⟩
  · have hlinks := SameLinks.of_walk hwalk hw
    obtain ⟨hwalk', hshown'⟩ : Hardware.walk (m.setWord slot w) root va = _ ∧ _ :=
      walk_same hlinks
    rw [translate_eq_answer (hshown' hshown) hva, hwalk', hwalk, Memory.word_setWord, if_pos rfl,
      answer_congr (hshift.trans (by decide)) hw]

/-- A page of 1 GiB whose entry has other frame bits set too. -/
theorem translate_walk_sample :
    Shown sample ⟨0, by decide⟩ ⟨0x12345678⟩ ∧ (⟨0x12345678⟩ : VirtAddr).isCanonical = true ∧
      ∃ x, (⟨⟨0, by decide⟩⟩ : AddressSpace).translate sample ⟨0x12345678⟩ = .ok (.ok x) ∧
        x.pageBytes = 2 ^ 30 ∧ x.address.value.toNat = 0x52345678 := by
  have hshown : Shown sample ⟨0, by decide⟩ ⟨0x12345678⟩ :=
    ⟨rfl, fun _ => ⟨rfl, fun _ => ⟨rfl, fun _ => rfl⟩⟩⟩
  have hva : (⟨0x12345678⟩ : VirtAddr).isCanonical = true := by decide
  obtain ⟨slot, shift, answer, hwalk, htranslate, -, hmaps, -⟩ := translate_walk hshown hva
  have hended : Hardware.walk sample ⟨0, by decide⟩ ⟨0x12345678⟩ =
      (⟨⟨1, by decide⟩, 0⟩, 30) := by
    have hlink : sample.word ⟨⟨0, by decide⟩, field ⟨0x12345678⟩ 39⟩ = 0x1003 := by
      simp [sample, Memory.word_setWord, field]
    have hpage : sample.word ⟨⟨1, by decide⟩, field ⟨0x12345678⟩ 30⟩ = 0x8000000040201083 := by
      simp [sample, Memory.word_setWord, field]
    have htarget : target 0x1003 = ⟨1, by decide⟩ := rfl
    rw [Hardware.walk, hlink, htarget]
    simp only [hpage]
    rfl
  obtain ⟨rfl, rfl⟩ := Prod.mk.inj (hwalk.symm.trans hended)
  have hword : sample.word ⟨⟨1, by decide⟩, 0⟩ = 0x8000000040201083 := by
    rw [sample, Memory.word_setWord, if_pos rfl]
  rw [hword] at hmaps
  obtain ⟨x, rfl, hx⟩ := hmaps (by decide)
  exact ⟨hshown, hva, x, htranslate, hx.bytes, hx.address⟩

end AddressSpace

end KernelMemory
