import KernelMemory.Table
import Mathlib.Data.Fintype.Card

/-!
# What tables say, without their counts

An entry that links an owned table carries a count beside the link.  What an address stands for does
not depend on the counts, and most of what keeps a tree of tables in order does not either, so both
are stated about the `Outline` of memory: its entries with the counts left out.

* `Outline.resolve` — the entry that decides what an address stands for, if there is one.
* `Outline.Leads` — the way of an address from a root down to a table.
* `Outline.count` — the number of present entries of a table, which is the number that
  `PageTable.presentCount` gives.
* **`Outline.follow_congr`** — a change that leaves alone what every single slot leads to leaves
  alone what every address stands for.
* **`Outline.resolve_update`** — a write is noticed only by the addresses whose way passes the slot.
-/

namespace KernelMemory

/-! ## Entries without their counts -/

namespace Entry

variable {e : Entry}

/-- The entry without the count of an owned table. -/
def outline (e : Entry) : Entry :=
  if e.owned then e.counting 0 else e

@[simp] lemma outline_present : e.outline.present = e.present := by
  rw [outline]; split <;> rfl

@[simp] lemma outline_huge : e.outline.huge = e.huge := by
  rw [outline]; split <;> rfl

@[simp] lemma outline_isTable : e.outline.isTable = e.isTable := by
  rw [isTable, isTable, outline_present, outline_huge]

@[simp] lemma outline_frame : e.outline.frame = e.frame := by
  rw [outline]; split <;> rfl

@[simp] lemma outline_owned : e.outline.owned = e.owned := by
  rw [outline]; split <;> simp_all

@[simp] lemma outline_absent : absent.outline = absent := rfl

lemma outline_of_not_owned (h : e.owned = false) : e.outline = e := by
  rw [outline, h]
  rfl

/-- Only the absent entry looks like it. -/
@[simp] lemma outline_eq_absent : e.outline = absent ↔ e = absent := by
  constructor
  · intro h
    have howned : e.owned = false := by rw [← outline_owned, h]; rfl
    rw [← outline_of_not_owned howned, h]
  · rintro rfl
    rfl

lemma isTable_iff : e.isTable = true ↔ e.present = true ∧ e.huge = false := by
  simp [isTable]

lemma present_of_isTable (h : e.isTable = true) : e.present = true :=
  (isTable_iff.mp h).1

end Entry

/-! ## Outlines of memory -/

/-- What stands in each slot, without the counts. -/
abbrev Outline : Type := Slot → Entry

/-- The outline of memory. -/
def Memory.outline (m : Memory) : Outline :=
  fun s => (m.entry s).outline

@[simp] lemma Memory.outline_apply (m : Memory) (s : Slot) :
    m.outline s = (m.entry s).outline := rfl

namespace Outline

variable {o o' : Outline} {e : Entry} {s : Slot} {f root : Frame} {va : VirtAddr} {h : Nat}

/-- Every slot of a table is unused. -/
def Blank (o : Outline) (f : Frame) : Prop :=
  ∀ i, o ⟨f, i⟩ = .absent

lemma Blank.not_present {m : Memory} (h : m.outline.Blank s.table) :
    (m.entry s).present = false := by
  have habsent := h s.index
  rw [Memory.outline_apply, Entry.outline_eq_absent] at habsent
  rw [habsent]
  rfl

/-! ### The number of present entries -/

/-- The number of present entries of a table. -/
def count (o : Outline) (f : Frame) : Nat :=
  (Finset.univ.filter fun i => (o ⟨f, i⟩).present = true).card

lemma count_le : o.count f ≤ tableEntries :=
  (Finset.card_filter_le _ _).trans_eq (Finset.card_fin _)

lemma count_congr (h : ∀ i, (o' ⟨f, i⟩).present = (o ⟨f, i⟩).present) :
    o'.count f = o.count f := by
  simp only [count, h]

lemma count_update_of_ne (h : s.table ≠ f) : count (Function.update o s e) f = o.count f := by
  refine count_congr fun i => congrArg Entry.present (Function.update_of_ne ?_ _ _)
  rintro rfl
  exact h rfl

/-- Writing a present entry where none was raises the number by one. -/
lemma count_fill (hold : (o s).present = false) (hnew : e.present = true) :
    count (Function.update o s e) s.table = o.count s.table + 1 := by
  have hinsert : (Finset.univ.filter fun i => (Function.update o s e ⟨s.table, i⟩).present = true) =
      insert s.index (Finset.univ.filter fun i => (o ⟨s.table, i⟩).present = true) := by
    ext i
    rcases eq_or_ne i s.index with rfl | hi
    · simp [hnew]
    · have hs : (⟨s.table, i⟩ : Slot) ≠ s := fun h => hi (congrArg Slot.index h)
      simp [hi, Function.update_of_ne hs]
  rw [count, hinsert, Finset.card_insert_of_notMem (by simp [hold]), count]

lemma count_vacate (hold : (o s).present = true) :
    o.count s.table = count (Function.update o s .absent) s.table + 1 := by
  have hback : Function.update (Function.update o s .absent) s (o s) = o := by simp
  have := count_fill (o := Function.update o s .absent) (s := s) (e := o s) (by simp; rfl) hold
  rwa [hback] at this

lemma count_lt (hold : (o s).present = false) : o.count s.table < tableEntries := by
  have hfull := count_fill (e := { present := true }) hold rfl
  have hle := count_le (o := Function.update o s { present := true }) (f := s.table)
  omega

lemma count_ne_zero (hold : (o s).present = true) : o.count s.table ≠ 0 := by
  rw [count_vacate hold]
  omega

lemma one_lt_count {i j : Index} (hi : (o ⟨f, i⟩).present = true)
    (hj : (o ⟨f, j⟩).present = true) (hne : i ≠ j) : 1 < o.count f :=
  Finset.one_lt_card.mpr ⟨i, by simpa using hi, j, by simpa using hj, hne⟩

lemma count_eq_zero_iff : o.count f = 0 ↔ ∀ i, (o ⟨f, i⟩).present = false := by
  simp [count, Finset.filter_eq_empty_iff]

lemma Blank.count_eq_zero (h : o.Blank f) : o.count f = 0 := by
  refine count_eq_zero_iff.mpr fun i => ?_
  rw [h i]
  rfl

/-- The number is the one that a count over the words of the frame gives. -/
lemma presentCount_ofWords (m : Memory) (f : Frame) :
    (PageTable.ofWords (m.words f)).presentCount = m.outline.count f := by
  have hlist : (PageTable.ofWords (m.words f)).entries.toList =
      (List.finRange tableEntries).map fun i => m.entry ⟨f, i⟩ := by
    refine List.ext_getElem (by simp) fun i _ _ => ?_
    simp [PageTable.ofWords, Memory.entry, Memory.word]
  rw [PageTable.presentCount, hlist, List.countP_map, List.countP_eq_length_filter, count,
    Fin.univ_def, Finset.card_def, Finset.filter_val]
  simp [Function.comp_def]

/-! ### What an address stands for -/

/-- The entry that decides what an address stands for, with the height of its table, for a walk that
has come to the given entry of a table of the given height. -/
def follow (o : Outline) (va : VirtAddr) : (height : Nat) → Entry → Option (Entry × Nat)
  | 0, e => if e.present then some (e, 0) else none
  | height + 1, e =>
    if e.isTable then o.follow va height (o ⟨e.frame, va.index height⟩)
    else if e.present then some (e, height + 1) else none

/-- The entry that decides what an address stands for under a root, with the height of its table. -/
def resolve (o : Outline) (root : Frame) (va : VirtAddr) : Option (Entry × Nat) :=
  o.follow va rootHeight (o ⟨root, va.index rootHeight⟩)

lemma follow_of_not_present (he : e.present = false) : o.follow va h e = none := by
  cases h <;> simp [follow, Entry.isTable, he]

@[simp] lemma follow_absent : o.follow va h .absent = none :=
  follow_of_not_present rfl

lemma follow_link (htable : e.isTable = true) :
    o.follow va (h + 1) e = o.follow va h (o ⟨e.frame, va.index h⟩) := by
  rw [follow, if_pos htable]

/-- A link to a table without entries leads nowhere. -/
lemma follow_empty (hzero : o.count e.frame = 0) (htable : e.isTable = true) :
    o.follow va (h + 1) e = none := by
  rw [follow_link htable, follow_of_not_present (count_eq_zero_iff.mp hzero _)]

/-- The walk for an address leads through the given links, nearest first, to a table of the given
height. -/
inductive Leads (o : Outline) (root : Frame) (va : VirtAddr) : List Slot → Frame → Nat → Prop
  | root : Leads o root va [] root rootHeight
  | down {holders : List Slot} {t : Frame} {h : Nat} : Leads o root va holders t (h + 1) →
      (o ⟨t, va.index (h + 1)⟩).isTable = true →
      Leads o root va (⟨t, va.index (h + 1)⟩ :: holders) (o ⟨t, va.index (h + 1)⟩).frame h

namespace Leads

variable {holders : List Slot} {t : Frame}

lemma of_nil (hl : o.Leads root va [] t h) : t = root ∧ h = rootHeight := by
  cases hl
  exact ⟨rfl, rfl⟩

lemma uncons (hl : o.Leads root va (s :: holders) t h) :
    o.Leads root va holders s.table (h + 1) ∧ s.index = va.index (h + 1) ∧
      (o s).isTable = true ∧ (o s).frame = t := by
  cases hl with
  | down hl htable => exact ⟨hl, rfl, htable, rfl⟩

/-- A way goes on through a slot at its end that links a table. -/
lemma through (hl : o.Leads root va holders s.table (h + 1)) (hindex : s.index = va.index (h + 1))
    (htable : (o s).isTable = true) : o.Leads root va (s :: holders) (o s).frame h := by
  have hs : s = ⟨s.table, va.index (h + 1)⟩ := Slot.ext rfl hindex
  rw [hs] at htable ⊢
  exact hl.down htable

/-- A way has a holder for each table below the root. -/
lemma length_add (hl : o.Leads root va holders t h) : holders.length + h = rootHeight := by
  induction hl with
  | root => rfl
  | down _ _ ih =>
      rw [List.length_cons]
      omega

lemma height_le (hl : o.Leads root va holders t h) : h ≤ rootHeight :=
  hl.length_add ▸ Nat.le_add_left h _

lemma of_rootHeight (hl : o.Leads root va holders t rootHeight) : holders = [] ∧ t = root := by
  cases hl with
  | root => exact ⟨rfl, rfl⟩
  | down hl _ => exact absurd hl.height_le (by decide)

/-- The last holder of a way is the slot of the root. -/
lemma root_mem (hl : o.Leads root va holders t h) (hh : h < rootHeight) :
    ⟨root, va.index rootHeight⟩ ∈ holders := by
  induction hl with
  | root => exact absurd hh (lt_irrefl _)
  | @down holders t h hl htable ih =>
      rcases eq_or_lt_of_le hl.height_le with heq | hlt
      · rw [heq] at hl ⊢
        obtain ⟨rfl, rfl⟩ := hl.of_rootHeight
        exact List.mem_cons_self ..
      · exact List.mem_cons_of_mem _ (ih hlt)

lemma resolve_eq (hl : o.Leads root va holders t h) :
    o.resolve root va = o.follow va h (o ⟨t, va.index h⟩) := by
  induction hl with
  | root => rfl
  | down _ htable ih => rw [ih, follow_link htable]

/-- An address has one way to each height. -/
lemma unique {holders' : List Slot} {t' : Frame} (hl : o.Leads root va holders t h)
    (hl' : o.Leads root va holders' t' h) : holders = holders' ∧ t = t' := by
  induction hl generalizing holders' t' with
  | root =>
      obtain ⟨rfl, rfl⟩ := hl'.of_rootHeight
      exact ⟨rfl, rfl⟩
  | @down holders t h hl htable ih =>
      cases hl' with
      | root => exact absurd hl.height_le (by decide)
      | down hl' _ =>
          obtain ⟨rfl, rfl⟩ := ih hl'
          exact ⟨rfl, rfl⟩

/-- Addresses that select the same slots above a table come to it by the same way. -/
lemma of_index {va' : VirtAddr} (hl : o.Leads root va holders t h)
    (hindex : ∀ k, h < k → k ≤ rootHeight → va'.index k = va.index k) :
    o.Leads root va' holders t h := by
  induction hl with
  | root => exact .root
  | @down holders t h hl htable ih =>
      rw [← hindex (h + 1) (Nat.lt_succ_self h) hl.height_le] at htable ⊢
      exact (ih fun k hk => hindex k (Nat.lt_of_succ_lt hk)).down htable

/-- The way is the same in an outline that has the same links. -/
lemma congr (hl : o.Leads root va holders t h) (hsame : ∀ s ∈ holders, o' s = o s) :
    o'.Leads root va holders t h := by
  induction hl with
  | root => exact .root
  | @down holders t h _ htable ih =>
      have hs : o' ⟨t, va.index (h + 1)⟩ = o ⟨t, va.index (h + 1)⟩ := hsame _ (by simp)
      have := Leads.down (ih fun s hmem => hsame s (by simp [hmem])) (hs ▸ htable)
      rwa [hs] at this

end Leads

/-! ### What a change does to addresses -/

/-- **A change that leaves alone what every slot leads to is not noticed.**  The slots are those of
tables with a height, whose links lead one level down. -/
theorem follow_congr (isTable : Frame → Nat → Prop)
    (hchild : ∀ s h, isTable s.table (h + 1) → (o s).isTable = true → isTable (o s).frame h)
    (hslot : ∀ s h va, isTable s.table h →
      o' s = o s ∨ o'.follow va h (o' s) = o.follow va h (o s)) :
    ∀ s h va, isTable s.table h → o'.follow va h (o' s) = o.follow va h (o s) := by
  intro s h va hs
  induction h generalizing s with
  | zero =>
      rcases hslot s 0 va hs with heq | heq
      · rw [heq, follow, follow]
      · exact heq
  | succ h ih =>
      rcases hslot s (h + 1) va hs with heq | heq
      · rw [heq, follow, follow]
        by_cases htable : (o s).isTable = true
        · rw [if_pos htable, if_pos htable]
          exact ih ⟨(o s).frame, va.index h⟩ (hchild s h hs htable)
        · rw [if_neg htable, if_neg htable]
      · exact heq

/-- **A write is not noticed by an address whose way does not pass the slot.** -/
theorem resolve_update (havoid : ∀ holders h, o.Leads root va holders s.table h →
      va.index h ≠ s.index) :
    resolve (Function.update o s e) root va = o.resolve root va := by
  have hfollow : ∀ h holders t, o.Leads root va holders t h →
      follow (Function.update o s e) va h (Function.update o s e ⟨t, va.index h⟩) =
        o.follow va h (o ⟨t, va.index h⟩) := by
    intro h
    induction h with
    | zero =>
        intro holders t hl
        have hne : (⟨t, va.index 0⟩ : Slot) ≠ s := by
          rintro rfl
          exact havoid holders 0 hl rfl
        rw [Function.update_of_ne hne, follow, follow]
    | succ h ih =>
        intro holders t hl
        have hne : (⟨t, va.index (h + 1)⟩ : Slot) ≠ s := by
          rintro rfl
          exact havoid holders (h + 1) hl rfl
        rw [Function.update_of_ne hne, follow, follow]
        by_cases htable : (o ⟨t, va.index (h + 1)⟩).isTable = true
        · rw [if_pos htable, if_pos htable]
          exact ih _ _ (hl.down htable)
        · rw [if_neg htable, if_neg htable]
  exact hfollow rootHeight [] root .root

end Outline

end KernelMemory
