import KernelMemory.Proofs.Space.Calls

/-!
# Orderly tables

A chart is found by looking at memory: the tables of an address space are those that can be reached
from its root.  `Space.Orderly` says of them, without a chart, what the operations rely on.  Tables
that the kernel owns have to be linked once and counted right; tables that it does not own, be they
the bootloader's or borrowed from another root, may be linked at will.

* `Memory.Reaches` — a table can be reached from a root.
* `Space.chartOf` — the chart of the tables that can be reached.
* `Space.Consistent`, `Space.Coherent` — tables of which some may be empty;
  **`Coherent.describes`** — their chart describes the state.
* **`Space.orderly_iff`** — the tables of a root are orderly if some chart is sound on which no root
  lends its tables.
* `Space.WellFormed` — the tables of a root are orderly, and each is linked once.
-/

namespace KernelMemory

/-! ## Tables that can be reached -/

/-- **A table of the given height can be reached** from a root through links. -/
inductive Memory.Reaches (m : Memory) (root : Frame) : Nat → Frame → Prop
  | root : Reaches m root rootHeight root
  | down {h : Nat} {t : Frame} {i : Index} : Reaches m root (h + 1) t →
      (m.entry ⟨t, i⟩).isTable = true → Reaches m root h (m.entry ⟨t, i⟩).frame

namespace Memory.Reaches

variable {m m' : Memory} {root f : Frame} {h : Nat}

lemma height_le (hr : m.Reaches root h f) : h ≤ rootHeight := by
  induction hr with
  | root => exact Nat.le_refl _
  | down _ _ ih => exact Nat.le_of_succ_le ih

/-- A table that can be reached is the root or linked from one that can be reached. -/
lemma eq_root_or_linked (hr : m.Reaches root h f) : h = rootHeight ∧ f = root ∨
    ∃ x, m.Reaches root (h + 1) x.table ∧ (m.entry x).isTable = true ∧ (m.entry x).frame = f := by
  cases hr with
  | root => exact .inl ⟨rfl, rfl⟩
  | @down _ t i ht htable => exact .inr ⟨⟨t, i⟩, ht, htable, rfl⟩

/-- From a root without links nothing can be reached but itself. -/
lemma eq_root (hr : m.Reaches root h f) (hnone : ∀ i, (m.entry ⟨root, i⟩).isTable = false) :
    h = rootHeight ∧ f = root := by
  induction hr with
  | root => exact ⟨rfl, rfl⟩
  | @down h t i _ htable ih =>
      obtain ⟨-, rfl⟩ := ih
      rw [hnone] at htable
      cases htable

/-- The same tables can be reached where those that could be reached have the same entries. -/
lemma congr (hr : m.Reaches root h f)
    (hsame : ∀ k t i, m.Reaches root k t → m'.entry ⟨t, i⟩ = m.entry ⟨t, i⟩) :
    m'.Reaches root h f := by
  induction hr with
  | root => exact .root
  | @down h t i ht htable ih =>
      rw [← hsame (h + 1) t i ht] at htable ⊢
      exact .down ih htable

end Memory.Reaches

/-- The table that an address leads to can be reached. -/
lemma Outline.Leads.reaches {m : Memory} {root f : Frame} {va : VirtAddr} {holders : List Slot}
    {h : Nat} (hl : m.outline.Leads root va holders f h) : m.Reaches root h f := by
  induction hl with
  | root => exact .root
  | down _ htable ih =>
      rw [Memory.outline_apply, Entry.outline_frame]
      exact .down ih (by simpa using htable)

/-- A table that can be reached is on the chart. -/
lemma Chart.Fits.height_of_reaches {C : Chart} {m : Memory} {root f : Frame} {h : Nat}
    (hfit : C.Fits m.outline) (hroot : C.IsRoot root) (hr : m.Reaches root h f) :
    C.height f = some h := by
  induction hr with
  | root => exact hroot
  | @down h t i _ htable ih =>
      rw [← Entry.outline_frame]
      exact hfit.child (s := ⟨t, i⟩) ⟨⟨h, ih⟩, by simpa using htable, rfl⟩ ih

/-- Where every table is linked once, it can be reached from one root only. -/
lemma Chart.Fits.root_unique {C : Chart} {m : Memory} {root root' f : Frame} {h k : Nat}
    (hfit : C.Fits m.outline) (hlending : ¬ C.lending) (honce : C.BorrowsOnce m.outline)
    (hroot : C.IsRoot root) (hroot' : C.IsRoot root') (hr : m.Reaches root h f)
    (hr' : m.Reaches root' k f) : root = root' := by
  have hlinks : ∀ {root h t i}, C.IsRoot root → m.Reaches root (h + 1) t →
      (m.entry ⟨t, i⟩).isTable = true → C.Links m.outline ⟨t, i⟩ (m.entry ⟨t, i⟩).frame :=
    fun hroot ht htable =>
      ⟨⟨_, hfit.height_of_reaches hroot ht⟩, by simpa using htable, by simp⟩
  induction hr generalizing k with
  | root =>
      rcases hr'.eq_root_or_linked with ⟨-, heq⟩ | ⟨⟨t, i⟩, ht, htable, hframe⟩
      · exact heq
      · exact absurd hroot (hframe ▸ hfit.not_isRoot (hlinks hroot' ht htable))
  | @down h t i ht htable ih =>
      have hl := hlinks hroot ht htable
      rcases hr'.eq_root_or_linked with ⟨-, heq⟩ | ⟨⟨t', i'⟩, ht', htable', hframe⟩
      · exact absurd hroot' (heq ▸ hfit.not_isRoot hl)
      · have hl' := hlinks hroot' ht' htable'
        rw [hframe] at hl'
        cases hfit.links_once hlending honce hl hl'
        exact ih ht'

/-! ## Order -/

namespace Space

variable {A : Type} [FrameSource A] [LawfulSource A]

/-- A slot of a table that can be reached links a table that the kernel owns. -/
structure Owns (m : Memory) (root : Frame) (h : Nat) (slot : Slot) : Prop where
  reaches : m.Reaches root (h + 1) slot.table
  isTable : (m.entry slot).isTable = true
  owned : (m.entry slot).owned = true

/-- **The tables of an address space are consistent**: what can be reached is a tree as far as the
kernel owns it, and is counted right.  Owned tables may be empty, and nothing is said of what stands
in entries that are not present. -/
structure Consistent (m : Memory) (root : Frame) : Prop where
  /-- No frame serves as tables of two heights. -/
  height {h k : Nat} {t : Frame} : m.Reaches root h t → m.Reaches root k t → h = k
  /-- An owned table is linked once. -/
  sole {h k : Nat} {x y : Slot} : Owns m root h x → m.Reaches root (k + 1) y.table →
    (m.entry y).isTable = true → (m.entry y).frame = (m.entry x).frame → y = x
  /-- An owned table is counted right. -/
  counted {h : Nat} {x : Slot} : Owns m root h x → (m.entry x).liveChildren.val =
    (PageTable.ofWords (m.words (m.entry x).frame)).presentCount
  /-- The tables can be used. -/
  shown {h : Nat} {t : Frame} : m.Reaches root h t → m.Shows t

/-- **Consistent tables, and a source that knows of them** as much as it should. -/
structure Coherent (s : Store A) (root : Frame) : Prop extends Consistent s.memory root where
  /-- No table is free. -/
  notFree {h : Nat} {t : Frame} : s.memory.Reaches root h t → t ∉ freeFrames s
  /-- No table holds the books of the source. -/
  notBooks {h : Nat} {t : Frame} : s.memory.Reaches root h t → ¬ Books s.source t
  /-- Owned tables were handed out and not given back. -/
  held : ∃ held, Holds s held ∧ ∀ h x, Owns s.memory root h x → (s.memory.entry x).frame ∈ held

/-- **The tables of an address space are in order.** -/
structure Orderly (s : Store A) (root : Frame) : Prop where
  /-- No frame serves as tables of two heights. -/
  height {h k : Nat} {t : Frame} : s.memory.Reaches root h t → s.memory.Reaches root k t → h = k
  /-- An owned table is linked once. -/
  sole {h k : Nat} {x y : Slot} : Owns s.memory root h x → s.memory.Reaches root (k + 1) y.table →
    (s.memory.entry y).isTable = true → (s.memory.entry y).frame = (s.memory.entry x).frame → y = x
  /-- An owned table is counted right. -/
  counted {h : Nat} {x : Slot} : Owns s.memory root h x → (s.memory.entry x).liveChildren.val =
    (PageTable.ofWords (s.memory.words (s.memory.entry x).frame)).presentCount
  /-- No owned table above the lowest level is empty. -/
  busy {h : Nat} {x : Slot} : Owns s.memory root (h + 1) x → (s.memory.entry x).liveChildren.val ≠ 0
  /-- Entries that are not present are zero. -/
  unused {h : Nat} {x : Slot} : s.memory.Reaches root h x.table →
    (s.memory.entry x).present = false → s.memory.word x = 0
  /-- The tables can be used. -/
  shown {h : Nat} {t : Frame} : s.memory.Reaches root h t → s.memory.Shows t
  /-- No table is free. -/
  notFree {h : Nat} {t : Frame} : s.memory.Reaches root h t → t ∉ freeFrames s
  /-- No table holds the books of the source. -/
  notBooks {h : Nat} {t : Frame} : s.memory.Reaches root h t → ¬ Books s.source t
  /-- Owned tables were handed out and not given back. -/
  held : ∃ held, Holds s held ∧ ∀ h x, Owns s.memory root h x → (s.memory.entry x).frame ∈ held

variable {C : Chart} {m : Memory} {s : Store A} {root f : Frame} {h : Nat} {x : Slot}

/-! ### From charts to order -/

lemma Owns.links (hfit : C.Fits m.outline) (hroot : C.IsRoot root) (hx : Owns m root h x) :
    C.Links m.outline x (m.entry x).frame ∧ (m.outline x).owned = true ∧
      C.height x.table = some (h + 1) := by
  have hheight := hfit.height_of_reaches hroot hx.reaches
  exact ⟨⟨⟨h, hheight⟩, by simpa using hx.isTable, Entry.outline_frame⟩, by simpa using hx.owned,
    hheight⟩

/-- **Tables with a sound chart are in order**, if no root lends its tables. -/
theorem orderly_of_sound (hs : C.Sound s) (hroot : C.IsRoot root) (hlending : ¬ C.lending) :
    Orderly s root := by
  have hd := hs.describes
  have hfit := hd.fits
  have hisTable : ∀ {h t}, s.memory.Reaches root h t → C.IsTable t := fun hr =>
    ⟨_, hfit.height_of_reaches hroot hr⟩
  constructor
  case height =>
    intro h k t hr hr'
    have hheight := hfit.height_of_reaches hroot hr
    rw [hfit.height_of_reaches hroot hr', Option.some.injEq] at hheight
    exact hheight.symm
  case sole =>
    intro h k x y hx hr htable hframe
    obtain ⟨hl, howned, -⟩ := hx.links hfit hroot
    have hl' : C.Links s.memory.outline y (s.memory.entry x).frame :=
      ⟨⟨k, hfit.height_of_reaches hroot hr⟩, by simpa using htable, by simpa using hframe⟩
    exact hfit.eq_of_links hl howned (fun hlends => hlending hlends.1) hl'
  case counted =>
    intro h x hx
    obtain ⟨hl, howned, -⟩ := hx.links hfit hroot
    rw [Outline.presentCount_ofWords]
    exact hd.counted x _ hl howned fun hlends => hlending hlends.1
  case busy =>
    intro h x hx hzero
    obtain ⟨hl, howned, hheight⟩ := hx.links hfit hroot
    have hpos : 0 < h + 1 := Nat.succ_pos h
    exact absurd (hs.busy x _ _ hl howned (hfit.child hl hheight) (.inl hpos) hzero) (by simp)
  case unused =>
    intro h x hr habsent
    have hzero := hfit.unused (s := x) hs.clean (hisTable hr) (by simpa using habsent)
    rw [Memory.outline_apply, Entry.outline_eq_absent] at hzero
    rw [← Entry.toWord_ofWord (s.memory.word x)]
    exact congrArg Entry.toWord hzero
  case shown => exact fun hr => hd.shown (hisTable hr)
  case notFree => exact fun hr => hd.notFree (hisTable hr)
  case notBooks => exact fun hr => hd.notBooks (hisTable hr)
  case held =>
    obtain ⟨held, hheld, hmem⟩ := hd.held
    refine ⟨held, hheld, fun h x hx => ?_⟩
    obtain ⟨hl, howned, -⟩ := hx.links hfit hroot
    exact hmem _ (hfit.isTable_of_links hl) (hfit.ours hl howned)

/-! ### From order to charts -/

open Classical in
/-- **The chart of the tables that can be reached** from a root.  Those that no entry owns are
foreign. -/
noncomputable def chartOf (m : Memory) (root : Frame) : Chart where
  height f := if hr : ∃ h, m.Reaches root h f then some hr.choose else none
  foreign f := (∃ h, m.Reaches root h f) ∧ ∀ h x, Owns m root h x → (m.entry x).frame ≠ f
  lending := False
  tidy := False
  clean := True

lemma reaches_of_height (hf : (chartOf m root).height f = some h) : m.Reaches root h f := by
  rw [chartOf] at hf
  simp only at hf
  split at hf
  case isTrue hr =>
    obtain rfl := Option.some.inj hf
    exact hr.choose_spec
  case isFalse => cases hf

lemma height_of_reaches (hunique : ∀ {k}, m.Reaches root k f → k = h)
    (hr : m.Reaches root h f) : (chartOf m root).height f = some h := by
  have hex : ∃ k, m.Reaches root k f := ⟨h, hr⟩
  rw [chartOf]
  simp only [dif_pos hex]
  rw [hunique hex.choose_spec]

/-- An owned link of the chart is one of a table that can be reached. -/
lemma owns_of_links (hl : (chartOf m root).Links m.outline x f)
    (howned : (m.outline x).owned = true) :
    ∃ k, (chartOf m root).height x.table = some (k + 1) ∧ Owns m root k x ∧
      (m.entry x).frame = f := by
  obtain ⟨k, hk⟩ := hl.inner
  exact ⟨k, hk, ⟨reaches_of_height hk, by simpa using hl.isTable, by simpa using howned⟩,
    by simpa using hl.frame⟩

/-- **Consistent tables are described by their chart**, on which nothing needs to be known of
entries that are not present. -/
theorem Coherent.describes {clean : Prop} (hc : Coherent s root)
    (hunused : clean → ∀ {h x}, s.memory.Reaches root h x.table →
      (s.memory.entry x).present = false → s.memory.word x = 0) :
    Chart.Describes { chartOf s.memory root with clean } s := by
  have hreaches : ∀ {f}, (chartOf s.memory root).IsTable f → ∃ h, s.memory.Reaches root h f :=
    fun ⟨h, hf⟩ => ⟨h, reaches_of_height hf⟩
  have hheight : ∀ {h f}, s.memory.Reaches root h f →
      (chartOf s.memory root).height f = some h :=
    fun hr => height_of_reaches (fun hk => hc.height hk hr) hr
  constructor
  case fits =>
    constructor
    case height_le => exact fun hf => (reaches_of_height hf).height_le
    case child =>
      intro x f h hl hx
      have hframe : (s.memory.entry x).frame = f := by simpa using hl.frame
      rw [← hframe]
      exact hheight (.down (i := x.index) (reaches_of_height hx) (by simpa using hl.isTable))
    case sole =>
      intro x y f hl howned hl'
      obtain ⟨k, -, hx, hframe⟩ := owns_of_links ⟨hl.inner, hl.isTable, hl.frame⟩ howned
      obtain ⟨j, hj⟩ := hl'.inner
      refine .inl (hc.sole hx (reaches_of_height hj) (by simpa using hl'.isTable) ?_)
      rw [hframe]
      simpa using hl'.frame
    case known =>
      rintro f ⟨⟨h, hr⟩, -⟩
      exact ⟨h, hheight hr⟩
    case ours =>
      rintro x f hl howned ⟨-, hnone⟩
      obtain ⟨k, -, hx, hframe⟩ := owns_of_links ⟨hl.inner, hl.isTable, hl.frame⟩ howned
      exact hnone k x hx hframe
    case unused =>
      intro x hclean hx habsent
      obtain ⟨h, hr⟩ := hreaches hx
      rw [Memory.outline_apply, Entry.outline_eq_absent, Memory.entry,
        hunused hclean hr (by simpa using habsent)]
      rfl
    case inner => exact fun htidy => htidy.elim
    case leaf => exact fun htidy => htidy.elim
  case counted =>
    intro x f hl howned _
    obtain ⟨k, -, hx, rfl⟩ := owns_of_links ⟨hl.inner, hl.isTable, hl.frame⟩ howned
    rw [← Outline.presentCount_ofWords]
    exact hc.counted hx
  case shown => exact fun hf => hc.shown (hreaches hf).choose_spec
  case notFree => exact fun hf => hc.notFree (hreaches hf).choose_spec
  case notBooks => exact fun hf => hc.notBooks (hreaches hf).choose_spec
  case held =>
    obtain ⟨held, hheld, hmem⟩ := hc.held
    refine ⟨held, hheld, fun f hf hours => ?_⟩
    by_contra hnot
    refine hours ⟨hreaches hf, fun h x hx hframe => hnot ?_⟩
    rw [← hframe]
    exact hmem h x hx

namespace Orderly

lemma coherent (ho : Orderly s root) : Coherent s root :=
  ⟨⟨ho.height, ho.sole, ho.counted, ho.shown⟩, ho.notFree, ho.notBooks, ho.held⟩

lemma height_eq (ho : Orderly s root) (hr : s.memory.Reaches root h f) :
    (chartOf s.memory root).height f = some h :=
  height_of_reaches (fun hk => ho.height hk hr) hr

lemma isRoot (ho : Orderly s root) : (chartOf s.memory root).IsRoot root :=
  ho.height_eq .root

/-- **Tables that are in order have a sound chart.** -/
theorem sound (ho : Orderly s root) : (chartOf s.memory root).Sound s := by
  have hd : (chartOf s.memory root).Describes s := ho.coherent.describes fun _ => ho.unused
  refine ⟨⟨hd, ?_⟩, trivial⟩
  intro x f k hl howned hf hk hzero
  obtain ⟨j, hj, hx, rfl⟩ := owns_of_links hl howned
  obtain rfl : j = k := Option.some.inj ((hd.fits.child hl hj).symm.trans hf)
  obtain ⟨i, rfl⟩ := Nat.exists_eq_succ_of_ne_zero (Nat.ne_of_gt (hk.resolve_right id))
  exact absurd hzero (ho.busy hx)

end Orderly

/-- **The tables of a root are in order** if some chart is sound on which no root lends its tables.
-/
theorem orderly_iff :
    Orderly s root ↔ ∃ C : Chart, C.Sound s ∧ C.IsRoot root ∧ ¬ C.lending :=
  ⟨fun ho => ⟨chartOf s.memory root, ho.sound, ho.isRoot, id⟩,
    fun ⟨_, hs, hroot, hlending⟩ => orderly_of_sound hs hroot hlending⟩

/-! ## Tables that are linked once -/

/-- **The tables of an address space are in order, and each is linked once**, whether the kernel
owns it or not: no two addresses of different pages share an entry. -/
structure WellFormed (s : Store A) (root : Frame) : Prop extends Orderly s root where
  once {h k : Nat} {x y : Slot} : s.memory.Reaches root (h + 1) x.table →
    s.memory.Reaches root (k + 1) y.table → (s.memory.entry x).isTable = true →
    (s.memory.entry y).isTable = true → (s.memory.entry y).frame = (s.memory.entry x).frame → y = x

/-- The tables of a root are well-formed if some chart is sound on which every table is linked once.
-/
lemma wellFormed_iff : WellFormed s root ↔ ∃ C : Chart, C.Sound s ∧ C.IsRoot root ∧
    ¬ C.lending ∧ C.BorrowsOnce s.memory.outline := by
  constructor
  · intro hw
    refine ⟨chartOf s.memory root, hw.sound, hw.isRoot, id, ?_⟩
    rintro x y f ⟨hx, -⟩ ⟨hy, -⟩
    obtain ⟨h, hh⟩ := hx.inner
    obtain ⟨k, hk⟩ := hy.inner
    refine hw.once (reaches_of_height hh) (reaches_of_height hk) (by simpa using hx.isTable)
      (by simpa using hy.isTable) ?_
    have hframe := hy.frame.trans hx.frame.symm
    simpa using hframe
  · rintro ⟨C, hs, hroot, hlending, honce⟩
    have hfit := hs.describes.fits
    refine ⟨orderly_of_sound hs hroot hlending, fun {h k x y} hr hr' htable htable' hframe => ?_⟩
    have hx : C.Links s.memory.outline x (s.memory.entry x).frame :=
      ⟨⟨h, hfit.height_of_reaches hroot hr⟩, by simpa using htable, Entry.outline_frame⟩
    have hy : C.Links s.memory.outline y (s.memory.entry x).frame :=
      ⟨⟨k, hfit.height_of_reaches hroot hr'⟩, by simpa using htable', by simpa using hframe⟩
    exact hfit.links_once hlending honce hx hy

end Space

end KernelMemory
