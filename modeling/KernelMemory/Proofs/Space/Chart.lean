import KernelMemory.Proofs.Space.Outline

/-!
# Charts of page tables

A `Chart` says which frames hold page tables, and of which height.  That a chart fits an outline is
the invariant of the memory manager as far as links go: a link leads one level down, and a table
that the kernel owns is linked from one slot only.  One exception is made, for roots that lend the
tables of their kernel half to other roots.

* `Chart.Fits` — the links are as the chart says.
* **`Fits.write`**, **`Fits.add`**, **`Fits.drop`** — what may be done to an outline and its chart:
  an entry is written, a blank table comes, a table that nothing links goes.
* `Chart.BorrowsOnce` — no table that the kernel does not own is linked from two slots.
* **`Fits.index_eq`** — where every table is linked once, two addresses come to one table by the
  same way.
-/

namespace KernelMemory

/-- Which frames hold page tables, and what may be expected of them. -/
structure Chart where
  /-- The height of the table that a frame holds, if it holds one. -/
  height : Frame → Option Nat
  /-- The tables that were not allocated by the kernel and are never given back. -/
  foreign : Frame → Prop
  /-- Roots may link tables that another root owns. -/
  lending : Prop
  /-- Every present entry was written by the kernel. -/
  tidy : Prop
  /-- Nothing stands in unused slots. -/
  clean : Prop

/-- What the kernel writes for a page: nothing but the frame and the caller's flags. -/
structure Entry.IsPlain (e : Entry) : Prop where
  owned : e.owned = false
  huge : e.huge = false
  available : e.available = 0
  liveChildren : e.liveChildren = 0

namespace Chart

variable {C : Chart} {o o' : Outline} {n n' : Slot → Nat} {e : Entry} {s t x : Slot}
  {f g root : Frame} {va va' : VirtAddr} {h k : Nat} {holders holders' : List Slot}

/-- The frame holds a table. -/
def IsTable (C : Chart) (f : Frame) : Prop :=
  ∃ h, C.height f = some h

/-- The frame holds a root table. -/
def IsRoot (C : Chart) (f : Frame) : Prop :=
  C.height f = some rootHeight

/-- A slot of a table above the lowest level links a frame. -/
structure Links (C : Chart) (o : Outline) (s : Slot) (f : Frame) : Prop where
  inner : ∃ h, C.height s.table = some (h + 1)
  isTable : (o s).isTable = true
  frame : (o s).frame = f

/-- A slot links a table without owning it. -/
def Borrows (C : Chart) (o : Outline) (x : Slot) (f : Frame) : Prop :=
  C.Links o x f ∧ (o x).owned = false

/-- **No table is borrowed from two slots.** -/
def BorrowsOnce (C : Chart) (o : Outline) : Prop :=
  ∀ x y f, C.Borrows o x f → C.Borrows o y f → y = x

/-- The slot may have its table linked by other roots too. -/
def Lends (C : Chart) (s : Slot) : Prop :=
  C.lending ∧ C.IsRoot s.table

/-- **The links of an outline are as a chart says.** -/
structure Fits (C : Chart) (o : Outline) : Prop where
  /-- No table is higher than a root. -/
  height_le {f : Frame} {h : Nat} : C.height f = some h → h ≤ rootHeight
  /-- A link leads one level down. -/
  child {s : Slot} {f : Frame} {h : Nat} : C.Links o s f → C.height s.table = some (h + 1) →
    C.height f = some h
  /-- An owned table is linked once, unless a root lends it to the same place of other roots. -/
  sole {s t : Slot} {f : Frame} : C.Links o s f → (o s).owned = true → C.Links o t f →
    t = s ∨ C.Lends s ∧ C.Lends t ∧ (o t).owned = false ∧ t.index = s.index
  /-- Only tables are foreign. -/
  known {f : Frame} : C.foreign f → C.IsTable f
  /-- An owned table was allocated by the kernel. -/
  ours {s : Slot} {f : Frame} : C.Links o s f → (o s).owned = true → ¬ C.foreign f
  /-- Nothing stands in an unused slot. -/
  unused {s : Slot} : C.clean → C.IsTable s.table → (o s).present = false → o s = .absent
  /-- Above the lowest level the kernel writes nothing but links. -/
  inner {s : Slot} {h : Nat} : C.tidy → C.height s.table = some (h + 1) → (o s).present = true →
    (o s).isTable = true ∧ ((o s).owned = true ∨ C.Lends s)
  /-- At the lowest level the kernel writes nothing but pages. -/
  leaf {s : Slot} : C.tidy → C.height s.table = some 0 → (o s).present = true → (o s).IsPlain

/-- **The outline of the tables is kept**, except that slots that were unused may be empty now. -/
def Keeps (C : Chart) (o o' : Outline) : Prop :=
  ∀ s, C.IsTable s.table → o' s = o s ∨ (o s).present = false ∧ o' s = .absent

/-- The chart with one more table. -/
def add (C : Chart) (f : Frame) (h : Nat) : Chart :=
  { C with height := Function.update C.height f (some h) }

/-- The chart with one table less. -/
def drop (C : Chart) (f : Frame) : Chart :=
  { C with height := Function.update C.height f none }

@[simp] lemma height_add_self : (C.add f h).height f = some h := by simp [add]

lemma height_add_of_ne (hne : g ≠ f) : (C.add f h).height g = C.height g :=
  Function.update_of_ne hne _ _

@[simp] lemma height_drop_self : (C.drop f).height f = none := by simp [drop]

lemma height_drop_of_ne (hne : g ≠ f) : (C.drop f).height g = C.height g :=
  Function.update_of_ne hne _ _

lemma height_of_drop (hg : (C.drop f).height g = some h) : g ≠ f ∧ C.height g = some h := by
  rcases eq_or_ne g f with rfl | hne
  · simp at hg
  · exact ⟨hne, height_drop_of_ne hne ▸ hg⟩

lemma isTable_drop : (C.drop f).IsTable g ↔ g ≠ f ∧ C.IsTable g := by
  constructor
  · rintro ⟨k, hk⟩
    exact ⟨(height_of_drop hk).1, k, (height_of_drop hk).2⟩
  · rintro ⟨hne, k, hk⟩
    exact ⟨k, (height_drop_of_ne hne).trans hk⟩

lemma isTable_add : (C.add f h).IsTable g ↔ g = f ∨ C.IsTable g := by
  rcases eq_or_ne g f with rfl | hne
  · exact ⟨fun _ => .inl rfl, fun _ => ⟨h, height_add_self⟩⟩
  · rw [IsTable, IsTable, height_add_of_ne hne, or_iff_right hne]

lemma isRoot_add : (C.add f rootHeight).IsRoot g ↔ g = f ∨ C.IsRoot g := by
  rcases eq_or_ne g f with rfl | hne
  · exact ⟨fun _ => .inl rfl, fun _ => height_add_self⟩
  · rw [IsRoot, IsRoot, height_add_of_ne hne, or_iff_right hne]

lemma height_add_of_some (hf : C.height f = none) (hg : C.height g = some k) :
    (C.add f h).height g = some k := by
  rw [height_add_of_ne, hg]
  rintro rfl
  simp [hf] at hg

namespace Keeps

lemma of_eq (hsame : ∀ s, C.IsTable s.table → o' s = o s) : C.Keeps o o' :=
  fun s hs => .inl (hsame s hs)

lemma present (hkeeps : C.Keeps o o') (hs : C.IsTable s.table) :
    (o' s).present = (o s).present := by
  rcases hkeeps s hs with heq | ⟨hold, hnew⟩
  · rw [heq]
  · rw [hold, hnew]
    rfl

lemma eq_of_present (hkeeps : C.Keeps o o') (hs : C.IsTable s.table)
    (hpresent : (o' s).present = true) : o' s = o s := by
  refine (hkeeps s hs).resolve_right fun ⟨_, hnew⟩ => ?_
  rw [hnew] at hpresent
  cases hpresent

end Keeps

namespace Links

lemma table (hl : C.Links o s f) : C.IsTable s.table :=
  hl.inner.imp' _ fun _ h => h

lemma congr (hl : C.Links o s f) (hs : o' s = o s) : C.Links o' s f where
  inner := hl.inner
  isTable := hs ▸ hl.isTable
  frame := hs ▸ hl.frame

lemma present (hl : C.Links o s f) : (o s).present = true :=
  Entry.present_of_isTable hl.isTable

lemma unique (hl : C.Links o s f) (hl' : C.Links o s g) : f = g :=
  hl.frame.symm.trans hl'.frame

lemma ne_of_not_present (hl : C.Links o s f) (ht : (o t).present = false) : s ≠ t := by
  rintro rfl
  rw [hl.present] at ht
  cases ht

/-- The links are kept with the outline. -/
lemma keeps_iff (hkeeps : C.Keeps o o') : C.Links o' s f ↔ C.Links o s f ∧ o' s = o s := by
  constructor
  · intro hl
    have heq := hkeeps.eq_of_present hl.table hl.present
    exact ⟨hl.congr heq.symm, heq⟩
  · rintro ⟨hl, heq⟩
    exact hl.congr heq

lemma keeps (hl : C.Links o s f) (hkeeps : C.Keeps o o') : C.Links o' s f ∧ o' s = o s := by
  have heq := hkeeps.eq_of_present hl.table ((hkeeps.present hl.table).trans hl.present)
  exact ⟨hl.congr heq, heq⟩

end Links

namespace Fits

/-! ### Consequences -/

lemma isTable_of_links (hfit : C.Fits o) (hl : C.Links o s f) : C.IsTable f := by
  obtain ⟨h, hs⟩ := hl.inner
  exact ⟨h, hfit.child hl hs⟩

/-- No slot links a root. -/
lemma not_isRoot (hfit : C.Fits o) (hl : C.Links o s f) : ¬ C.IsRoot f := by
  intro hroot
  obtain ⟨h, hs⟩ := hl.inner
  have hle := hfit.height_le hs
  have heq := hroot.symm.trans (hfit.child hl hs)
  simp only [Option.some.injEq] at heq
  omega

lemma eq_of_links (hfit : C.Fits o) (hl : C.Links o s f) (howned : (o s).owned = true)
    (hlends : ¬ C.Lends s) (hl' : C.Links o t f) : t = s := by
  rcases hfit.sole hl howned hl' with heq | ⟨hs, _⟩
  · exact heq
  · exact absurd hs hlends

/-- Nothing is borrowed where the kernel wrote all entries and no root lends its tables. -/
lemma borrowsOnce (hfit : C.Fits o) (htidy : C.tidy) (hlending : ¬ C.lending) :
    C.BorrowsOnce o := by
  rintro x y f ⟨hx, hunowned⟩ -
  obtain ⟨h, hh⟩ := hx.inner
  rw [(hfit.inner htidy hh hx.present).2.resolve_right fun hlends => hlending hlends.1] at hunowned
  cases hunowned

/-- Every table is linked once, where that is so for those that are borrowed. -/
lemma links_once (hfit : C.Fits o) (hlending : ¬ C.lending) (honce : C.BorrowsOnce o)
    (hs : C.Links o s f) (ht : C.Links o t f) : t = s := by
  have hlends : ∀ {x}, ¬ C.Lends x := fun hx => hlending hx.1
  cases hos : (o s).owned with
  | true => exact hfit.eq_of_links hs hos hlends ht
  | false =>
      cases hot : (o t).owned with
      | true => exact (hfit.eq_of_links ht hot hlends hs).symm
      | false => exact honce s t f ⟨hs, hos⟩ ⟨ht, hot⟩

/-- Only what stands in the tables of the chart matters. -/
lemma congr (hfit : C.Fits o) (hkeeps : C.Keeps o o') : C.Fits o' := by
  constructor
  case height_le => exact hfit.height_le
  case child => exact fun hl hs => hfit.child ((Links.keeps_iff hkeeps).mp hl).1 hs
  case sole =>
    intro s t f hl howned hl'
    obtain ⟨hl, hs⟩ := (Links.keeps_iff hkeeps).mp hl
    obtain ⟨hl', ht⟩ := (Links.keeps_iff hkeeps).mp hl'
    rw [hs] at howned
    rw [ht]
    exact hfit.sole hl howned hl'
  case known => exact hfit.known
  case ours =>
    intro s f hl howned
    obtain ⟨hl, hs⟩ := (Links.keeps_iff hkeeps).mp hl
    rw [hs] at howned
    exact hfit.ours hl howned
  case unused =>
    intro s hclean hs habsent
    rcases hkeeps s hs with heq | ⟨-, hnew⟩
    · rw [heq] at habsent ⊢
      exact hfit.unused hclean hs habsent
    · exact hnew
  case inner =>
    intro s h htidy hs hpresent
    have heq := hkeeps.eq_of_present ⟨_, hs⟩ hpresent
    rw [heq] at hpresent ⊢
    exact hfit.inner htidy hs hpresent
  case leaf =>
    intro s htidy hs hpresent
    have heq := hkeeps.eq_of_present ⟨_, hs⟩ hpresent
    rw [heq] at hpresent ⊢
    exact hfit.leaf htidy hs hpresent

end Fits

/-! ### Writing an entry -/

/-- An entry that may be written to a slot without a change of the chart. -/
structure CanWrite (C : Chart) (o : Outline) (s : Slot) (e : Entry) : Prop where
  unused : e.present = false → e = .absent
  child {k : Nat} : C.height s.table = some (k + 1) → e.isTable = true → C.height e.frame = some k
  ours {k : Nat} : C.height s.table = some (k + 1) → e.isTable = true → e.owned = true →
    ¬ C.foreign e.frame
  sole {t : Slot} {k : Nat} : C.height s.table = some (k + 1) → e.isTable = true → t ≠ s →
    C.Links o t e.frame → e.owned = false ∧
      ((o t).owned = true → C.Lends t ∧ C.Lends s ∧ s.index = t.index)
  inner {k : Nat} : C.tidy → C.height s.table = some (k + 1) → e.present = true →
    e.isTable = true ∧ (e.owned = true ∨ C.Lends s)
  leaf : C.tidy → C.height s.table = some 0 → e.present = true → e.IsPlain

/-- The links after a write. -/
lemma links_update (hl : C.Links (Function.update o s e) x g) :
    x = s ∧ (∃ k, C.height s.table = some (k + 1)) ∧ e.isTable = true ∧ e.frame = g ∨
      x ≠ s ∧ C.Links o x g := by
  rcases eq_or_ne x s with rfl | hxs
  · have htable := hl.isTable
    have hframe := hl.frame
    rw [Function.update_self] at htable hframe
    exact .inl ⟨rfl, hl.inner, htable, hframe⟩
  · exact .inr ⟨hxs, hl.congr (Function.update_of_ne hxs _ _).symm⟩

lemma Links.update_of_ne (hl : C.Links o x g) (hxs : x ≠ s) :
    C.Links (Function.update o s e) x g :=
  hl.congr (Function.update_of_ne hxs _ _)

/-- **A write that is allowed keeps the chart.** -/
theorem Fits.write (hfit : C.Fits o) (hcan : C.CanWrite o s e) :
    C.Fits (Function.update o s e) := by
  constructor
  case height_le => exact hfit.height_le
  case child =>
    intro x g k hl hx
    rcases links_update hl with ⟨rfl, -, htable, rfl⟩ | ⟨-, hl⟩
    · exact hcan.child hx htable
    · exact hfit.child hl hx
  case sole =>
    intro x y g hl howned hl'
    rcases links_update hl with ⟨rfl, ⟨k, hk⟩, htable, rfl⟩ | ⟨hxs, hx⟩ <;>
      rcases links_update hl' with ⟨rfl, ⟨k', hk'⟩, htable', hg⟩ | ⟨hys, hy⟩
    · exact .inl rfl
    · rw [Function.update_self, (hcan.sole hk htable hys hy).1] at howned
      cases howned
    · subst hg
      rw [Function.update_of_ne hxs] at howned
      rw [Function.update_self]
      obtain ⟨hunowned, hlends⟩ := hcan.sole hk' htable' hxs hx
      obtain ⟨hlx, hly, hindex⟩ := hlends howned
      exact .inr ⟨hlx, hly, hunowned, hindex⟩
    · rw [Function.update_of_ne hxs] at howned
      rw [Function.update_of_ne hys]
      exact hfit.sole hx howned hy
  case known => exact hfit.known
  case ours =>
    intro x g hl howned
    rcases links_update hl with ⟨rfl, ⟨k, hk⟩, htable, rfl⟩ | ⟨hxs, hl⟩
    · rw [Function.update_self] at howned
      exact hcan.ours hk htable howned
    · rw [Function.update_of_ne hxs] at howned
      exact hfit.ours hl howned
  case unused =>
    intro x hclean hx habsent
    rcases eq_or_ne x s with rfl | hxs
    · rw [Function.update_self] at habsent ⊢
      exact hcan.unused habsent
    · rw [Function.update_of_ne hxs] at habsent ⊢
      exact hfit.unused hclean hx habsent
  case inner =>
    intro x k htidy hx hpresent
    rcases eq_or_ne x s with rfl | hxs
    · rw [Function.update_self] at hpresent ⊢
      exact hcan.inner htidy hx hpresent
    · rw [Function.update_of_ne hxs] at hpresent ⊢
      exact hfit.inner htidy hx hpresent
  case leaf =>
    intro x htidy hx hpresent
    rcases eq_or_ne x s with rfl | hxs
    · rw [Function.update_self] at hpresent ⊢
      exact hcan.leaf htidy hx hpresent
    · rw [Function.update_of_ne hxs] at hpresent ⊢
      exact hfit.leaf htidy hx hpresent

/-- A slot may always be emptied. -/
lemma canWrite_absent : C.CanWrite o s .absent where
  unused _ := rfl
  child _ htable := by cases htable
  ours _ htable := by cases htable
  sole _ htable := by cases htable
  inner _ _ hpresent := by cases hpresent
  leaf _ _ hpresent := by cases hpresent

/-! ### Tables that come and go -/

/-- A blank table that is put on the chart adds no link. -/
lemma links_add (hf : C.height f = none) (hblank : o.Blank f) :
    (C.add f h).Links o x g ↔ C.Links o x g := by
  constructor
  · intro hl
    have hne : x.table ≠ f := by
      intro heq
      have hpresent := hl.present
      rw [show x = ⟨f, x.index⟩ from Slot.ext heq rfl, hblank] at hpresent
      cases hpresent
    obtain ⟨k, hk⟩ := hl.inner
    rw [height_add_of_ne hne] at hk
    exact ⟨⟨k, hk⟩, hl.isTable, hl.frame⟩
  · intro hl
    obtain ⟨k, hk⟩ := hl.inner
    exact ⟨⟨k, height_add_of_some hf hk⟩, hl.isTable, hl.frame⟩

/-- A table that is taken off the chart takes its links with it. -/
lemma links_drop : (C.drop f).Links o x g ↔ C.Links o x g ∧ x.table ≠ f := by
  constructor
  · intro hl
    obtain ⟨k, hk⟩ := hl.inner
    obtain ⟨hne, hk⟩ := height_of_drop hk
    exact ⟨⟨⟨k, hk⟩, hl.isTable, hl.frame⟩, hne⟩
  · rintro ⟨hl, hne⟩
    refine ⟨?_, hl.isTable, hl.frame⟩
    rw [height_drop_of_ne hne]
    exact hl.inner

/-- **A blank table may be put on the chart.** -/
theorem Fits.add (hfit : C.Fits o) (hf : C.height f = none) (hblank : o.Blank f)
    (hh : h ≤ rootHeight) : (C.add f h).Fits o := by
  have hlends : ∀ {x}, C.Lends x → (C.add f h).Lends x := fun {x} ⟨hlending, hroot⟩ =>
    ⟨hlending, height_add_of_some hf hroot⟩
  -- A slot of the new table is unused, so that nothing needs to be said about its entry.
  have hold : ∀ {x k}, (C.add f h).height x.table = some k →
      C.height x.table = some k ∨ o x = .absent := by
    intro x k hx
    rcases eq_or_ne x.table f with heq | hne
    · exact .inr (by rw [show x = ⟨f, x.index⟩ from Slot.ext heq rfl, hblank])
    · exact .inl (height_add_of_ne hne ▸ hx)
  constructor
  case height_le =>
    intro g k hg
    rcases eq_or_ne g f with rfl | hne
    · rw [height_add_self, Option.some.injEq] at hg
      omega
    · rw [height_add_of_ne hne] at hg
      exact hfit.height_le hg
  case child =>
    intro x g k hl hx
    have hl := (links_add hf hblank).mp hl
    obtain ⟨j, hj⟩ := hl.inner
    rw [height_add_of_some hf hj] at hx
    exact height_add_of_some hf (hfit.child hl (hj.trans hx))
  case sole =>
    intro x y g hl howned hl'
    rcases hfit.sole ((links_add hf hblank).mp hl) howned ((links_add hf hblank).mp hl') with
      heq | ⟨hx, hy, hrest⟩
    · exact .inl heq
    · exact .inr ⟨hlends hx, hlends hy, hrest⟩
  case known =>
    intro g hg
    obtain ⟨k, hk⟩ := hfit.known hg
    exact ⟨k, height_add_of_some hf hk⟩
  case ours => exact fun hl => hfit.ours ((links_add hf hblank).mp hl)
  case unused =>
    rintro x hclean ⟨k, hx⟩ habsent
    rcases hold hx with hx | hx
    · exact hfit.unused hclean ⟨k, hx⟩ habsent
    · exact hx
  case inner =>
    intro x k htidy hx hpresent
    rcases hold hx with hx | hx
    · obtain ⟨htable, howned | hx⟩ := hfit.inner htidy hx hpresent
      · exact ⟨htable, .inl howned⟩
      · exact ⟨htable, .inr (hlends hx)⟩
    · rw [hx] at hpresent
      cases hpresent
  case leaf =>
    intro x htidy hx hpresent
    rcases hold hx with hx | hx
    · exact hfit.leaf htidy hx hpresent
    · rw [hx] at hpresent
      cases hpresent

/-- **A table that nothing links may be taken off the chart**, if the kernel allocated it. -/
theorem Fits.drop (hfit : C.Fits o) (hfree : ∀ t, ¬ C.Links o t f) (hours : ¬ C.foreign f) :
    (C.drop f).Fits o := by
  have hlends : ∀ {x g}, (C.drop f).Links o x g → C.Lends x → (C.drop f).Lends x :=
    fun {x g} hl ⟨hlending, hroot⟩ =>
      ⟨hlending, (height_drop_of_ne (links_drop.mp hl).2).trans hroot⟩
  constructor
  case height_le => exact fun hg => hfit.height_le (height_of_drop hg).2
  case child =>
    intro x g k hl hx
    have hold := (links_drop.mp hl).1
    have hgf : g ≠ f := by
      rintro rfl
      exact hfree x hold
    rw [height_drop_of_ne hgf]
    exact hfit.child hold (height_of_drop hx).2
  case sole =>
    intro x y g hl howned hl'
    rcases hfit.sole (links_drop.mp hl).1 howned (links_drop.mp hl').1 with heq | ⟨hx, hy, hrest⟩
    · exact .inl heq
    · exact .inr ⟨hlends hl hx, hlends hl' hy, hrest⟩
  case known =>
    intro g hg
    obtain ⟨k, hk⟩ := hfit.known hg
    have hne : g ≠ f := by
      rintro rfl
      exact hours hg
    exact ⟨k, (height_drop_of_ne hne).trans hk⟩
  case ours => exact fun hl => hfit.ours (links_drop.mp hl).1
  case unused => exact fun hclean ⟨k, hx⟩ => hfit.unused hclean ⟨k, (height_of_drop hx).2⟩
  case inner =>
    intro x k htidy hx hpresent
    obtain ⟨hne, hx⟩ := height_of_drop hx
    obtain ⟨htable, howned | ⟨hlending, hroot⟩⟩ := hfit.inner htidy hx hpresent
    · exact ⟨htable, .inl howned⟩
    · exact ⟨htable, .inr ⟨hlending, (height_drop_of_ne hne).trans hroot⟩⟩
  case leaf => exact fun htidy hx => hfit.leaf htidy (height_of_drop hx).2

/-! ### Ways through a chart -/

namespace Fits

lemma height_of_leads (hfit : C.Fits o) (hroot : C.IsRoot root)
    (hl : o.Leads root va holders f h) : C.height f = some h := by
  induction hl with
  | root => exact hroot
  | down _ htable ih => exact hfit.child ⟨⟨_, ih⟩, htable, rfl⟩ ih

lemma links_of_leads (hfit : C.Fits o) (hroot : C.IsRoot root)
    (hl : o.Leads root va (x :: holders) f h) :
    C.Links o x f ∧ C.height x.table = some (h + 1) := by
  obtain ⟨hl, -, htable, hframe⟩ := hl.uncons
  have hx := hfit.height_of_leads hroot hl
  exact ⟨⟨⟨h, hx⟩, htable, hframe⟩, hx⟩

/-- The holders of a way are links of tables above its end. -/
lemma links_of_mem_holders (hfit : C.Fits o) (hroot : C.IsRoot root)
    (hl : o.Leads root va holders f h) (hx : x ∈ holders) :
    C.Links o x (o x).frame ∧ ∃ k, h ≤ k ∧ C.height x.table = some (k + 1) := by
  induction hl with
  | root => cases hx
  | @down _ _ h hl htable ih =>
      rcases List.mem_cons.mp hx with rfl | hx
      · have hheight := hfit.height_of_leads hroot hl
        exact ⟨⟨⟨h, hheight⟩, htable, rfl⟩, h, le_refl h, hheight⟩
      · obtain ⟨hlinks, k, hk, hheight⟩ := ih hx
        exact ⟨hlinks, k, by omega, hheight⟩

/-- A write at the end of a way leaves the way as it was. -/
lemma leads_update (hfit : C.Fits o) (hroot : C.IsRoot root)
    (hl : o.Leads root va holders s.table h) :
    Outline.Leads (Function.update o s e) root va holders s.table h := by
  refine hl.congr fun x hx => Function.update_of_ne ?_ _ _
  rintro rfl
  obtain ⟨-, k, hk, hheight⟩ := hfit.links_of_mem_holders hroot hl hx
  rw [hfit.height_of_leads hroot hl, Option.some.injEq] at hheight
  omega

/-- The owned link of the table at the end of a way is the nearest holder of the way. -/
lemma head_of_links (hfit : C.Fits o) (hroot : C.IsRoot root)
    (hl : o.Leads root va holders f h) (hx : C.Links o x f) (howned : (o x).owned = true)
    (hlends : ¬ C.Lends x) : holders.head? = some x := by
  cases holders with
  | nil =>
      obtain ⟨rfl, -⟩ := hl.of_nil
      exact absurd hroot (hfit.not_isRoot hx)
  | cons y holders =>
      have hy := (hfit.links_of_leads hroot hl).1
      rw [List.head?_cons, hfit.eq_of_links hx howned hlends hy]

/-- **Two addresses come to one table by the same way**, where every table is linked once and no
root lends its tables. -/
theorem index_eq (hfit : C.Fits o) (hlending : ¬ C.lending) (honce : C.BorrowsOnce o)
    (hroot : C.IsRoot root) (hl : o.Leads root va holders f h)
    (hl' : o.Leads root va' holders' f h) (hk : h < k) (hle : k ≤ rootHeight) :
    va'.index k = va.index k := by
  induction holders generalizing holders' f h with
  | nil =>
      obtain ⟨-, rfl⟩ := hl.of_nil
      omega
  | cons x holders ih =>
      cases holders' with
      | nil =>
          obtain ⟨-, rfl⟩ := hl'.of_nil
          omega
      | cons x' holders' =>
          obtain ⟨hx, -⟩ := hfit.links_of_leads hroot hl
          obtain ⟨hx', -⟩ := hfit.links_of_leads hroot hl'
          obtain rfl := hfit.links_once hlending honce hx hx'
          obtain ⟨hl, hindex, -⟩ := hl.uncons
          obtain ⟨hl', hindex', -⟩ := hl'.uncons
          rcases Nat.lt_or_ge (h + 1) k with hlt | hge
          · exact ih hl hl' hlt
          · obtain rfl : k = h + 1 := by omega
            rw [← hindex, ← hindex']

/-! ### What addresses stand for -/

/-- **A write that changes what its slot leads to in no way is not noticed.** -/
theorem resolve_write (hfit : C.Fits o) (hs : C.height s.table = some h)
    (hsame : ∀ va, Outline.follow (Function.update o s e) va h e = o.follow va h (o s))
    (hroot : C.IsRoot root) :
    Outline.resolve (Function.update o s e) root va = o.resolve root va := by
  refine Outline.follow_congr (fun f h => C.height f = some h) ?_ ?_ _ _ _ hroot
  · exact fun x k hx htable => hfit.child ⟨⟨k, hx⟩, htable, rfl⟩ hx
  · intro x k va hx
    rcases eq_or_ne x s with rfl | hxs
    · obtain rfl : h = k := Option.some.inj (hs.symm.trans hx)
      right
      rw [Function.update_self]
      exact hsame va
    · exact .inl (Function.update_of_ne hxs _ _)

lemma resolve_congr (hfit : C.Fits o) (hkeeps : C.Keeps o o') (hroot : C.IsRoot root) :
    o'.resolve root va = o.resolve root va := by
  refine Outline.follow_congr (fun f h => C.height f = some h) ?_ ?_ _ _ _ hroot
  · exact fun x k hx htable => hfit.child ⟨⟨k, hx⟩, htable, rfl⟩ hx
  · intro x k va hx
    refine (hkeeps x ⟨k, hx⟩).imp_right fun ⟨hold, hnew⟩ => ?_
    rw [hnew, Outline.follow_absent, Outline.follow_of_not_present hold]

end Fits

end Chart

end KernelMemory
