import KernelMemory.Proofs.Space.State

/-!
# How a chart goes with a state

An operation on an address adds tables to the chart, takes tables off it and writes to the ones that
are there.  Whatever it does, it leaves the roots as they are, it deals in frames that are free or
tables, and it meddles neither with the links to tables of others nor with the rest of a root.

* `Chart.Kin` — two charts of the same roots.
* `Chart.Rooted` — every table that is neither a root nor foreign has an owner.
* `Chart.Unseen` — a change that no address notices.
* `Chart.Carries` — what operations keep, whatever they are on.
* **`Chart.Evolves`** — what an operation on an address keeps, step by step.
-/

namespace KernelMemory

variable {A : Type} [FrameSource A] [LawfulSource A]

namespace Chart

variable {C C' C'' : Chart} {o o' o'' : Outline} {s s' s'' : Store A} {f root : Frame}
  {va : VirtAddr} {h : Nat} {x : Slot} {path : Path} {e : Entry}

/-- A free frame becomes a table: the frames that are tables or free are the same. -/
lemma isTable_add_or_mem {g : Frame} {frames frames' : Finset Frame} (hf : f ∈ frames)
    (hfree : frames' = frames.erase f) :
    (C.add f h).IsTable g ∨ g ∈ frames' ↔ C.IsTable g ∨ g ∈ frames := by
  rw [isTable_add, hfree, Finset.mem_erase]
  rcases eq_or_ne g f with rfl | hne
  · simp [hf]
  · simp [hne]

/-! ## Charts of the same roots -/

/-- Two charts have the same roots and expect the same of the tables. -/
structure Kin (C C' : Chart) : Prop where
  isRoot (f : Frame) : C'.IsRoot f ↔ C.IsRoot f
  foreign : C'.foreign = C.foreign
  lending : C'.lending = C.lending
  tidy : C'.tidy = C.tidy
  clean : C'.clean = C.clean

namespace Kin

lemma refl (C : Chart) : C.Kin C := ⟨fun _ => Iff.rfl, rfl, rfl, rfl, rfl⟩

lemma trans (hkin : C.Kin C') (hkin' : C'.Kin C'') : C.Kin C'' where
  isRoot f := (hkin'.isRoot f).trans (hkin.isRoot f)
  foreign := hkin'.foreign.trans hkin.foreign
  lending := hkin'.lending.trans hkin.lending
  tidy := hkin'.tidy.trans hkin.tidy
  clean := hkin'.clean.trans hkin.clean

lemma add (hf : C.height f = none) (hh : h < rootHeight) : C.Kin (C.add f h) where
  isRoot g := by
    rcases eq_or_ne g f with rfl | hne
    · rw [IsRoot, IsRoot, height_add_self, hf, Option.some.injEq]
      exact ⟨fun heq => absurd heq (Nat.ne_of_lt hh), fun heq => by cases heq⟩
    · rw [IsRoot, IsRoot, height_add_of_ne hne]
  foreign := rfl
  lending := rfl
  tidy := rfl
  clean := rfl

lemma drop (hf : ¬ C.IsRoot f) : C.Kin (C.drop f) where
  isRoot g := by
    rcases eq_or_ne g f with rfl | hne
    · rw [IsRoot, height_drop_self]
      exact ⟨fun heq => (by cases heq), fun hroot => absurd hroot hf⟩
    · rw [IsRoot, IsRoot, height_drop_of_ne hne]
  foreign := rfl
  lending := rfl
  tidy := rfl
  clean := rfl

end Kin

/-! ## Changes that are not noticed -/

/-- A change of the outline that changes what no address stands for. -/
def Unseen (C : Chart) (o o' : Outline) : Prop :=
  ∀ root va, C.IsRoot root → o'.resolve root va = o.resolve root va

namespace Unseen

lemma refl (o : Outline) : C.Unseen o o := fun _ _ _ => rfl

lemma trans (h : C.Unseen o o') (hkin : C.Kin C') (h' : C'.Unseen o' o'') : C.Unseen o o'' :=
  fun root va hroot => (h' root va ((hkin.isRoot root).mpr hroot)).trans (h root va hroot)

end Unseen

/-! ## Owned and borrowed tables -/

/-- **Every table that the kernel allocated has an owner**, unless it is a root. -/
def Rooted (C : Chart) (o : Outline) : Prop :=
  ∀ f, C.IsTable f → C.IsRoot f ∨ C.foreign f ∨ ∃ x, C.Links o x f ∧ (o x).owned = true

/-- The same tables are borrowed in two outlines. -/
def SameBorrowed (C : Chart) (o : Outline) (C' : Chart) (o' : Outline) : Prop :=
  ∀ x f, C'.Borrows o' x f ↔ C.Borrows o x f

lemma BorrowsOnce.congr (honce : C.BorrowsOnce o) (hsame : C.SameBorrowed o C' o') :
    C'.BorrowsOnce o' :=
  fun x y f hx hy => honce x y f ((hsame x f).mp hx) ((hsame y f).mp hy)

lemma Borrows.keeps_iff (hkeeps : C.Keeps o o') : C.Borrows o' x f ↔ C.Borrows o x f := by
  constructor
  · rintro ⟨hl, howned⟩
    obtain ⟨hl, heq⟩ := (Links.keeps_iff hkeeps).mp hl
    exact ⟨hl, heq ▸ howned⟩
  · rintro ⟨hl, howned⟩
    obtain ⟨hl, heq⟩ := hl.keeps hkeeps
    exact ⟨hl, heq ▸ howned⟩

lemma Rooted.keeps (hrooted : C.Rooted o) (hkeeps : C.Keeps o o') : C.Rooted o' := by
  refine fun f hf => (hrooted f hf).imp_right (Or.imp_right ?_)
  rintro ⟨x, hl, howned⟩
  obtain ⟨hl, heq⟩ := hl.keeps hkeeps
  exact ⟨x, hl, heq ▸ howned⟩

/-- A new root has no owner and takes none away. -/
lemma Rooted.add (hrooted : C.Rooted o) (hnone : C.height f = none) (hblank : o.Blank f) :
    (C.add f rootHeight).Rooted o := by
  intro g hg
  rcases isTable_add.mp hg with rfl | hg
  · exact .inl height_add_self
  · rcases hrooted g hg with hroot | hforeign | ⟨x, hl, howned⟩
    · exact .inl (isRoot_add.mpr (.inr hroot))
    · exact .inr (.inl hforeign)
    · exact .inr (.inr ⟨x, (links_add hnone hblank).mpr hl, howned⟩)

/-- The slot of a page links nothing. -/
lemma Links.ne_page {y : Slot} (hl : C.Links o y f) (hx : C.height x.table = some 0) : y ≠ x := by
  rintro rfl
  obtain ⟨k, hk⟩ := hl.inner
  rw [hx] at hk
  cases hk

lemma links_update_page (hx : C.height x.table = some 0) {y : Slot} :
    C.Links (Function.update o x e) y f ↔ C.Links o y f :=
  ⟨fun hl => hl.congr (Function.update_of_ne (hl.ne_page hx) _ _).symm,
    fun hl => hl.update_of_ne (hl.ne_page hx)⟩

/-! ## Operations -/

/-- **A chart goes with a state** from before some operations to after them. -/
structure Carries (C C' : Chart) (s s' : Store A) : Prop extends C.Kin C' where
  /-- A frame is free or a table if it was. -/
  conserved (f : Frame) : C'.IsTable f ∨ f ∈ freeFrames s' ↔ C.IsTable f ∨ f ∈ freeFrames s
  /-- Tables still have owners. -/
  rooted : ¬ C.lending → C.Rooted s.memory.outline → C'.Rooted s'.memory.outline
  /-- The same tables are borrowed. -/
  borrowed : ¬ C.lending → C.SameBorrowed s.memory.outline C' s'.memory.outline

namespace Carries

lemma refl (C : Chart) (s : Store A) : C.Carries C s s where
  toKin := .refl C
  conserved _ := Iff.rfl
  rooted _ := id
  borrowed _ _ _ := Iff.rfl

lemma trans (h : C.Carries C' s s') (h' : C'.Carries C'' s' s'') : C.Carries C'' s s'' where
  toKin := h.toKin.trans h'.toKin
  conserved f := (h'.conserved f).trans (h.conserved f)
  rooted hlending hrooted := h'.rooted (h.lending ▸ hlending) (h.rooted hlending hrooted)
  borrowed hlending x f :=
    (h'.borrowed (h.lending ▸ hlending) x f).trans (h.borrowed hlending x f)

/-- Nothing but unused slots has changed. -/
lemma of_keeps (hkeeps : C.Keeps s.memory.outline s'.memory.outline)
    (hfree : freeFrames s' = freeFrames s) : C.Carries C s s' where
  toKin := .refl C
  conserved f := by rw [hfree]
  rooted _ hrooted := hrooted.keeps hkeeps
  borrowed _ _ _ := Borrows.keeps_iff hkeeps

end Carries

/-- **A chart and its state evolve by an operation** on an address under a root. -/
structure Evolves (C C' : Chart) (root : Frame) (va : VirtAddr) (s s' : Store A) : Prop
    extends C.Carries C' s s' where
  /-- Unused slots of roots that are not on the way of the address are still unused. -/
  aside {x : Slot} : C.IsRoot x.table → x ≠ ⟨root, va.index rootHeight⟩ →
    (s.memory.outline x).present = false → (s'.memory.outline x).present = false

namespace Evolves

lemma refl (C : Chart) (root : Frame) (va : VirtAddr) (s : Store A) :
    C.Evolves C root va s s where
  toCarries := .refl C s
  aside _ _ := id

lemma trans (h : C.Evolves C' root va s s') (h' : C'.Evolves C'' root va s' s'') :
    C.Evolves C'' root va s s'' where
  toCarries := h.toCarries.trans h'.toCarries
  aside hx hne habsent := h'.aside ((h.isRoot _).mpr hx) hne (h.aside hx hne habsent)

/-- Nothing but unused slots has changed. -/
lemma of_keeps (hkeeps : C.Keeps s.memory.outline s'.memory.outline)
    (hfree : freeFrames s' = freeFrames s) : C.Evolves C root va s s' where
  toCarries := .of_keeps hkeeps hfree
  aside hx _ habsent := (hkeeps.present ⟨_, hx⟩).trans habsent

/-- The slot of a page was written. -/
lemma of_page (hd : C.Describes s) (hway : C.Way s.memory.outline root va 0 path)
    (houtline : s'.memory.outline = Function.update s.memory.outline path.slot e)
    (hfree : freeFrames s' = freeFrames s) : C.Evolves C root va s s' where
  toKin := .refl C
  conserved f := by rw [hfree]
  rooted _ hrooted := by
    have hslot := hway.height hd.fits
    refine fun f hf => (hrooted f hf).imp_right (Or.imp_right ?_)
    rintro ⟨x, hl, howned⟩
    have hne := hl.ne_page hslot
    rw [houtline]
    exact ⟨x, hl.update_of_ne hne, by rwa [Function.update_of_ne hne]⟩
  borrowed _ x f := by
    have hslot := hway.height hd.fits
    rw [houtline, Borrows, Borrows, links_update_page hslot]
    refine and_congr_right fun hl => ?_
    rw [Function.update_of_ne (hl.ne_page hslot)]
  aside {x} hx _ habsent := by
    have hne : x ≠ path.slot := by
      rintro rfl
      rw [IsRoot, hway.height hd.fits] at hx
      cases hx
    rwa [houtline, Function.update_of_ne hne]

end Evolves

end Chart

end KernelMemory
