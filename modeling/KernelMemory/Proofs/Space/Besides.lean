import KernelMemory.Proofs.Frames.Trade
import KernelMemory.Proofs.Space.Pages

/-!
# Frames that are set aside

A source that is used for other things too is a well-behaved source for an address space: the frames
that others hold are neither free nor tables, and whatever the operations of the address space do,
others still hold them afterwards.

* `LawfulSource.besides` — a source of which some frames are set aside.
* `Chart.Describes.besides`, `Settled.of_besides` — states with frames set aside, and without.
* **`Settled.alloc_aside`**, **`Settled.free_aside`** — a frame is handed out and set aside, and
  given back.
* **`Settled.trade`** — another client trades with the source.
-/

namespace KernelMemory

open LawfulSource

variable {A : Type} [FrameSource A] [LawfulSource A]

/-- **A source of which some frames are set aside**: its clients never hold one of these, and none
of them is given back. -/
@[reducible] def LawfulSource.besides (A : Type) [FrameSource A] [LawfulSource A]
    (others : Finset Frame) : LawfulSource A where
  freeFrames := freeFrames
  Books := Books
  Holds s held := Disjoint held others ∧ Holds s (held ∪ others)
  number_lt h hf := LawfulSource.number_lt h.2 hf
  shown h hf := LawfulSource.shown h.2 hf
  notBooks h hf := LawfulSource.notBooks h.2 hf
  notFree h hf := LawfulSource.notFree h.2 (Finset.mem_union_left _ hf)
  congr h hsource hagree := by
    obtain ⟨hheld, hfree⟩ := LawfulSource.congr h.2 hsource hagree
    exact ⟨⟨h.1, hheld⟩, hfree⟩
  alloc_returns h := LawfulSource.alloc_returns h.2
  alloc_none h hrun := by
    obtain ⟨hheld, hrest⟩ := LawfulSource.alloc_none h.2 hrun
    exact ⟨⟨h.1, hheld⟩, hrest⟩
  alloc_some {s s' held f} h hrun := by
    obtain ⟨hf, hheld, hrest⟩ := LawfulSource.alloc_some h.2 hrun
    have hnot : f ∉ others := fun hin =>
      LawfulSource.notFree h.2 (Finset.mem_union_right _ hin) hf
    refine ⟨hf, ⟨Finset.disjoint_insert_left.mpr ⟨hnot, h.1⟩, ?_⟩, hrest⟩
    rwa [Finset.insert_union]
  free_returns {s held f} h hf := by
    obtain ⟨s', hrun, hheld, hrest⟩ := LawfulSource.free_returns h.2 (Finset.mem_union_left _ hf)
    refine ⟨s', hrun, ⟨h.1.mono_left (Finset.erase_subset f held), ?_⟩, hrest⟩
    have hnot : f ∉ others := Finset.disjoint_left.mp h.1 hf
    rwa [Finset.erase_union_distrib, Finset.erase_eq_of_notMem hnot] at hheld

/-- It refuses a frame only while none is free if it does so with no frames set aside. -/
lemma GenerousSource.besides (A : Type) [FrameSource A] [LawfulSource A] [GenerousSource A]
    (others : Finset Frame) : @GenerousSource A _ (LawfulSource.besides A others) :=
  @GenerousSource.mk A _ (LawfulSource.besides A others) fun {s} _ _ h hrun =>
    have hfree : freeFrames s = ∅ := GenerousSource.free_eq_empty h.2 hrun
    hfree

namespace Chart

variable {C C' : Chart} {s s' : Store A} {f root : Frame} {others : Finset Frame} {lowest : Prop}

/-- Frames can be set aside that are neither tables nor free. -/
lemma Describes.besides (hd : C.Describes s)
    (hheld : ∃ held, Disjoint held others ∧ Holds s (held ∪ others) ∧
      ∀ f, C.IsTable f → ¬ C.foreign f → f ∈ held) :
    @Describes A _ (LawfulSource.besides A others) C s := by
  obtain ⟨held, hdisjoint, hheld, hmem⟩ := hheld
  exact @Describes.mk A _ (LawfulSource.besides A others) C s hd.fits hd.counted hd.shown
    hd.notFree hd.notBooks ⟨held, ⟨hdisjoint, hheld⟩, hmem⟩

/-- The tables and the frames that are set aside are held. -/
lemma Describes.of_besides (hd : @Describes A _ (LawfulSource.besides A others) C s) :
    C.Describes s ∧ ∃ held, Disjoint held others ∧ Holds s (held ∪ others) ∧
      ∀ f, C.IsTable f → ¬ C.foreign f → f ∈ held := by
  obtain ⟨fits, counted, shown, notFree, notBooks, held, ⟨hdisjoint, hheld⟩, hmem⟩ := hd
  exact ⟨⟨fits, counted, shown, notFree, notBooks, _, hheld, fun f hf hours =>
    Finset.mem_union_left _ (hmem f hf hours)⟩, held, hdisjoint, hheld, hmem⟩

lemma Settled.of_besides (hs : @Settled A _ (LawfulSource.besides A others) C lowest s) :
    C.Settled lowest s := by
  obtain ⟨hd, hbusy⟩ := hs
  exact ⟨hd.of_besides.1, hbusy⟩

/-- What matters in a store is as it was, with frames set aside. -/
lemma Settled.restored_aside {exact : Prop}
    (hs : @Settled A _ (LawfulSource.besides A others) C lowest s)
    (h : @Restored A _ (LawfulSource.besides A others) exact s s') :
    @Settled A _ (LawfulSource.besides A others) C lowest s' ∧
      C.Keeps s.memory.outline s'.memory.outline ∧ freeFrames s' = freeFrames s := by
  obtain ⟨hd, -⟩ := id hs
  have hkeeps := @Restored.keepsTables A _ (LawfulSource.besides A others) _ _ _ _ h hd
  have hfree := @Restored.free A _ (LawfulSource.besides A others) _ _ _ h
  exact ⟨@Settled.restored C A _ (LawfulSource.besides A others) _ _ _ _ hs h, hkeeps.outline,
    hfree⟩

/-- Operations may be made with frames set aside if they may be made without. -/
lemma Serves.besides (hs : C.Serves lowest root s)
    (hsettled : @Settled A _ (LawfulSource.besides A others) C lowest s) :
    @Serves A _ (LawfulSource.besides A others) C lowest root s :=
  @Serves.mk A _ (LawfulSource.besides A others) C lowest root s hsettled hs.isRoot hs.lending
    hs.borrowsOnce

lemma Serves.of_besides (hs : @Serves A _ (LawfulSource.besides A others) C lowest root s) :
    C.Serves lowest root s := by
  obtain ⟨hsettled, hroot, hlending, honce⟩ := hs
  exact ⟨hsettled.of_besides, hroot, hlending, honce⟩

lemma Carries.of_besides (h : @Carries A _ (LawfulSource.besides A others) C C' s s') :
    C.Carries C' s s' := by
  obtain ⟨hkin, hconserved, hrooted, hborrowed⟩ := h
  exact ⟨hkin, hconserved, hrooted, hborrowed⟩

/-- What operations keep, they keep if the tables are left alone before and after them. -/
lemma Carries.between {s₀ s₁ : Store A} (h : C.Carries C' s s')
    (hsame : C.SameTables s₀.memory s.memory) (hsame' : C'.SameTables s'.memory s₁.memory)
    (hconserved : ∀ f, C'.IsTable f ∨ f ∈ freeFrames s₁ ↔ C.IsTable f ∨ f ∈ freeFrames s₀) :
    C.Carries C' s₀ s₁ where
  toKin := h.toKin
  conserved := hconserved
  rooted hlending hrooted :=
    (h.rooted hlending (hrooted.keeps hsame.keepsOn.outline)).keeps hsame'.keepsOn.outline
  borrowed hlending x f :=
    (Borrows.keeps_iff hsame'.keepsOn.outline).trans ((h.borrowed hlending x f).trans
      (Borrows.keeps_iff hsame.keepsOn.outline))

/-- **A frame is handed out and set aside.** -/
theorem Settled.alloc_aside (hs : C.Settled lowest s)
    (hrun : (FrameSource.alloc : Action (Store A) _).run s = .ok (some f) s') :
    @Settled A _ (LawfulSource.besides A {f}) C lowest s' ∧ f ∈ freeFrames s ∧ ¬ C.IsTable f ∧
      freeFrames s' = (freeFrames s).erase f ∧ C.SameTables s.memory s'.memory := by
  have hd := hs.describes
  obtain ⟨held, hheld, hmem⟩ := hd.held
  obtain ⟨hf, hheld', hfree, hbooks, hagree⟩ := LawfulSource.alloc_some hheld hrun
  have hsame : C.SameTables s.memory s'.memory := hagree.anti fun _ hg => hd.notBooks hg
  have hnot : f ∉ held := fun hin => LawfulSource.notFree hheld hin hf
  have hholds : Holds s' (held ∪ {f}) := by
    rwa [Finset.union_comm, ← Finset.insert_eq]
  have hd' : C.Describes s' := by
    refine hd.frame hsame.keepsOn (fun g hg hin => ?_) hbooks
      ⟨_, hholds, fun g hg hours => Finset.mem_union_left _ (hmem g hg hours)⟩
    rw [hfree] at hin
    exact hd.notFree hg (Finset.mem_of_mem_erase hin)
  refine ⟨@Settled.mk A _ (LawfulSource.besides A {f}) C lowest s'
    (hd'.besides ⟨held, Finset.disjoint_singleton_right.mpr hnot, hholds, hmem⟩)
    (hs.busy.congr hsame.keepsOn.outline hsame.keepsOn.live), hf, fun hg => hd.notFree hg hf, hfree,
    hsame⟩

/-- **A frame that was set aside is given back.** -/
theorem Settled.free_aside (hs : @Settled A _ (LawfulSource.besides A {f}) C lowest s)
    (hf : ¬ C.IsTable f) :
    ∃ s', (FrameSource.free f : Action (Store A) _).run s = .ok () s' ∧ C.Settled lowest s' ∧
      freeFrames s' = insert f (freeFrames s) ∧ C.SameTables s.memory s'.memory := by
  obtain ⟨hd, hbusy⟩ := hs
  obtain ⟨hd, held, hdisjoint, hheld, hmem⟩ := hd.of_besides
  obtain ⟨s', hrun, hheld', hfree, hbooks, hagree⟩ :=
    LawfulSource.free_returns hheld (Finset.mem_union_right _ (Finset.mem_singleton_self f))
  have hsame : C.SameTables s.memory s'.memory := hagree.anti fun _ hg => hd.notBooks hg
  refine ⟨s', hrun, ⟨hd.frame hsame.keepsOn (fun g hg hin => ?_) hbooks ⟨_, hheld',
    fun g hg hours => Finset.mem_erase.mpr ⟨?_, Finset.mem_union_left _ (hmem g hg hours)⟩⟩,
    hbusy.congr hsame.keepsOn.outline hsame.keepsOn.live⟩, hfree, hsame⟩
  · rw [hfree, Finset.mem_insert] at hin
    rcases hin with rfl | hin
    · exact hf hg
    · exact hd.notFree hg hin
  · rintro rfl
    exact hf hg

/-- **Another client trades with the source**, and all tables stay as they are. -/
theorem Settled.trade {own own' rest : Finset Frame}
    (hs : @Settled A _ (LawfulSource.besides A (own ∪ rest)) C lowest s)
    (hours : ∀ f, ¬ C.foreign f) (hdisjoint : Disjoint own rest) (htrade : Trade s own s' own') :
    @Settled A _ (LawfulSource.besides A (own' ∪ rest)) C lowest s' ∧
      C.SameTables s.memory s'.memory := by
  obtain ⟨hd, hbusy⟩ := hs
  obtain ⟨hd, held, hapart, hheld, hmem⟩ := hd.of_besides
  obtain ⟨hown, hrest⟩ := Finset.disjoint_union_right.mp hapart
  -- For the client, the tables are frames that others hold.
  rw [Finset.union_left_comm] at hheld
  obtain ⟨hdisjoint', hheld'⟩ :=
    htrade.holds (Finset.disjoint_union_right.mpr ⟨hown.symm, hdisjoint⟩) hheld
  have hsame : C.SameTables s.memory s'.memory := htrade.memory.anti fun _ hf => hd.notBooks hf
  have hd' : C.Describes s' := by
    refine hd.frame hsame.keepsOn (fun f hf => ?_) htrade.books ⟨_, hheld', fun f hf hours => ?_⟩
    · exact LawfulSource.notFree hheld'
        (Finset.mem_union_right _ (Finset.mem_union_left _ (hmem f hf (hours f))))
    · exact Finset.mem_union_right _ (Finset.mem_union_left _ (hmem f hf hours))
  rw [Finset.union_left_comm] at hheld'
  obtain ⟨hown', -⟩ := Finset.disjoint_union_right.mp hdisjoint'
  exact ⟨@Settled.mk A _ (LawfulSource.besides A (own' ∪ rest)) C lowest s'
    (hd'.besides ⟨held, Finset.disjoint_union_right.mpr ⟨hown'.symm, hrest⟩, hheld', hmem⟩)
    (hbusy.congr hsame.keepsOn.outline hsame.keepsOn.live), hsame⟩

end Chart

end KernelMemory
