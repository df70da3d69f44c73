import KernelMemory.Proofs.Space.Release
import KernelMemory.Space.Map

/-!
# Linking a new table, and undoing it

A walk that finds no frame for a table gives back the tables it has made, by the same `release` that
an unmapping uses.  `Undoes` says that a release puts a given earlier state back: it does so at a
table that was there before, because nothing is given back, and linking one more table keeps it so.

* `Restored` — a state in which everything that matters is as it was.
* **`Space.linkTable_ensures`** — a table is made, linked and put on the chart.
* **`Undoes.link`** — the release that starts at a new table undoes the making of it.
-/

namespace KernelMemory

variable {A : Type} [FrameSource A] [LawfulSource A]

/-! ## States that are as they were -/

/-- **Everything that matters is as it was**: what free frames hold does not, nor what stands in
slots that are not in use.  Where it is asked for, the source and its books are the same too. -/
structure Restored (exact : Prop) (s s' : Store A) : Prop where
  /-- Frames that are neither free nor books are kept. -/
  memory : s.memory.KeepsOn (fun f => f ∉ freeFrames s ∧ ¬ Books s.source f) s'.memory
  /-- The same frames are free. -/
  free : freeFrames s' = freeFrames s
  /-- The same frames are held. -/
  held {held : Finset Frame} : Holds s held → Holds s' held
  /-- The books are in the same frames. -/
  books : Books s'.source = Books s.source
  /-- The source and its books are the same. -/
  same : exact → SameBooks s s'

namespace Restored

variable {exact : Prop} {s s' s'' : Store A} {C : Chart}

lemma refl (s : Store A) : Restored exact s s :=
  ⟨.refl _, rfl, id, rfl, fun _ => .refl s⟩

lemma trans (h : Restored exact s s') (h' : Restored exact s' s'') : Restored exact s s'' where
  memory := h.memory.trans (h'.memory.anti fun f hf => by rwa [h.free, h.books])
  free := h'.free.trans h.free
  held hheld := h'.held (h.held hheld)
  books := h'.books.trans h.books
  same hexact := (h.same hexact).trans (h'.same hexact)

lemma keepsTables (h : Restored exact s s') (hd : C.Describes s) :
    s.memory.KeepsOn C.IsTable s'.memory :=
  h.memory.anti fun _ hf => ⟨hd.notFree hf, hd.notBooks hf⟩

lemma describes (h : Restored exact s s') (hd : C.Describes s) : C.Describes s' := by
  obtain ⟨held, hheld, hmem⟩ := hd.held
  refine hd.frame (h.keepsTables hd) (fun f hf => ?_) h.books ⟨held, h.held hheld, hmem⟩
  rw [h.free]
  exact hd.notFree hf

lemma carries (h : Restored exact s s') (hd : C.Describes s) : C.Carries C s s' :=
  .of_keeps (h.keepsTables hd).outline h.free

lemma evolves {root : Frame} {va : VirtAddr} (h : Restored exact s s') (hd : C.Describes s) :
    C.Evolves C root va s s' :=
  .of_keeps (h.keepsTables hd).outline h.free

/-- A request for a frame that is refused leaves everything as it was. -/
lemma of_alloc_none {held : Finset Frame} (hheld : Holds s held)
    (hrun : (FrameSource.alloc : Action (Store A) _).run s = .ok none s')
    (hexact : exact → RestoringSource A) : Restored exact s s' := by
  obtain ⟨-, hfree, hbooks, hagree⟩ := LawfulSource.alloc_none hheld hrun
  refine ⟨hagree.keepsOn.anti fun _ hf => hf.2, hfree, fun hheld => ?_, hbooks, fun hex => ?_⟩
  · exact (LawfulSource.alloc_none hheld hrun).1
  · have := hexact hex
    exact RestoringSource.alloc_none hheld hrun

/-- What is noted does not matter. -/
lemma of_eq {held : Finset Frame} (hheld : Holds s held) (hmemory : s'.memory = s.memory)
    (hsource : s'.source = s.source) : Restored exact s s' where
  memory := hmemory ▸ .refl _
  free := (LawfulSource.congr hheld hsource (hmemory ▸ .refl _)).2
  held hheld := (LawfulSource.congr hheld hsource (hmemory ▸ .refl _)).1
  books := by rw [hsource]
  same _ := ⟨hsource, hmemory ▸ .refl _⟩

/-- **A frame that was handed out and left alone** can be given back, and then everything that
matters is as it was. -/
theorem alloc_free {s₁ s₂ : Store A} {held : Finset Frame} {f : Frame} (hheld : Holds s held)
    (halloc : (FrameSource.alloc : Action (Store A) _).run s = .ok (some f) s₁)
    (h : Restored exact s₁ s₂) (hexact : exact → RestoringSource A) :
    ∃ s₃, (FrameSource.free f : Action (Store A) _).run s₂ = .ok () s₃ ∧ Restored exact s s₃ := by
  obtain ⟨hf, hheld₁, hfree₁, hbooks₁, hagree₁⟩ := LawfulSource.alloc_some hheld halloc
  have hbooks₂ : Books s₂.source = Books s.source := h.books.trans hbooks₁
  obtain ⟨s₃, hrun, -, hfree₃, hbooks₃, hagree₃⟩ :=
    LawfulSource.free_returns (h.held hheld₁) (Finset.mem_insert_self f held)
  refine ⟨s₃, hrun, ?_⟩
  constructor
  case memory =>
    refine ((hagree₁.keepsOn.anti fun _ hg => hg.2).trans (h.memory.anti fun g hg => ?_)).trans
      (hagree₃.keepsOn.anti fun g hg => by rw [hbooks₂]; exact hg.2)
    rw [hfree₁, hbooks₁]
    exact ⟨fun hin => hg.1 (Finset.mem_of_mem_erase hin), hg.2⟩
  case free => rw [hfree₃, h.free, hfree₁, Finset.insert_erase hf]
  case held =>
    intro held' hheld'
    obtain ⟨-, hheld₁', -⟩ := LawfulSource.alloc_some hheld' halloc
    obtain ⟨s₃', hrun', hheld₃, -⟩ :=
      LawfulSource.free_returns (h.held hheld₁') (Finset.mem_insert_self f held')
    obtain rfl : s₃' = s₃ := by
      rw [hrun] at hrun'
      cases hrun'
      rfl
    rwa [Finset.erase_insert fun hin => LawfulSource.notFree hheld' hin hf] at hheld₃
  case books => exact hbooks₃.trans hbooks₂
  case same =>
    intro hex
    have := hexact hex
    exact RestoringSource.free_alloc hheld halloc (h.same hex) hrun

end Restored

/-! ## Linking a new table -/

/-- What the kernel writes to link a table it has just allocated. -/
structure Entry.IsNewLink (e : Entry) (f : Frame) : Prop where
  isTable : e.isTable = true
  owned : e.owned = true
  frame : e.frame = f
  liveChildren : e.liveChildren = 0

lemma Entry.ownedTable_eq_ok {f : Frame} (hf : f.number < 2 ^ 40) :
    ∃ e, Entry.ownedTable f = .ok e ∧ e.IsNewLink f := by
  refine ⟨{ present := true, writable := true, owned := true, frameNumber := ⟨f.number, hf⟩ },
    ?_, ?_⟩
  · rw [ownedTable, dif_pos hf]
  · exact ⟨rfl, rfl, rfl, rfl⟩

lemma Entry.IsNewLink.outline_eq {e : Entry} {f : Frame} (he : e.IsNewLink f) :
    e.outline = e := by
  rw [outline, if_pos he.owned]
  change { e with liveChildren := 0 } = e
  rw [← he.liveChildren]

namespace Space

open Chart KernelMemory.Action

variable {C : Chart} {s s₁ : Store A} {root f : Frame} {va : VirtAddr} {h : Nat} {path : Path}
  {e : Entry} {excuse : Panic → Prop} {lowest : Prop}

/-- A link to a new table may be written to an unused slot one level above. -/
lemma canWrite_newLink {o : Outline} {slot : Slot} (hfit : C.Fits o)
    (hslot : C.height slot.table = some (h + 1)) (hf : C.height f = none) (hblank : o.Blank f)
    (he : e.IsNewLink f) : (C.add f h).CanWrite o slot e where
  unused habsent := by
    rw [Entry.present_of_isTable he.isTable] at habsent
    cases habsent
  child hk _ := by
    rw [height_add_of_some hf hslot, Option.some.injEq, Nat.succ.injEq] at hk
    rw [he.frame, height_add_self, hk]
  ours _ _ _ hforeign := by
    obtain ⟨k, hk⟩ := hfit.known hforeign
    rw [he.frame, hf] at hk
    cases hk
  sole _ _ _ ht := by
    obtain ⟨k, hk⟩ := hfit.isTable_of_links ((links_add hf hblank).mp ht)
    rw [he.frame, hf] at hk
    cases hk
  inner _ _ _ := ⟨he.isTable, .inl he.owned⟩
  leaf _ hzero _ := by
    rw [height_add_of_some hf hslot] at hzero
    cases hzero

/-- **A new table was linked** from the slot of a path: `s` is the state before the frame was handed
out, `s₁` the state after that, and `s₂` the state in the end. -/
structure Linked (C : Chart) (s s₁ : Store A) (path : Path) (f : Frame) (h : Nat) (e : Entry)
    (s₂ : Store A) : Prop where
  /-- The frame was handed out. -/
  alloc : (FrameSource.alloc : Action (Store A) _).run s = .ok (some f) s₁
  /-- The link is that of a new table. -/
  newLink : e.IsNewLink f
  /-- The frame was cleared, the link written and the nearest holder recounted. -/
  memory : s₂.memory = (s₁.memory.clear f).put path e (· + 1)
  /-- The source did not notice. -/
  source : s₂.source = s₁.source
  /-- The nearest holder had room for one more child. -/
  room : (s₁.memory.clear f).Room path.holders (· + 1)
  /-- The frame is on the chart as a table. -/
  describes : (C.add f h).Describes s₂

/-- **A table is made and linked.** -/
theorem linkTable_ensures (hd : C.Describes s) (hway : C.Way s.memory.outline root va (h + 1) path)
    (hold : (s.memory.entry path.slot).present = false)
    (hrun : (FrameSource.alloc : Action (Store A) _).run s = .ok (some f) s₁)
    (hexcuse : C.lending → ∀ p, excuse p) :
    Ensures (linkTable path f va) excuse s₁ fun _ s₂ => ∃ e, Linked C s s₁ path f h e s₂ := by
  have hslot := hway.height hd.fits
  have hle : h ≤ rootHeight := by
    have := hd.fits.height_le hslot
    omega
  obtain ⟨held, hheld, -⟩ := hd.held
  obtain ⟨hf, -⟩ := LawfulSource.alloc_some hheld hrun
  obtain ⟨hnone, hnumber, -, -⟩ := hd.fresh hf
  obtain ⟨hd₁, hshown, hsame, hblank⟩ := hd.take hle hrun
  have hway₁ : (C.add f h).Way (s₁.memory.clear f).outline root va (h + 1) path := by
    have hway' := hway.congr hd.fits hsame.keepsOn.outline
    exact ⟨height_add_of_some hnone hway.isRoot, hway'.leads, hway'.index⟩
  have hold₁ : ((s₁.memory.clear f).entry path.slot).present = false := by
    rw [hsame.entry ⟨h + 1, hslot⟩, hold]
  obtain ⟨e, hlink, he⟩ := Entry.ownedTable_eq_ok hnumber
  refine .bind_run (Store.run_clearFrame hshown) (.bind_run (run_ofExcept hlink) ?_)
  refine (fill_ensures (hd₁.ready hway₁) hold₁ (hd₁.room hway₁ hold₁ hexcuse)).bind ?_
  rintro _ s₂ ⟨rfl, hroom⟩
  refine .of_run Store.run_note ⟨e, hrun, he, rfl, rfl, hroom, ?_⟩
  refine (hd₁.put hway₁ hroom ?_ ?_ ?_).of_eq rfl rfl
  · rw [he.outline_eq]
    exact canWrite_newLink (hd.fits.congr hsame.keepsOn.outline) hslot hnone hblank he
  · exact Outline.count_fill (by simpa using hold₁)
      (by simpa using Entry.present_of_isTable he.isTable)
  · intro k _ _ _
    have hne : path.slot.table ≠ f := by
      rintro rfl
      rw [hnone] at hslot
      cases hslot
    rw [he.liveChildren, he.frame, Outline.count_update_of_ne hne, hblank.count_eq_zero]
    rfl

namespace Linked

variable {s₂ : Store A}

lemma height_eq_none (hlinked : Linked C s s₁ path f h e s₂) (hd : C.Describes s) :
    C.height f = none := by
  obtain ⟨held, hheld, -⟩ := hd.held
  exact (hd.fresh (LawfulSource.alloc_some hheld hlinked.alloc).1).1

lemma outline (hlinked : Linked C s s₁ path f h e s₂) (hd : C.Describes s)
    (hway : C.Way s.memory.outline root va (h + 1) path) :
    s₂.memory.outline = Function.update (s₁.memory.clear f).outline path.slot e := by
  rw [hlinked.memory, Memory.outline_put (hway.head_ne hd.fits), hlinked.newLink.outline_eq]

/-- The new table is blank. -/
lemma blank (hlinked : Linked C s s₁ path f h e s₂) (hd : C.Describes s)
    (hway : C.Way s.memory.outline root va (h + 1) path) : s₂.memory.outline.Blank f := by
  intro i
  have hne : (⟨f, i⟩ : Slot) ≠ path.slot := by
    intro heq
    have hslot := hway.height hd.fits
    rw [← heq, hlinked.height_eq_none hd] at hslot
    cases hslot
  rw [hlinked.outline hd hway, Function.update_of_ne hne, Memory.outline_apply, Memory.entry_clear,
    if_pos rfl, Entry.outline_absent]

/-- The way leads on into the new table. -/
lemma way (hlinked : Linked C s s₁ path f h e s₂) (hd : C.Describes s) (hle : h < rootHeight)
    (hway : C.Way s.memory.outline root va (h + 1) path) :
    (C.add f h).Way s₂.memory.outline root va h (path.down f (va.index h)) := by
  have hnone := hlinked.height_eq_none hd
  have hkeeps := (hd.take (Nat.le_of_lt hle) hlinked.alloc).2.2.1.keepsOn.outline
  have hway' := (hway.congr hd.fits hkeeps).update (e := e) (hd.fits.congr hkeeps)
  rw [← hlinked.outline hd hway] at hway'
  have hslot : s₂.memory.outline path.slot = e := by
    rw [hlinked.outline hd hway, Function.update_self]
  have hdown := hway'.down (hslot ▸ hlinked.newLink.isTable)
  rw [hslot, hlinked.newLink.frame] at hdown
  exact ⟨height_add_of_some hnone hway.isRoot, hdown.leads, rfl⟩

/-- The only table that may be empty now is the new one. -/
lemma busy (hlinked : Linked C s s₁ path f h e s₂) (hd : C.Describes s) (hle : h < rootHeight)
    (hway : C.Way s.memory.outline root va (h + 1) path)
    (hbusy : C.BusyBut lowest s.memory.outline s.memory.live path.holders.head?) :
    (C.add f h).BusyBut lowest s₂.memory.outline s₂.memory.live (some path.slot) := by
  obtain ⟨-, -, hsame, hblank⟩ := hd.take (Nat.le_of_lt hle) hlinked.alloc
  rw [hlinked.outline hd hway, hlinked.memory]
  have hkeeps := hsame.keepsOn
  refine ((hbusy.congr hkeeps.outline hkeeps.live).add (hd.fits.congr hkeeps.outline)
    (hlinked.height_eq_none hd) hblank).fill fun x hx => ?_
  exact Memory.live_put hlinked.room hx

/-- No address notices the new table, because nothing is in it. -/
lemma unseen (hlinked : Linked C s s₁ path f h e s₂) (hd : C.Describes s) (hle : h < rootHeight)
    (hway : C.Way s.memory.outline root va (h + 1) path)
    (hold : (s.memory.entry path.slot).present = false) :
    C.Unseen s.memory.outline s₂.memory.outline := by
  obtain ⟨hd₁, -, hsame, hblank⟩ := hd.take (Nat.le_of_lt hle) hlinked.alloc
  have hslot := hway.height hd.fits
  have hnone := hlinked.height_eq_none hd
  intro root' va' hroot'
  rw [← hd.fits.resolve_congr hsame.keepsOn.outline hroot', hlinked.outline hd hway]
  refine hd₁.fits.resolve_write (height_add_of_some hnone hslot) (fun va' => ?_)
    (height_add_of_some hnone hroot')
  have hblank₂ : s₂.memory.outline.Blank e.frame := by
    rw [hlinked.newLink.frame]
    exact hlinked.blank hd hway
  rw [hlinked.outline hd hway] at hblank₂
  rw [Outline.follow_empty hblank₂.count_eq_zero hlinked.newLink.isTable,
    Outline.follow_of_not_present]
  rw [hsame.outline path.slot ⟨_, hslot⟩]
  simpa using hold

/-- The linking touches nothing but tables. -/
lemma agreesOn (hlinked : Linked C s s₁ path f h e s₂) (hd : C.Describes s)
    (hway : C.Way s.memory.outline root va (h + 1) path) :
    s₁.memory.AgreesOn (fun g => ¬ (C.add f h).IsTable g) s₂.memory := by
  have hnone := hlinked.height_eq_none hd
  have hput := hway.agreesOn_put (m := s₁.memory.clear f) (e := e) (g := (· + 1)) hd.fits
  rw [hlinked.memory]
  refine ⟨hput.window, fun t ht => ?_⟩
  have hne : f ≠ t.table := by
    rintro rfl
    exact ht ⟨h, height_add_self⟩
  rw [hput.word t fun ⟨k, hk⟩ => ht ⟨k, height_add_of_some hnone hk⟩, Memory.word_clear, if_neg hne]

/-- What the source knows after the linking. -/
lemma holds {held : Finset Frame} (hlinked : Linked C s s₁ path f h e s₂)
    (hd : C.Describes s) (hway : C.Way s.memory.outline root va (h + 1) path)
    (hheld : Holds s held) :
    Holds s₂ (insert f held) ∧ freeFrames s₂ = (freeFrames s).erase f ∧
      Books s₂.source = Books s.source := by
  obtain ⟨-, hheld₁, hfree₁, hbooks₁, -⟩ := LawfulSource.alloc_some hheld hlinked.alloc
  obtain ⟨hheld₂, hfree₂⟩ := LawfulSource.congr hheld₁ hlinked.source
    ((hlinked.agreesOn hd hway).anti fun _ hg htable =>
      hlinked.describes.notBooks htable (hlinked.source ▸ hg))
  exact ⟨hheld₂, hfree₂.trans hfree₁, by rw [hlinked.source, hbooks₁]⟩

/-- There is one link more. -/
lemma links_iff (hlinked : Linked C s s₁ path f h e s₂) (hd : C.Describes s)
    (hle : h < rootHeight)
    (hway : C.Way s.memory.outline root va (h + 1) path) {t : Slot} {g : Frame} :
    (C.add f h).Links s₂.memory.outline t g ↔
      t = path.slot ∧ f = g ∨ t ≠ path.slot ∧ C.Links s.memory.outline t g := by
  obtain ⟨-, -, hsame, hblank⟩ := hd.take (Nat.le_of_lt hle) hlinked.alloc
  have hslot := height_add_of_some (h := h) (hlinked.height_eq_none hd) (hway.height hd.fits)
  rw [hlinked.outline hd hway]
  constructor
  · intro hl
    rcases links_update hl with ⟨rfl, -, -, rfl⟩ | ⟨hne, hl⟩
    · exact .inl ⟨rfl, hlinked.newLink.frame.symm⟩
    · have hl := (links_add (hlinked.height_eq_none hd) hblank).mp hl
      exact .inr ⟨hne, hl.congr (hsame.outline t hl.table).symm⟩
  · rintro (⟨rfl, rfl⟩ | ⟨hne, hl⟩)
    · refine ⟨⟨h, hslot⟩, ?_, ?_⟩
      · rw [Function.update_self, hlinked.newLink.isTable]
      · rw [Function.update_self, hlinked.newLink.frame]
    · have hl₁ := hl.congr (hsame.outline t hl.table)
      exact ((links_add (hlinked.height_eq_none hd) hblank).mpr hl₁).update_of_ne hne

lemma outline_of_ne (hlinked : Linked C s s₁ path f h e s₂) (hd : C.Describes s)
    (hle : h < rootHeight) (hway : C.Way s.memory.outline root va (h + 1) path) {t : Slot}
    (ht : C.IsTable t.table) (hne : t ≠ path.slot) :
    s₂.memory.outline t = s.memory.outline t := by
  rw [hlinked.outline hd hway, Function.update_of_ne hne,
    (hd.take (Nat.le_of_lt hle) hlinked.alloc).2.2.1.outline t ht]

/-- The frame goes from the free ones to the chart. -/
lemma evolves (hlinked : Linked C s s₁ path f h e s₂) (hd : C.Describes s) (hle : h < rootHeight)
    (hway : C.Way s.memory.outline root va (h + 1) path)
    (hold : (s.memory.entry path.slot).present = false) :
    C.Evolves (C.add f h) root va s s₂ := by
  have hnone := hlinked.height_eq_none hd
  have hslot : s₂.memory.outline path.slot = e := by
    rw [hlinked.outline hd hway, Function.update_self]
  have hunused : (s.memory.outline path.slot).present = false := by simpa using hold
  obtain ⟨held, hheld, -⟩ := hd.held
  obtain ⟨hf, -⟩ := LawfulSource.alloc_some hheld hlinked.alloc
  refine { toKin := .add hnone hle, conserved := ?_, rooted := ?_, borrowed := ?_, aside := ?_ }
  · exact fun g => isTable_add_or_mem hf (hlinked.holds hd hway hheld).2.1
  · intro _ hrooted g hg
    rcases isTable_add.mp hg with rfl | hg
    · refine .inr (.inr ⟨path.slot, (hlinked.links_iff hd hle hway).mpr (.inl ⟨rfl, rfl⟩), ?_⟩)
      rw [hslot, hlinked.newLink.owned]
    · rcases hrooted g hg with hisRoot | hforeign | ⟨t, ht, howned⟩
      · exact .inl (height_add_of_some hnone hisRoot)
      · exact .inr (.inl hforeign)
      · have hne : t ≠ path.slot := by
          rintro rfl
          have hpresent := ht.present
          rw [Memory.outline_apply, Entry.outline_present, hold] at hpresent
          cases hpresent
        refine .inr (.inr ⟨t, (hlinked.links_iff hd hle hway).mpr (.inr ⟨hne, ht⟩), ?_⟩)
        rwa [hlinked.outline_of_ne hd hle hway ht.table hne]
  · intro _ t g
    rw [Borrows, Borrows, hlinked.links_iff hd hle hway]
    constructor
    · rintro ⟨⟨rfl, rfl⟩ | ⟨hne, ht⟩, hunowned⟩
      · rw [hslot, hlinked.newLink.owned] at hunowned
        cases hunowned
      · rw [hlinked.outline_of_ne hd hle hway ht.table hne] at hunowned
        exact ⟨ht, hunowned⟩
    · rintro ⟨ht, hunowned⟩
      have hne := ht.ne_of_not_present hunused
      exact ⟨.inr ⟨hne, ht⟩, by rwa [hlinked.outline_of_ne hd hle hway ht.table hne]⟩
  · intro t ht hne habsent
    have hts : t ≠ path.slot := by
      rintro rfl
      obtain rfl : h = 2 := Nat.succ.inj (Option.some.inj ((hway.height hd.fits).symm.trans ht))
      exact hne hway.slot_of_rootHeight
    rwa [hlinked.outline_of_ne hd hle hway ⟨_, ht⟩ hts]

end Linked

/-! ## Undoing it -/

/-- **A release puts an earlier state back**, from any state in which everything that matters is as
it is now. -/
def Undoes (excuse : Panic → Prop) (exact : Prop) (base : Store A) (table : Frame)
    (holders : List Slot) (s : Store A) : Prop :=
  ∀ s', Restored exact s s' →
    Ensures (release table holders) excuse s' fun _ s'' => Restored exact base s''

variable {exact : Prop} {base : Store A}

/-- At a table that is not empty nothing is given back. -/
lemma Undoes.stop (hd : C.Describes s) (hway : C.Way s.memory.outline root va h path)
    (hstop : ∀ x, path.holders.head? = some x → (s.memory.entry x).owned = true →
      s.memory.live x ≠ 0) :
    Undoes excuse exact s path.slot.table path.holders s := by
  intro s' hrestored
  cases hholders : path.holders with
  | nil => exact .pure hrestored
  | cons x above =>
      have hhead : path.holders.head? = some x := by rw [hholders]; rfl
      have hx : C.IsTable x.table := ⟨_, (hway.head hd.fits hhead).2⟩
      have hpresent : (s.memory.entry x).present = true := by
        simpa using (hway.head hd.fits hhead).1.present
      refine .bind_run (Store.run_entry ((hrestored.describes hd).shown hx)) ?_
      rw [(hrestored.keepsTables hd).entry_of_present hx hpresent, if_neg]
      · exact .pure hrestored
      · intro htest
        obtain ⟨howned, hzero⟩ := empty_iff.mp htest
        exact hstop x hhead howned hzero

/-- **Emptying the slot and giving the frame back undoes the linking**: `s₃` is any state in which
everything that matters is as it was after the linking, `s₄` the state once the slot is empty, and
`s₅` the state once the frame is given back. -/
theorem Linked.restored {s₂ s₃ s₄ s₅ : Store A} (hlinked : Linked C s s₁ path f h e s₂)
    (hd : C.Describes s) (hway : C.Way s.memory.outline root va (h + 1) path)
    (hold : (s.memory.entry path.slot).present = false) (hle : h < rootHeight)
    (hexact : exact → RestoringSource A) (h₃ : Restored exact s₂ s₃)
    (h₄ : s₄ = { s₃ with memory := s₃.memory.put path .absent (· - 1) })
    (h₅ : (FrameSource.free f : Action (Store A) _).run s₄ = .ok () s₅) :
    Restored exact s s₅ := by
  have hnone := hlinked.height_eq_none hd
  have hd₂ := hlinked.describes
  have hd₃ := h₃.describes hd₂
  have hagree₁₂ := hlinked.agreesOn hd hway
  have hagree₃₄ : s₃.memory.AgreesOn (fun g => ¬ (C.add f h).IsTable g) s₄.memory := by
    have hput := hway.agreesOn_put (m := s₃.memory) (e := .absent) (g := (· - 1)) hd.fits
    rw [h₄]
    exact hput.anti fun _ hg ⟨k, hk⟩ => hg ⟨k, height_add_of_some hnone hk⟩
  have hsource₄ : s₄.source = s₃.source := by rw [h₄]
  -- What the source knows, in whatever way it was in order at first.
  have hsource : ∀ {held}, Holds s held → Holds s₅ held ∧ freeFrames s₅ = freeFrames s ∧
      Books s₅.source = Books s.source ∧
      s₄.memory.AgreesOn (fun g => ¬ Books s.source g) s₅.memory := by
    intro held hheld
    obtain ⟨hf, -⟩ := LawfulSource.alloc_some hheld hlinked.alloc
    obtain ⟨hheld₂, hfree₂, hbooks₂⟩ := hlinked.holds hd hway hheld
    obtain ⟨hheld₄, hfree₄⟩ := LawfulSource.congr (h₃.held hheld₂) hsource₄
      (hagree₃₄.anti fun g hg htable => hd₃.notBooks htable hg)
    obtain ⟨s₅', hrun, hheld₅, hfree₅, hbooks₅, hagree₅⟩ :=
      LawfulSource.free_returns hheld₄ (Finset.mem_insert_self f held)
    obtain rfl : s₅' = s₅ := by
      rw [h₅] at hrun
      cases hrun
      rfl
    have hbooks₄ : Books s₄.source = Books s.source := by
      rw [hsource₄, h₃.books, hbooks₂]
    have hheld_notMem : f ∉ held := fun hmem => LawfulSource.notFree hheld hmem hf
    refine ⟨?_, ?_, hbooks₅.trans hbooks₄, hbooks₄ ▸ hagree₅⟩
    · rwa [Finset.erase_insert hheld_notMem] at hheld₅
    · rw [hfree₅, hfree₄, h₃.free, hfree₂, Finset.insert_erase hf]
  obtain ⟨held, hheld, -⟩ := hd.held
  obtain ⟨hf, -, -, -, hagree₁⟩ := LawfulSource.alloc_some hheld hlinked.alloc
  obtain ⟨-, hfree₂, hbooks₂⟩ := hlinked.holds hd hway hheld
  obtain ⟨-, hfree₅, hbooks₅, hagree₅⟩ := hsource hheld
  refine ⟨⟨?_, ?_⟩, hfree₅, fun hheld => (hsource hheld).1, hbooks₅, ?_⟩
  · rw [hagree₅.window, hagree₃₄.window, h₃.memory.window, hagree₁₂.window, hagree₁.window]
  · rintro t ⟨hnotFree, hnotBooks⟩
    have hne : f ≠ t.table := by
      rintro rfl
      exact hnotFree hf
    have hunused : ((s₁.memory.clear f).entry path.slot).present = false := by
      rwa [(hd.take (Nat.le_of_lt hle) hlinked.alloc).2.2.1.entry ⟨_, hway.height hd.fits⟩]
    have hentry := h₃.memory.entry t ⟨fun hin => hnotFree ?_, ?_⟩
    · have hback := Memory.entry_put_put hunused (hway.head_ne hd.fits) hlinked.room
        (hlinked.memory ▸ hentry)
      have hold₁ : (s₁.memory.clear f).entry t = s.memory.entry t := by
        rw [Memory.entry_clear, if_neg hne, Memory.entry, hagree₁.word t hnotBooks, Memory.entry]
      have hmemory₄ : s₄.memory = s₃.memory.put path .absent (· - 1) := by rw [h₄]
      rw [Memory.entry, hagree₅.word t hnotBooks, hmemory₄, ← hold₁]
      exact hback
    · rw [hfree₂] at hin
      exact Finset.mem_of_mem_erase hin
    · rw [hbooks₂]
      exact hnotBooks
  · intro hex
    have := hexact hex
    have hsame₁₂ : SameBooks s₁ s₂ := ⟨hlinked.source,
      hagree₁₂.anti fun g hg htable => hd₂.notBooks htable (hlinked.source ▸ hg)⟩
    have hsame₃₄ : SameBooks s₃ s₄ := ⟨hsource₄,
      hagree₃₄.anti fun g hg htable => hd₃.notBooks htable hg⟩
    exact RestoringSource.free_alloc hheld hlinked.alloc
      ((hsame₁₂.trans (h₃.same hex)).trans hsame₃₄) h₅

/-- **The release that starts at a new table undoes the making of it**, and then what the release
from the table above undoes. -/
theorem Undoes.link {s₂ : Store A} (hundo : Undoes excuse exact base path.slot.table path.holders s)
    (hlinked : Linked C s s₁ path f h e s₂) (hd : C.Describes s)
    (hway : C.Way s.memory.outline root va (h + 1) path)
    (hold : (s.memory.entry path.slot).present = false) (hle : h < rootHeight)
    (hexact : exact → RestoringSource A) (hexcuse : C.lending → ∀ p, excuse p) :
    Undoes excuse exact base f (path.slot :: path.holders) s₂ := by
  intro s₃ h₃
  have hd₃ := h₃.describes hlinked.describes
  have hkeeps := h₃.keepsTables hlinked.describes
  have hnone := hlinked.height_eq_none hd
  have hslot : (C.add f h).IsTable path.slot.table :=
    ⟨h + 1, height_add_of_some hnone (hway.height hd.fits)⟩
  have hway₃ := (hlinked.way hd hle hway).congr hlinked.describes.fits hkeeps.outline
  have hentry₂ : s₂.memory.entry path.slot = e := by
    rw [hlinked.memory, Memory.entry_put_self (hway.head_ne hd.fits)]
  have hentry : s₃.memory.entry path.slot = e := by
    rw [hkeeps.entry_of_present hslot, hentry₂]
    rw [hentry₂]
    exact Entry.present_of_isTable hlinked.newLink.isTable
  have hempty : (e.owned && e.liveChildren == 0) = true :=
    empty_iff.mpr ⟨hlinked.newLink.owned, congrArg Fin.val hlinked.newLink.liveChildren⟩
  refine .bind_run (Store.run_entry (hd₃.shown hslot)) ?_
  rw [hentry, if_pos hempty]
  refine (vacate_holder_ensures hd₃ hway₃.isRoot hway₃.leads hexcuse).bind ?_
  rintro _ s₄ ⟨h₄, hd₄⟩
  have hours : ¬ C.foreign f := by
    intro hforeign
    obtain ⟨k, hk⟩ := hd.fits.known hforeign
    rw [hnone] at hk
    cases hk
  obtain ⟨held, hheld, hmem⟩ := hd₄.held
  obtain ⟨s₅, h₅, hheld₅, -⟩ :=
    LawfulSource.free_returns hheld (hmem f ⟨h, height_add_self⟩ hours)
  have hrestored := hlinked.restored hd hway hold hle hexact h₃ h₄ h₅
  exact .bind_run h₅ (.bind_run Store.run_note (hundo _ (hrestored.trans (.of_eq hheld₅ rfl rfl))))

end Space

end KernelMemory
