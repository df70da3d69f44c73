import KernelMemory.Proofs.Frames.Lawful
import KernelMemory.Proofs.Space.Edits

/-!
# States that a chart describes

`Chart.Describes` is the invariant of the memory manager: memory fits the chart, the counts are
right, and the source of frames knows nothing of the tables but that those the kernel allocated are
held. Every step of an operation keeps it, on a chart that gains or loses the table that comes or
goes.

* `Chart.Way` — a path that an address takes through the tables of a chart.
* **`Describes.put`** — an entry is written and the nearest holder recounted.
* **`Describes.take`** — a frame is handed out, cleared and put on the chart as a table.
* **`Describes.give`** — a table that nothing links is given back.
-/

namespace KernelMemory

variable {A : Type} [FrameSource A] [LawfulSource A]

namespace Chart

variable {C : Chart} {o : Outline} {s s' : Store A} {f root : Frame} {va : VirtAddr} {h : Nat}
  {path : Path} {e : Entry} {g : Nat → Nat} {excuse : Panic → Prop}

/-! ## Ways of addresses -/

/-- The path is the way of an address from a root to a slot of a table of the given height. -/
structure Way (C : Chart) (o : Outline) (root : Frame) (va : VirtAddr) (h : Nat) (path : Path) :
    Prop where
  isRoot : C.IsRoot root
  leads : o.Leads root va path.holders path.slot.table h
  index : path.slot.index = va.index h

namespace Way

lemma ofRoot (hroot : C.IsRoot root) : C.Way o root va rootHeight (.ofRoot root va) :=
  ⟨hroot, .root, rfl⟩

lemma ofHolder {x : Slot} {above : List Slot} (hroot : C.IsRoot root)
    (hl : o.Leads root va (x :: above) f h) :
    C.Way o root va (h + 1) { slot := x, holders := above } :=
  ⟨hroot, hl.uncons.1, hl.uncons.2.1⟩

lemma slot_eq (hway : C.Way o root va h path) : path.slot = ⟨path.slot.table, va.index h⟩ :=
  Slot.ext rfl hway.index

/-- A link leads one step further down. -/
lemma down (hway : C.Way o root va (h + 1) path) (htable : (o path.slot).isTable = true) :
    C.Way o root va h (path.down (o path.slot).frame (va.index h)) where
  isRoot := hway.isRoot
  leads := hway.leads.through hway.index htable
  index := rfl

lemma height (hway : C.Way o root va h path) (hfit : C.Fits o) :
    C.height path.slot.table = some h :=
  hfit.height_of_leads hway.isRoot hway.leads

lemma slot_of_rootHeight (hway : C.Way o root va rootHeight path) :
    path.slot = ⟨root, va.index rootHeight⟩ :=
  Slot.ext hway.leads.of_rootHeight.2 hway.index

lemma resolve_eq (hway : C.Way o root va h path) :
    o.resolve root va = o.follow va h (o path.slot) := by
  rw [hway.leads.resolve_eq, ← hway.slot_eq]

/-- The nearest holder links the table of the slot, and stands one level above. -/
lemma head (hway : C.Way o root va h path) (hfit : C.Fits o) {x : Slot}
    (hx : path.holders.head? = some x) :
    C.Links o x path.slot.table ∧ C.height x.table = some (h + 1) := by
  have hl := hway.leads
  cases hholders : path.holders with
  | nil =>
      rw [hholders] at hx
      cases hx
  | cons y rest =>
      rw [hholders] at hx hl
      obtain rfl := Option.some.inj hx
      exact hfit.links_of_leads hway.isRoot hl

lemma head_ne (hway : C.Way o root va h path) (hfit : C.Fits o) :
    path.holders.head? ≠ some path.slot := by
  intro hx
  have heq := (hway.height hfit).symm.trans (hway.head hfit hx).2
  simp at heq

lemma update (hway : C.Way o root va h path) (hfit : C.Fits o) :
    C.Way (Function.update o path.slot e) root va h path where
  isRoot := hway.isRoot
  leads := hfit.leads_update hway.isRoot hway.leads
  index := hway.index

/-- An edit of the slot leaves the way to it as it is. -/
lemma put {m : Memory} (hway : C.Way m.outline root va h path) (hfit : C.Fits m.outline) :
    C.Way (Memory.outline (m.put path e g)) root va h path := by
  rw [Memory.outline_put (hway.head_ne hfit)]
  exact hway.update hfit

/-- The way is the same in an outline with the same tables. -/
lemma congr {o' : Outline} (hway : C.Way o root va h path) (hfit : C.Fits o)
    (hkeeps : C.Keeps o o') : C.Way o' root va h path where
  isRoot := hway.isRoot
  leads := hway.leads.congr fun _ hx =>
    ((hfit.links_of_mem_holders hway.isRoot hway.leads hx).1.keeps hkeeps).2
  index := hway.index

/-- An address has one way to each height. -/
lemma unique {path' : Path} (hway : C.Way o root va h path) (hway' : C.Way o root va h path') :
    path = path' := by
  obtain ⟨hholders, htable⟩ := hway.leads.unique hway'.leads
  exact Path.ext (Slot.ext htable (hway.index.trans hway'.index.symm)) hholders

lemma agreesOn_put {m : Memory} (hway : C.Way o root va h path) (hfit : C.Fits o) :
    m.AgreesOn (fun f => ¬ C.IsTable f) (m.put path e g) := by
  refine ⟨Memory.window_put, fun t ht => Memory.word_put ?_ fun x hx heq => ?_⟩
  · intro heq
    exact ht ⟨h, heq ▸ hway.height hfit⟩
  · exact ht ⟨h + 1, heq ▸ (hway.head hfit hx).2⟩

end Way

/-! ## The invariant -/

/-- **A chart describes a state.** -/
structure Describes (C : Chart) (s : Store A) : Prop where
  /-- The links are as the chart says. -/
  fits : C.Fits s.memory.outline
  /-- The counts are right. -/
  counted : C.Counted s.memory.outline s.memory.live
  /-- The tables can be used. -/
  shown {f : Frame} : C.IsTable f → s.memory.Shows f
  /-- No table is free. -/
  notFree {f : Frame} : C.IsTable f → f ∉ freeFrames s
  /-- No table holds the books of the source. -/
  notBooks {f : Frame} : C.IsTable f → ¬ Books s.source f
  /-- The tables that the kernel allocated are held. -/
  held : ∃ held, Holds s held ∧ ∀ f, C.IsTable f → ¬ C.foreign f → f ∈ held

end Chart

/-! ## Tables that are kept -/

/-- **The tables in a set of frames are kept**, except that slots that were unused may be empty now.
-/
structure Memory.KeepsOn (on : Frame → Prop) (m m' : Memory) : Prop where
  /-- The same frames are shown. -/
  window : m'.window = m.window
  /-- The entries are the same, or were not present and are absent now. -/
  entry : ∀ t : Slot, on t.table →
    m'.entry t = m.entry t ∨ (m.entry t).present = false ∧ m'.entry t = .absent

lemma Memory.AgreesOn.keepsOn {on : Frame → Prop} {m m' : Memory} (h : m.AgreesOn on m') :
    m.KeepsOn on m' :=
  ⟨h.window, fun _ ht => .inl (h.entry ht)⟩

namespace Memory.KeepsOn

variable {on on' : Frame → Prop} {m m' m'' : Memory}

lemma refl (m : Memory) : m.KeepsOn on m := ⟨rfl, fun _ _ => .inl rfl⟩

lemma trans (h : m.KeepsOn on m') (h' : m'.KeepsOn on m'') : m.KeepsOn on m'' where
  window := h'.window.trans h.window
  entry t ht := by
    rcases h.entry t ht with heq | ⟨hold, hnew⟩
    · rw [← heq]
      exact h'.entry t ht
    · refine .inr ⟨hold, ?_⟩
      rcases h'.entry t ht with heq | ⟨-, hnew'⟩
      · exact heq.trans hnew
      · exact hnew'

lemma anti (h : m.KeepsOn on m') (hon : ∀ f, on' f → on f) : m.KeepsOn on' m' where
  window := h.window
  entry t ht := h.entry t (hon _ ht)

lemma entry_of_present (h : m.KeepsOn on m') {t : Slot} (ht : on t.table)
    (hpresent : (m.entry t).present = true) : m'.entry t = m.entry t :=
  (h.entry t ht).resolve_right fun ⟨hold, _⟩ => by simp [hpresent] at hold

lemma live (h : m.KeepsOn on m') (t : Slot) (ht : on t.table)
    (hpresent : (m.outline t).present = true) : m'.live t = m.live t := by
  rw [Memory.live, Memory.live, h.entry_of_present ht (by simpa using hpresent)]

lemma outline {C : Chart} (h : m.KeepsOn C.IsTable m') : C.Keeps m.outline m'.outline := by
  intro t ht
  rcases h.entry t ht with heq | ⟨hold, hnew⟩
  · exact .inl (by rw [Memory.outline_apply, Memory.outline_apply, heq])
  · exact .inr ⟨by simpa using hold, by rw [Memory.outline_apply, hnew, Entry.outline_absent]⟩

end Memory.KeepsOn

namespace Chart

variable {C : Chart} {o : Outline} {s s' : Store A} {f root : Frame} {va : VirtAddr} {h : Nat}
  {path : Path} {e : Entry} {g : Nat → Nat} {excuse : Panic → Prop}

/-- The tables of a chart are the same in two memories. -/
abbrev SameTables (C : Chart) (m m' : Memory) : Prop :=
  m.AgreesOn C.IsTable m'

namespace SameTables

variable {m m' : Memory}

lemma outline (hsame : C.SameTables m m') (t : Slot) (ht : C.IsTable t.table) :
    m'.outline t = m.outline t := by
  rw [Memory.outline_apply, Memory.outline_apply, hsame.entry ht]

lemma live (hsame : C.SameTables m m') (t : Slot) (ht : C.IsTable t.table) :
    m'.live t = m.live t := by
  rw [Memory.live, Memory.live, hsame.entry ht]

end SameTables

/-- Tables without anything in unused slots are the same if they are kept. -/
lemma Fits.sameTables {m m' : Memory} (hfit : C.Fits m.outline) (hclean : C.clean)
    (hkeeps : m.KeepsOn C.IsTable m') : C.SameTables m m' := by
  refine ⟨hkeeps.window, fun t ht => Memory.word_eq_of_entry_eq ?_⟩
  rcases hkeeps.entry t ht with heq | ⟨hold, hnew⟩
  · exact heq
  · rw [hnew, ← Entry.outline_eq_absent.mp (hfit.unused hclean ht (by simpa using hold))]

namespace Describes

/-- **The frame rule**: what happens outside the tables does not matter, as long as the source
neither frees a table nor forgets that it is held. -/
theorem frame (hd : C.Describes s) (hkeeps : s.memory.KeepsOn C.IsTable s'.memory)
    (hfree : ∀ f, C.IsTable f → f ∉ freeFrames s') (hbooks : Books s'.source = Books s.source)
    (hheld : ∃ held, Holds s' held ∧ ∀ f, C.IsTable f → ¬ C.foreign f → f ∈ held) :
    C.Describes s' where
  fits := hd.fits.congr hkeeps.outline
  counted := hd.counted.congr hd.fits hkeeps.outline hkeeps.live
  shown hf := (hd.shown hf).of_window hkeeps.window
  notFree := hfree _
  notBooks hf := by
    rw [hbooks]
    exact hd.notBooks hf
  held := hheld

/-- What is noted does not matter. -/
lemma of_eq (hd : C.Describes s) (hmemory : s'.memory = s.memory)
    (hsource : s'.source = s.source) :
    C.Describes s' := by
  obtain ⟨held, hheld, hmem⟩ := hd.held
  obtain ⟨hheld, hfree⟩ := LawfulSource.congr hheld hsource (hmemory ▸ .refl _)
  refine hd.frame (hmemory ▸ .refl _) (fun _ hf => ?_) (by rw [hsource]) ⟨held, hheld, hmem⟩
  rw [hfree]
  exact hd.notFree hf

lemma freeFrames_of_eq (hd : C.Describes s) (hmemory : s'.memory = s.memory)
    (hsource : s'.source = s.source) : freeFrames s' = freeFrames s := by
  obtain ⟨held, hheld, -⟩ := hd.held
  exact (LawfulSource.congr hheld hsource (hmemory ▸ .refl _)).2

lemma ready (hd : C.Describes s) (hway : C.Way s.memory.outline root va h path) :
    Space.Ready s.memory path where
  slot := hd.shown ⟨h, hway.height hd.fits⟩
  head _ hx := hd.shown ⟨h + 1, (hway.head hd.fits hx).2⟩
  ne := hway.head_ne hd.fits

/-- The counter of the nearest holder has room for one more child, if the slot is unused. -/
lemma room (hd : C.Describes s) (hway : C.Way s.memory.outline root va h path)
    (hold : (s.memory.entry path.slot).present = false) (hexcuse : C.lending → ∀ p, excuse p) :
    s.memory.Room path.holders (· + 1) ∨ excuse .liveCountFull := by
  by_cases hlending : C.lending
  · exact .inr (hexcuse hlending _)
  · refine .inl fun x hx howned => ?_
    have hlink := (hway.head hd.fits hx).1
    have hcount := hd.counted x _ hlink (by simpa using howned) fun hlends => hlending hlends.1
    have hlt : s.memory.outline.count path.slot.table < 512 :=
      Outline.count_lt (o := s.memory.outline) (s := path.slot) (by simpa using hold)
    change s.memory.live x + 1 < 2048
    omega

/-- The nearest holder counts a child, if the slot is in use. -/
lemma live_ne_zero (hd : C.Describes s) (hway : C.Way s.memory.outline root va h path)
    (hold : (s.memory.entry path.slot).present = true) (hexcuse : C.lending → ∀ p, excuse p)
    {p : Panic} :
    (∀ x, path.holders.head? = some x → (s.memory.entry x).owned = true → s.memory.live x ≠ 0) ∨
      excuse p := by
  by_cases hlending : C.lending
  · exact .inr (hexcuse hlending p)
  · left
    intro x hx howned
    have hlink := (hway.head hd.fits hx).1
    have hcount := hd.counted x _ hlink (by simpa using howned) fun hlends => hlending hlends.1
    rw [hcount]
    exact Outline.count_ne_zero (o := s.memory.outline) (s := path.slot) (by simpa using hold)

/-! ## Steps -/

/-- An edit touches tables only, so that the source does not notice it. -/
lemma holds_put {held : Finset Frame} (hd : C.Describes s)
    (hway : C.Way s.memory.outline root va h path) (hheld : Holds s held) :
    Holds { s with memory := s.memory.put path e g } held ∧
      freeFrames { s with memory := s.memory.put path e g } = freeFrames s :=
  LawfulSource.congr hheld rfl
    ((hway.agreesOn_put hd.fits).anti fun _ hbooks htable => hd.notBooks htable hbooks)

lemma freeFrames_put (hd : C.Describes s) (hway : C.Way s.memory.outline root va h path) :
    freeFrames { s with memory := s.memory.put path e g } = freeFrames s := by
  obtain ⟨held, hheld, -⟩ := hd.held
  exact (hd.holds_put hway hheld).2

/-- **An entry is written and the nearest holder recounted.** -/
theorem put (hd : C.Describes s) (hway : C.Way s.memory.outline root va h path)
    (hroom : s.memory.Room path.holders g) (hcan : C.CanWrite s.memory.outline path.slot e.outline)
    (hthis : Outline.count (Function.update s.memory.outline path.slot e.outline) path.slot.table =
      g (s.memory.outline.count path.slot.table))
    (hself : ∀ k, h = k + 1 → e.isTable = true → e.owned = true → e.liveChildren.val =
      Outline.count (Function.update s.memory.outline path.slot e.outline) e.frame) :
    C.Describes { s with memory := s.memory.put path e g } := by
  have hne := hway.head_ne hd.fits
  have hslot := hway.height hd.fits
  obtain ⟨held, hheld, hmem⟩ := hd.held
  obtain ⟨hheld', hfree⟩ := hd.holds_put (e := e) (g := g) hway hheld
  constructor
  case fits =>
    rw [Memory.outline_put hne]
    exact hd.fits.write hcan
  case counted =>
    rw [Memory.outline_put hne]
    refine hd.counted.write hd.fits hway.isRoot hway.leads (fun x hx => Memory.live_put hroom hx)
      hthis ?_
    intro k hk htable howned
    rw [Memory.live_put_self hne]
    obtain rfl : h = k + 1 := Option.some.inj (hslot.symm.trans hk)
    simpa using hself k rfl (by simpa using htable) (by simpa using howned)
  case shown => exact fun hf => (hd.shown hf).of_window Memory.window_put
  case notFree =>
    intro f hf
    rw [hfree]
    exact hd.notFree hf
  case notBooks => exact fun hf => hd.notBooks hf
  case held => exact ⟨held, hheld', hmem⟩

/-- A blank frame that is held is put on the chart as a table. -/
lemma add (hd : C.Describes s) (hf : C.height f = none) (hblank : s.memory.outline.Blank f)
    (hh : h ≤ rootHeight) (hshown : s.memory.Shows f) (hfree : f ∉ freeFrames s)
    (hbooks : ¬ Books s.source f)
    (hheld : ∃ held, Holds s held ∧ f ∈ held ∧ ∀ g, C.IsTable g → ¬ C.foreign g → g ∈ held) :
    (C.add f h).Describes s := by
  constructor
  case fits => exact hd.fits.add hf hblank hh
  case counted => exact hd.counted.add hf hblank
  case shown =>
    intro g hg
    rcases isTable_add.mp hg with rfl | hg
    · exact hshown
    · exact hd.shown hg
  case notFree =>
    intro g hg
    rcases isTable_add.mp hg with rfl | hg
    · exact hfree
    · exact hd.notFree hg
  case notBooks =>
    intro g hg
    rcases isTable_add.mp hg with rfl | hg
    · exact hbooks
    · exact hd.notBooks hg
  case held =>
    obtain ⟨held, hheld, hmem, hrest⟩ := hheld
    refine ⟨held, hheld, fun g hg hours => ?_⟩
    rcases isTable_add.mp hg with rfl | hg
    · exact hmem
    · exact hrest g hg hours

/-- A request for a frame that is refused leaves everything as it was. -/
lemma refused (hd : C.Describes s)
    (hrun : (FrameSource.alloc : Action (Store A) _).run s = .ok none s') :
    C.Describes s' ∧ C.SameTables s.memory s'.memory := by
  obtain ⟨held, hheld, hmem⟩ := hd.held
  obtain ⟨hheld', hfree, hbooks, hagree⟩ := LawfulSource.alloc_none hheld hrun
  have hsame : C.SameTables s.memory s'.memory := hagree.anti fun _ hf => hd.notBooks hf
  refine ⟨hd.frame hsame.keepsOn (fun _ hf => ?_) hbooks ⟨held, hheld', hmem⟩, hsame⟩
  rw [hfree]
  exact hd.notFree hf

/-- A frame that is handed out can be used, and is on no chart. -/
lemma fresh (hd : C.Describes s) (hf : f ∈ freeFrames s) :
    C.height f = none ∧ f.number < 2 ^ 40 ∧ s.memory.Shows f ∧ ¬ Books s.source f := by
  obtain ⟨held, hheld, -⟩ := hd.held
  refine ⟨?_, LawfulSource.number_lt hheld hf, LawfulSource.shown hheld hf,
    LawfulSource.notBooks hheld hf⟩
  cases hheight : C.height f with
  | none => rfl
  | some k => exact absurd hf (hd.notFree ⟨k, hheight⟩)

/-- Clearing a frame that was handed out does not touch the books. -/
lemma holds_take {held : Finset Frame} (hd : C.Describes s) (hheld : Holds s held)
    (hrun : (FrameSource.alloc : Action (Store A) _).run s = .ok (some f) s') :
    Holds { s' with memory := s'.memory.clear f } (insert f held) ∧
      freeFrames { s' with memory := s'.memory.clear f } = (freeFrames s).erase f := by
  obtain ⟨hf, hheld₁, hfree₁, hbooks₁, -⟩ := LawfulSource.alloc_some hheld hrun
  obtain ⟨-, -, -, hnotBooks⟩ := hd.fresh hf
  have hagree : s'.memory.AgreesOn (Books s'.source) (s'.memory.clear f) := by
    refine ⟨rfl, fun t ht => ?_⟩
    rw [Memory.word_clear, if_neg]
    rintro rfl
    rw [hbooks₁] at ht
    exact hnotBooks ht
  obtain ⟨hheld₂, hfree₂⟩ := LawfulSource.congr hheld₁
    (show ({ s' with memory := s'.memory.clear f } : Store A).source = s'.source from rfl) hagree
  exact ⟨hheld₂, hfree₂.trans hfree₁⟩

lemma freeFrames_take (hd : C.Describes s)
    (hrun : (FrameSource.alloc : Action (Store A) _).run s = .ok (some f) s') :
    freeFrames { s' with memory := s'.memory.clear f } = (freeFrames s).erase f := by
  obtain ⟨held, hheld, -⟩ := hd.held
  exact (hd.holds_take hheld hrun).2

/-- **A frame is handed out, cleared and put on the chart.** -/
theorem take (hd : C.Describes s) (hh : h ≤ rootHeight)
    (hrun : (FrameSource.alloc : Action (Store A) _).run s = .ok (some f) s') :
    (C.add f h).Describes { s' with memory := s'.memory.clear f } ∧ s'.memory.Shows f ∧
      C.SameTables s.memory (s'.memory.clear f) ∧ (s'.memory.clear f).outline.Blank f := by
  obtain ⟨held, hheld, hmem⟩ := hd.held
  obtain ⟨hf, -, -, hbooks₁, hagree⟩ := LawfulSource.alloc_some hheld hrun
  obtain ⟨hheld₂, hfree₂⟩ := hd.holds_take hheld hrun
  obtain ⟨hnone, -, hshown, hnotBooks⟩ := hd.fresh hf
  have hshown₁ : s'.memory.Shows f := hshown.of_window hagree.window
  -- Clearing the frame touches no table.
  have hsame : C.SameTables s.memory (s'.memory.clear f) := by
    refine ⟨hagree.window, fun t ht => ?_⟩
    rw [Memory.word_clear, if_neg, hagree.word t (hd.notBooks ht)]
    rintro rfl
    exact hd.notFree ht hf
  have hblank : (s'.memory.clear f).outline.Blank f := by
    intro i
    rw [Memory.outline_apply, Memory.entry_clear, if_pos rfl, Entry.outline_absent]
  have hframe : C.Describes { s' with memory := s'.memory.clear f } := by
    refine hd.frame hsame.keepsOn (fun g hg => ?_) hbooks₁
      ⟨insert f held, hheld₂, fun g hg hours => Finset.mem_insert_of_mem (hmem g hg hours)⟩
    rw [hfree₂]
    exact fun hin => hd.notFree hg (Finset.mem_of_mem_erase hin)
  refine ⟨hframe.add hnone hblank hh (hshown₁.of_window rfl) ?_ ?_ ⟨_, hheld₂,
    Finset.mem_insert_self f held, fun g hg hours => Finset.mem_insert_of_mem (hmem g hg hours)⟩,
    hshown₁, hsame, hblank⟩
  · rw [hfree₂]
    exact Finset.notMem_erase f _
  · rw [show Books _ = Books s.source from hbooks₁]
    exact hnotBooks

/-- **A table that nothing links is given back.** -/
theorem give (hd : C.Describes s) (htable : C.IsTable f) (hours : ¬ C.foreign f)
    (hlinks : ∀ t, ¬ C.Links s.memory.outline t f) :
    ∃ s', (FrameSource.free f : Action (Store A) _).run s = .ok () s' ∧ (C.drop f).Describes s' ∧
      C.SameTables s.memory s'.memory ∧ freeFrames s' = insert f (freeFrames s) := by
  obtain ⟨held, hheld, hmem⟩ := hd.held
  obtain ⟨s', hrun, hheld', hfree', hbooks', hagree⟩ :=
    LawfulSource.free_returns hheld (hmem f htable hours)
  have hsame : C.SameTables s.memory s'.memory := hagree.anti fun _ hg => hd.notBooks hg
  have hsub : ∀ {g}, (C.drop f).IsTable g → g ≠ f ∧ C.IsTable g := isTable_drop.mp
  refine ⟨s', hrun, ?_, hsame, hfree'⟩
  constructor
  case fits =>
    exact (hd.fits.drop hlinks hours).congr (.of_eq fun t ht => hsame.outline t (hsub ht).2)
  case counted =>
    exact (hd.counted.congr hd.fits hsame.keepsOn.outline hsame.keepsOn.live).drop
  case shown => exact fun hg => (hd.shown (hsub hg).2).of_window hsame.window
  case notFree =>
    intro g hg hin
    rw [hfree'] at hin
    rcases Finset.mem_insert.mp hin with rfl | hin
    · exact (hsub hg).1 rfl
    · exact hd.notFree (hsub hg).2 hin
  case notBooks =>
    intro g hg
    rw [hbooks']
    exact hd.notBooks (hsub hg).2
  case held =>
    exact ⟨held.erase f, hheld', fun g hg hforeign =>
      Finset.mem_erase.mpr ⟨(hsub hg).1, hmem g (hsub hg).2 hforeign⟩⟩

end Describes

end Chart

end KernelMemory
