import KernelMemory.Proofs.Space.Indices
import KernelMemory.Proofs.Space.Lookup
import KernelMemory.Proofs.Space.Reach

/-!
# The calls of an address space

What each call does to a state that a chart describes.  A call that fails restores the state; a call
that succeeds gives a state of the same kind, in which the addresses of one page have another
meaning and all others the same.

* `Chart.Settled`, `Chart.Sound` — the state between two calls.
* `Chart.Rewrites` — one entry for a page is replaced.
* `Chart.Rebinds` — the addresses of one page change their meaning.
* **`AddressSpace.map_ends`** — how the mapping of a page ends: `AddressSpace.Filled` or
  `AddressSpace.Refuses`.
* **`AddressSpace.create_ensures`**, **`AddressSpace.map_ensures`**,
  **`AddressSpace.unmap_ensures`**, **`AddressSpace.walkOrCreate_ensures`** — the calls.
-/

namespace KernelMemory

/-! ## Pages of addresses -/

/-- The addresses of a page stand for the same. -/
lemma Outline.resolve_samePage {o : Outline} {root : Frame} {va va' : VirtAddr}
    (hpage : Address.SamePage va va') : o.resolve root va' = o.resolve root va := by
  have hfollow : ∀ h ≤ rootHeight, ∀ e, o.follow va' h e = o.follow va h e := by
    intro h
    induction h with
    | zero => exact fun _ e => rfl
    | succ h ih =>
        intro hle e
        rw [follow, follow, hpage h (by omega), ih (by omega)]
  rw [resolve, resolve, hpage rootHeight (le_refl _), hfollow rootHeight (le_refl _)]

namespace Chart

variable {C : Chart} {o o' o'' : Outline} {root : Frame} {va : VirtAddr} {path : Path} {e : Entry}
  {e? : Option Entry} {slot : Slot}

/-- **The addresses of one page change their meaning**, and all others keep theirs. -/
structure Rebinds (o o' : Outline) (root : Frame) (va : VirtAddr) (e? : Option Entry) : Prop where
  /-- The addresses of the page stand for what the entry says. -/
  here {va' : VirtAddr} : Address.SamePage va va' → o'.resolve root va' = e?.map fun e => (e, 0)
  /-- All other addresses stand for what they stood for. -/
  elsewhere {va' : VirtAddr} : ¬ Address.SamePage va va' → o'.resolve root va' = o.resolve root va'

namespace Rebinds

lemma of_unseen (h : Rebinds o' o'' root va e?) (hunseen : C.Unseen o o')
    (hroot : C.IsRoot root) : Rebinds o o'' root va e? :=
  ⟨h.here, fun hpage => (h.elsewhere hpage).trans (hunseen root _ hroot)⟩

lemma unseen (h : Rebinds o o' root va e?) (hunseen : C.Unseen o' o'') (hroot : C.IsRoot root) :
    Rebinds o o'' root va e? :=
  ⟨fun hpage => (hunseen root _ hroot).trans (h.here hpage),
    fun hpage => (hunseen root _ hroot).trans (h.elsewhere hpage)⟩

end Rebinds

/-- **A write to the slot of a page is noticed in that page alone**, where every table is linked
once. -/
theorem Fits.rebinds (hfit : C.Fits o) (hlending : ¬ C.lending) (honce : C.BorrowsOnce o)
    (hway : C.Way o root va 0 path) :
    Rebinds o (Function.update o path.slot e) root va (if e.present then some e else none) where
  here {va'} hpage := by
    have hway' := (hway.update hfit (e := e)).leads.of_index fun k _ hk => hpage k hk
    rw [hway'.resolve_eq, hpage 0 (Nat.zero_le _), ← hway.slot_eq, Function.update_self,
      Outline.follow]
    split <;> rfl
  elsewhere {va'} hpage := by
    refine Outline.resolve_update fun holders h hl hindex => hpage fun k hk => ?_
    have hheight := (hway.height hfit).symm.trans (hfit.height_of_leads hway.isRoot hl)
    obtain rfl := Option.some.inj hheight
    rcases Nat.eq_zero_or_pos k with rfl | hpos
    · exact hindex.trans hway.index
    · exact hfit.index_eq hlending honce hway.isRoot hway.leads hl hpos hk

/-- **The entry for a page is replaced**, at the end of the way of an address.  What happens before
and after that is noticed by no address. -/
inductive Rewrites (C : Chart) (o o' : Outline) (root : Frame) (va : VirtAddr) (e : Entry) : Prop
  | intro {C₁ : Chart} {o₁ : Outline} {path : Path} : C.Kin C₁ → C₁.Fits o₁ →
      C.SameBorrowed o C₁ o₁ → C₁.Way o₁ root va 0 path → C.Unseen o o₁ →
      C₁.Unseen (Function.update o₁ path.slot e) o' → Rewrites C o o' root va e

/-- It is noticed in that page alone, where every table is linked once. -/
lemma Rewrites.rebinds (h : C.Rewrites o o' root va e) (hlending : ¬ C.lending)
    (honce : C.BorrowsOnce o) : Rebinds o o' root va (if e.present then some e else none) := by
  obtain ⟨hkin, hfit, hsame, hway, hbefore, hafter⟩ := h
  have hrebinds := hfit.rebinds (hkin.lending ▸ hlending) (honce.congr hsame) hway (e := e)
  exact (hrebinds.of_unseen hbefore ((hkin.isRoot root).mp hway.isRoot)).unseen hafter hway.isRoot

/-- A page may be written to a slot of the lowest level. -/
lemma canWrite_page (hslot : C.height slot.table = some 0) (hpresent : e.present = true)
    (hplain : e.IsPlain) : C.CanWrite o slot e where
  unused habsent := by
    rw [hpresent] at habsent
    cases habsent
  child hk _ := by
    rw [hslot] at hk
    cases hk
  ours hk _ _ := by
    rw [hslot] at hk
    cases hk
  sole hk _ _ _ := by
    rw [hslot] at hk
    cases hk
  inner _ hk _ := by
    rw [hslot] at hk
    cases hk
  leaf _ _ _ := hplain

/-! ## States between two calls -/

variable {A : Type} [FrameSource A] [LawfulSource A] {C' : Chart} {s s' : Store A}
  {exact lowest : Prop}

/-- **A state between two calls**: a chart describes it, and no owned table is empty. -/
structure Settled (C : Chart) (lowest : Prop) (s : Store A) : Prop where
  describes : C.Describes s
  busy : C.Busy lowest s.memory.outline s.memory.live

namespace Settled

lemma mono {lowest' : Prop} (hs : C.Settled lowest s) (hlowest : lowest' → lowest) :
    C.Settled lowest' s where
  describes := hs.describes
  busy x f k hl howned hf hk := hs.busy x f k hl howned hf (hk.imp_right hlowest)

lemma restored (hs : C.Settled lowest s) (h : Restored exact s s') : C.Settled lowest s' where
  describes := h.describes hs.describes
  busy := by
    have hkeeps := h.keepsTables hs.describes
    exact hs.busy.congr hkeeps.outline hkeeps.live

lemma of_eq (hs : C.Settled lowest s) (hmemory : s'.memory = s.memory)
    (hsource : s'.source = s.source) : C.Settled lowest s' where
  describes := hs.describes.of_eq hmemory hsource
  busy := by
    rw [hmemory]
    exact hs.busy

/-- A new root is put on the chart. -/
lemma newRoot {f : Frame} (hs : C.Settled lowest s)
    (hrun : (FrameSource.alloc : Action (Store A) _).run s = .ok (some f) s') :
    (C.add f rootHeight).Settled lowest { s' with memory := s'.memory.clear f } := by
  obtain ⟨hd, -, hsame, hblank⟩ := hs.describes.take (le_refl rootHeight) hrun
  obtain ⟨held, hheld, -⟩ := hs.describes.held
  obtain ⟨hf, -⟩ := LawfulSource.alloc_some hheld hrun
  have hkeeps := hsame.keepsOn
  exact ⟨hd, (hs.busy.congr hkeeps.outline hkeeps.live).add (hs.describes.fits.congr hkeeps.outline)
    (hs.describes.fresh hf).1 hblank⟩

end Settled

/-- **A state between two calls** where nothing stands in unused slots; tables of the lowest level
may be empty. -/
structure Sound (C : Chart) (s : Store A) : Prop extends C.Settled False s where
  clean : C.clean

namespace Sound

lemma evolve (hs : C.Sound s) (hkin : C.Kin C') (hs' : C'.Settled False s') : C'.Sound s' :=
  ⟨hs', hkin.clean ▸ hs.clean⟩

lemma restored (hs : C.Sound s) (h : Restored exact s s') : C.Sound s' :=
  ⟨hs.toSettled.restored h, hs.clean⟩

lemma of_eq (hs : C.Sound s) (hmemory : s'.memory = s.memory)
    (hsource : s'.source = s.source) : C.Sound s' :=
  ⟨hs.toSettled.of_eq hmemory hsource, hs.clean⟩

end Sound

/-- The chart without a table. -/
def empty (lending tidy : Prop) : Chart where
  height _ := none
  foreign _ := False
  lending := lending
  tidy := tidy
  clean := True

lemma not_isTable_empty {lending tidy : Prop} {f : Frame} : ¬ (empty lending tidy).IsTable f := by
  rintro ⟨h, hf⟩
  cases hf

lemma not_links_empty {lending tidy : Prop} {x : Slot} {f : Frame} :
    ¬ (empty lending tidy).Links o x f :=
  fun hl => not_isTable_empty (hl.inner.imp' _ fun _ h => h)

/-- It fits every outline. -/
lemma fits_empty {lending tidy : Prop} : (empty lending tidy).Fits o where
  height_le hf := absurd ⟨_, hf⟩ not_isTable_empty
  child hl := absurd hl not_links_empty
  sole hl := absurd hl not_links_empty
  known hforeign := hforeign.elim
  ours hl := absurd hl not_links_empty
  unused _ htable := absurd htable not_isTable_empty
  inner _ hf := absurd ⟨_, hf⟩ not_isTable_empty
  leaf _ hf := absurd ⟨_, hf⟩ not_isTable_empty

/-- It describes every state in which the books of the source are in order. -/
lemma settled_empty {lending tidy : Prop} {held : Finset Frame} (hheld : Holds s held) :
    (empty lending tidy).Settled lowest s where
  describes := {
    fits := fits_empty
    counted := fun _ _ hl => absurd hl not_links_empty
    shown := fun htable => absurd htable not_isTable_empty
    notFree := fun htable => absurd htable not_isTable_empty
    notBooks := fun htable => absurd htable not_isTable_empty
    held := ⟨held, hheld, fun _ htable => absurd htable not_isTable_empty⟩ }
  busy _ _ _ hl := absurd hl not_links_empty

/-- The chart of a root without other tables. -/
def single (lending tidy : Prop) (root : Frame) : Chart :=
  (empty lending tidy).add root rootHeight

lemma isRoot_single {lending tidy : Prop} {f : Frame} :
    (single lending tidy root).IsRoot f ↔ f = root :=
  isRoot_add.trans (or_iff_left fun hroot => not_isTable_empty ⟨_, hroot⟩)

end Chart

/-! ## The calls -/

namespace AddressSpace

open Chart KernelMemory.Action

variable {A : Type} [FrameSource A] [LawfulSource A] {C : Chart} {s : Store A}
  {exact lowest : Prop} {excuse : Panic → Prop} {space : AddressSpace} {va : VirtAddr}
  {pa : PhysAddr} {flags : Flags}

/-- **A new address space** has a root that was free, and nothing in it. -/
theorem create_ensures (hs : C.Settled lowest s) :
    Ensures create excuse s fun r s' => match r with
      | .error e => e = .outOfMemory ∧ Restored False s s'
      | .ok space => C.height space.root = none ∧
          (C.add space.root rootHeight).Settled lowest s' ∧
          C.SameTables s.memory s'.memory ∧ s'.memory.outline.Blank space.root ∧
          space.root ∈ freeFrames s ∧ freeFrames s' = (freeFrames s).erase space.root := by
  have hd := hs.describes
  obtain ⟨held, hheld, -⟩ := hd.held
  obtain ⟨r, s₁, hrun⟩ := LawfulSource.alloc_returns hheld
  refine .bind_run hrun ?_
  cases r with
  | none => exact .pure ⟨rfl, .of_alloc_none hheld hrun fun h : False => h.elim⟩
  | some f =>
      obtain ⟨hf, -⟩ := LawfulSource.alloc_some hheld hrun
      obtain ⟨hd₁, hshown, hsame, hblank⟩ := hd.take (le_refl rootHeight) hrun
      refine .bind_run (Store.run_clearFrame hshown) (.bind_run Store.run_note (.pure ?_))
      refine ⟨(hd.fresh hf).1, (hs.newRoot hrun).of_eq rfl rfl, hsame, hblank, hf, ?_⟩
      rw [← hd.freeFrames_take hrun]
      exact hd₁.freeFrames_of_eq rfl rfl

/-- **The first address space** has a chart of its own. -/
theorem create_settled (lending tidy lowest : Prop) {held : Finset Frame} (hheld : Holds s held) :
    Ensures create excuse s fun r s' => ∀ space, r = .ok space →
      (single lending tidy space.root).Settled lowest s' ∧ s'.memory.outline.Blank space.root ∧
        space.root ∈ freeFrames s ∧ freeFrames s' = (freeFrames s).erase space.root := by
  have hempty : (empty lending tidy).Settled lowest s := settled_empty hheld
  refine (create_ensures hempty).mono fun r s' hend space hr => ?_
  subst hr
  exact ⟨hend.2.1, hend.2.2.2⟩

lemma create_sound (lending tidy : Prop) {held : Finset Frame} (hheld : Holds s held) :
    Ensures create excuse s fun r s' => ∀ space, r = .ok space →
      (single lending tidy space.root).Sound s' ∧ s'.memory.outline.Blank space.root := by
  refine (create_settled lending tidy False hheld).mono fun r s' hend space hr => ?_
  obtain ⟨hs, hblank, -⟩ := hend space hr
  exact ⟨⟨hs, trivial⟩, hblank⟩

/-- **The walk that makes missing tables** ends in one of its ways, or refuses an address that is
not canonical. -/
theorem reach_ensures (va : VirtAddr) (hs : C.Settled lowest s) (hroot : C.IsRoot space.root)
    (hexact : exact → RestoringSource A) (hexcuse : C.lending → ∀ p, excuse p) :
    Ensures (space.reach va) excuse s fun r s' =>
      va.isCanonical = false ∧ r = .error (.invalidRequest .nonCanonical) ∧ s' = s ∨
        va.isCanonical = true ∧ Space.Arrival C excuse exact lowest s s space.root va r s' := by
  rw [reach]
  cases hva : va.isCanonical with
  | false => exact .pure (.inl ⟨rfl, rfl, rfl⟩)
  | true =>
      rw [if_pos rfl]
      refine (Space.reach_ensures hs.describes (.ofRoot hroot) (.inl ⟨rfl, hs.busy⟩) (fun _ => ?_)
        hexact hexcuse).mono fun r s' hend => .inr ⟨rfl, hend⟩
      exact .stop hs.describes (.ofRoot hroot) fun x hx => by cases hx

/-- **A walk for a caller** makes tables and nothing else; if it fails, the state is as it was. -/
theorem walkOrCreate_ensures (hs : C.Settled lowest s) (hroot : C.IsRoot space.root)
    (hexact : exact → RestoringSource A) (hexcuse : C.lending → ∀ p, excuse p) :
    Ensures (space.walkOrCreate va) excuse s fun r s' => match r with
      | .error _ => Restored exact s s'
      | .ok path => ∃ C', C.Evolves C' space.root va s s' ∧ C'.Settled False s' ∧
          C.Unseen s.memory.outline s'.memory.outline ∧ va.isCanonical = true ∧
          C'.Way s'.memory.outline space.root va 0 path := by
  refine (reach_ensures va hs hroot hexact hexcuse).bind fun r s' hend => ?_
  rcases hend with ⟨-, rfl, rfl⟩ | ⟨hva, hend⟩
  · exact .pure (.refl s')
  · rcases r with e | path | ⟨e, k⟩
    · exact .pure hend.2.1
    · obtain ⟨C', hev, hd, hbusy, hunseen, hway, -⟩ := hend
      refine .pure ⟨C', hev, ⟨hd, fun x f k hl howned hf hk hzero => ?_⟩, hunseen, hva, hway⟩
      -- The only table that may be empty is the one that was reached, at the lowest level.
      have hpos : 0 < k := hk.resolve_right id
      have hframe := hl.unique (hway.head hd.fits (hbusy x f k hl howned hf (.inl hpos) hzero)).1
      rw [hframe, hway.height hd.fits, Option.some.injEq] at hf
      omega
    · obtain ⟨rfl, -⟩ := hend
      exact .pure (.refl s')

/-- A page that a physical address can be in can be named by an entry. -/
lemma leaf_eq_ok (flags : Flags) (hpa : pa.value.toNat < 2 ^ physicalAddressBits) :
    ∃ e, Entry.leaf pa.page flags = .ok e ∧ e.present = true ∧ e.frame = pa.page ∧ e.IsPlain := by
  have hnumber : pa.page.number < 2 ^ 40 := by
    simp only [Address.page, pageSize]
    simp only [physicalAddressBits] at hpa
    omega
  rw [Entry.leaf, dif_pos hnumber]
  exact ⟨_, rfl, rfl, rfl, rfl, rfl, rfl, rfl⟩

/-- A page is written to an unused slot. -/
lemma fillPage_ensures {path : Path} {e : Entry} (hd : C.Describes s)
    (hbusy : C.BusyBut lowest s.memory.outline s.memory.live path.holders.head?)
    (hway : C.Way s.memory.outline space.root va 0 path)
    (hold : (s.memory.entry path.slot).present = false) (hpresent : e.present = true)
    (hplain : e.IsPlain) (hexcuse : C.lending → ∀ p, excuse p) :
    Ensures (Space.fill path e) excuse s fun _ s' => C.Settled lowest s' ∧
      s'.memory.outline = Function.update s.memory.outline path.slot e ∧
      C.Evolves C space.root va s s' := by
  have hslot := hway.height hd.fits
  have hne := hway.head_ne hd.fits
  have houtline : e.outline = e := Entry.outline_of_not_owned hplain.owned
  refine (Space.fill_ensures (hd.ready hway) hold (hd.room hway hold hexcuse)).mono ?_
  rintro _ s' ⟨rfl, hroom⟩
  have hput := Memory.outline_put (m := s.memory) (e := e) (g := (· + 1)) hne
  rw [houtline] at hput
  refine ⟨⟨hd.put hway hroom ?_ ?_ ?_, ?_⟩, hput, .of_page hd hway hput (hd.freeFrames_put hway)⟩
  · rw [houtline]
    exact canWrite_page hslot hpresent hplain
  · exact Outline.count_fill (by simpa using hold) (by simpa using hpresent)
  · intro k hk
    cases hk
  · rw [hput]
    refine (hbusy.fill fun x hx => Memory.live_put hroom hx).settle fun f k hl => ?_
    exact absurd rfl (hl.ne_page hslot)

/-- **What mapping a page can be refused for**, in an outline. -/
def Refuses (o : Outline) (root : Frame) (va : VirtAddr) (pa : PhysAddr) : MapError → Prop
  | .invalidRequest .beyondPhysical => 2 ^ physicalAddressBits ≤ pa.value.toNat
  | .invalidRequest .nonCanonical =>
      pa.value.toNat < 2 ^ physicalAddressBits ∧ va.isCanonical = false
  | .alreadyMapped => pa.value.toNat < 2 ^ physicalAddressBits ∧ va.isCanonical = true ∧
      (o.resolve root va).isSome = true
  | .outOfMemory => pa.value.toNat < 2 ^ physicalAddressBits ∧ va.isCanonical = true ∧
      o.resolve root va = none
  | _ => False

/-- **A page was filled in**: `s₁` is the state in which the walk came to the slot of the path, and
`s'` the state once the entry is there. -/
structure Filled (C C' : Chart) (excuse : Panic → Prop) (exact lowest : Prop) (root : Frame)
    (va : VirtAddr) (path : Path) (e : Entry) (s s₁ s' : Store A) : Prop where
  canonical : va.isCanonical = true
  /-- The walk made the tables that were missing, and nothing else. -/
  reached : C.Evolves C' root va s s₁
  describes : C'.Describes s₁
  unseen : C.Unseen s.memory.outline s₁.memory.outline
  way : C'.Way s₁.memory.outline root va 0 path
  unused : (s₁.memory.entry path.slot).present = false
  /-- A release undoes the making of the tables. -/
  undoes : lowest → Space.Undoes excuse exact s path.slot.table path.holders s₁
  /-- The entry was written and the nearest holder recounted. -/
  store : s' = { s₁ with memory := s₁.memory.put path e (· + 1) }
  room : s₁.memory.Room path.holders (· + 1)
  outline : s'.memory.outline = Function.update s₁.memory.outline path.slot e
  written : C'.Evolves C' root va s₁ s'
  settled : C'.Settled lowest s'

/-- The page was not mapped. -/
lemma Filled.resolve_eq_none {C' : Chart} {root : Frame} {path : Path} {e : Entry}
    {s₁ s' : Store A}
    (hfilled : Filled C C' excuse exact lowest root va path e s s₁ s') (hroot : C.IsRoot root) :
    s.memory.outline.resolve root va = none := by
  rw [← hfilled.unseen root va hroot, resolve_slot hfilled.way, if_neg (by simp [hfilled.unused])]

/-- **Mapping a page** fills it in, or is refused and leaves everything as it was. -/
theorem map_ends (hs : C.Settled lowest s) (hroot : C.IsRoot space.root)
    (hexact : exact → RestoringSource A) (hexcuse : C.lending → ∀ p, excuse p) :
    Ensures (space.map va pa flags) excuse s fun r s' => match r with
      | .error e => Refuses s.memory.outline space.root va pa e ∧ Restored exact s s'
      | .ok () => pa.value.toNat < 2 ^ physicalAddressBits ∧ ∃ C' path e s₁,
          Filled C C' excuse exact lowest space.root va path e s s₁ s' ∧ e.present = true ∧
          e.frame = pa.page ∧ e.flags = flags.forPage := by
  by_cases hpa : 2 ^ physicalAddressBits ≤ pa.value.toNat
  · rw [map, if_pos hpa]
    exact .pure ⟨hpa, .refl s⟩
  · rw [map, if_neg hpa]
    have hlt := not_le.mp hpa
    obtain ⟨e, hleaf, hpresent, hframe, hplain⟩ := leaf_eq_ok flags hlt
    refine (reach_ensures va hs hroot hexact hexcuse).bind fun r s₁ hend => ?_
    rcases hend with ⟨hva, rfl, rfl⟩ | ⟨hva, hend⟩
    · exact .pure ⟨⟨hlt, hva⟩, .refl s₁⟩
    · rcases r with err | path | ⟨large, k⟩
      · obtain ⟨rfl, hrestored, hnone⟩ := hend
        exact .pure ⟨⟨hlt, hva, hnone⟩, hrestored⟩
      · obtain ⟨C', hev, hd, hbusy, hunseen, hway, hslot, hundoes⟩ := hend
        refine .bind_run (Store.run_entry (hd.shown ⟨0, hway.height hd.fits⟩)) ?_
        by_cases hold : (s₁.memory.entry path.slot).present = true
        · rw [if_pos hold]
          obtain rfl := hslot.resolve_right (by simp [hold])
          refine .pure ⟨⟨hlt, hva, ?_⟩, .refl s₁⟩
          rw [resolve_slot hway, if_pos hold]
          rfl
        · rw [if_neg hold]
          have hunused : (s₁.memory.entry path.slot).present = false := by simpa using hold
          have hexcuse' : C'.lending → ∀ p, excuse p := hev.lending ▸ hexcuse
          have hpage := fillPage_ensures hd hbusy hway hunused hpresent hplain hexcuse'
          have hfill := Space.fill_ensures (e := e) (hd.ready hway) hunused
            (hd.room hway hunused hexcuse')
          refine .bind_run (run_ofExcept hleaf) ((hpage.and hfill).bind ?_)
          rintro _ s₂ ⟨⟨hs₂, houtline, hwritten⟩, hstore, hroom⟩
          exact .pure ⟨hlt, C', path, e, s₁, ⟨hva, hev, hd, hunseen, hway, hunused, hundoes, hstore,
            hroom, houtline, hwritten, hs₂⟩, hpresent, hframe, Entry.flags_of_leaf hleaf⟩
      · obtain ⟨rfl, -, hsome⟩ := hend
        exact .pure ⟨⟨hlt, hva, hsome⟩, .refl s₁⟩

/-- **Mapping a page** gives the addresses of the page their meaning; if it fails, the state is as
it was. -/
theorem map_ensures (hs : C.Settled lowest s) (hroot : C.IsRoot space.root)
    (hexact : exact → RestoringSource A) (hexcuse : C.lending → ∀ p, excuse p) :
    Ensures (space.map va pa flags) excuse s fun r s' => match r with
      | .error _ => Restored exact s s'
      | .ok () => va.isCanonical = true ∧ s.memory.outline.resolve space.root va = none ∧
          ∃ C', C.Evolves C' space.root va s s' ∧ C'.Settled lowest s' ∧ (¬ C.lending →
            ∃ e, e.present = true ∧ e.frame = pa.page ∧ e.flags = flags.forPage ∧
              C.Rewrites s.memory.outline s'.memory.outline space.root va e) := by
  refine (map_ends hs hroot hexact hexcuse).mono fun r s' hend => ?_
  rcases r with e | ⟨⟩
  · exact hend.2
  · obtain ⟨-, C', path, e, s₁, hfilled, hpresent, hframe, hflags⟩ := hend
    refine ⟨hfilled.canonical, ?_, C', hfilled.reached.trans hfilled.written, hfilled.settled,
      fun hlending => ⟨e, hpresent, hframe, hflags, ?_⟩⟩
    · exact hfilled.resolve_eq_none hroot
    · exact .intro hfilled.reached.toKin hfilled.describes.fits (hfilled.reached.borrowed hlending)
        hfilled.way hfilled.unseen (hfilled.outline ▸ .refl _)

/-- A page is taken from its slot. -/
lemma vacatePage_ensures {path : Path} (hs : C.Settled lowest s)
    (hway : C.Way s.memory.outline space.root va 0 path)
    (hold : (s.memory.entry path.slot).present = true) (hexcuse : C.lending → ∀ p, excuse p) :
    Ensures (Space.vacate path) excuse s fun _ s' => C.Describes s' ∧
      C.BusyBut lowest s'.memory.outline s'.memory.live path.holders.head? ∧
      s'.memory.outline = Function.update s.memory.outline path.slot .absent ∧
      C.Evolves C space.root va s s' ∧
      (C.Withdraws s'.memory.outline s'.memory.live 0 path.holders ↔
        C.Withdraws s.memory.outline s.memory.live 1 path.holders) := by
  have hd := hs.describes
  have houtline := Memory.outline_put (m := s.memory) (e := .absent) (g := (· - 1))
    (hway.head_ne hd.fits)
  refine (Space.vacate_describes hd hway hold hexcuse).mono ?_
  rintro _ s' ⟨rfl, hd'⟩
  refine ⟨hd', ?_, houtline, .of_page hd hway houtline (hd.freeFrames_put hway), ?_⟩
  · rw [houtline]
    exact hs.busy.weaken.vacate fun x hx =>
      Memory.live_put (m := s.memory) (g := (· - 1)) Space.room_pred hx
  · refine (Space.emptied_put hd.fits hway (.refl _)).withdraws_page_iff hd.fits hway.isRoot
      hway.leads fun z hz howned => ?_
    -- The nearest holder links a table of the lowest level, which no root lends.
    obtain ⟨hlinks, hheight⟩ := hway.head hd.fits hz
    have hlends : ¬ C.Lends z := by
      rintro ⟨-, hroot⟩
      rw [IsRoot, hheight] at hroot
      cases hroot
    rw [hd.counted z _ hlinks howned hlends]
    exact Outline.count_ne_zero (o := s.memory.outline) (s := path.slot) (by simpa using hold)

/-- **The walk to a page that is mapped** comes to its slot. -/
theorem walk_of_resolve {e : Entry} (hd : C.Describes s) (hroot : C.IsRoot space.root)
    (hva : va.isCanonical = true)
    (hresolve : s.memory.outline.resolve space.root va = some (e, 0)) :
    ∃ path, space.walk s.memory va = .ok (.ok path) ∧
      C.Way s.memory.outline space.root va 0 path ∧ (s.memory.entry path.slot).present = true ∧
      (s.memory.entry path.slot).outline = e := by
  obtain ⟨result, hfind, hlands⟩ := find_eq hd hroot hva
  rw [walk, hfind]
  rcases result with err | path | ⟨large, k⟩
  · rw [hlands.2] at hresolve
    cases hresolve
  · rw [resolve_slot hlands] at hresolve
    split at hresolve
    case isTrue hpresent =>
      cases hresolve
      exact ⟨path, rfl, hlands, hpresent, rfl⟩
    case isFalse => cases hresolve
  · obtain ⟨hlarge, -, -, hpos⟩ := hlands
    rw [hlarge] at hresolve
    cases hresolve
    omega

/-- The walk to the slot of a page. -/
lemma walk_eq (va : VirtAddr) (hd : C.Describes s) (hroot : C.IsRoot space.root) :
    (∃ e, space.walk s.memory va = .ok (.error e) ∧ (va.isCanonical = true → C.tidy →
      s.memory.outline.resolve space.root va = none)) ∨
    ∃ path, space.walk s.memory va = .ok (.ok path) ∧ va.isCanonical = true ∧
      C.Way s.memory.outline space.root va 0 path := by
  cases hva : va.isCanonical with
  | false =>
      rw [walk, find_of_not_canonical hva]
      exact .inl ⟨_, rfl, fun hva => by cases hva⟩
  | true =>
      obtain ⟨result, hfind, hlands⟩ := find_eq hd hroot hva
      rw [walk, hfind]
      rcases result with e | path | ⟨e, k⟩
      · exact .inl ⟨_, rfl, fun _ _ => hlands.2⟩
      · exact .inr ⟨path, rfl, rfl, hlands⟩
      · exact .inl ⟨_, rfl, fun _ htidy => absurd htidy hlands.2.2.1⟩

/-- **Unmapping a page** takes the meaning from the addresses of the page, unless it withdraws a
table: then a root links a table that is free.  If it fails, nothing has happened. -/
theorem unmap_ensures (hs : C.Settled lowest s) (hroot : C.IsRoot space.root)
    (hexcuse : C.lending → ∀ p, excuse p) :
    Ensures (space.unmap va) excuse s fun r s' => match r with
      | .error _ => s' = s ∧ (va.isCanonical = true → C.tidy →
          s.memory.outline.resolve space.root va = none) ∧
          ∀ path, space.walk s.memory va = .ok (.ok path) →
            (s.memory.entry path.slot).present = false
      | .ok f => ∃ path, space.walk s.memory va = .ok (.ok path) ∧ va.isCanonical = true ∧
          (s.memory.entry path.slot).present = true ∧ f = (s.memory.entry path.slot).frame ∧
          C.Way s.memory.outline space.root va 0 path ∧
          (¬ C.Withdraws s.memory.outline s.memory.live 1 path.holders →
            ∃ C', C.Evolves C' space.root va s s' ∧ C'.Settled lowest s' ∧ (¬ C.lending →
              C.Rewrites s.memory.outline s'.memory.outline space.root va .absent)) ∧
          (C.Withdraws s.memory.outline s.memory.live 1 path.holders →
            ∃ t, C.IsRoot t.table ∧ (s'.memory.entry t).isTable = true ∧
              (s'.memory.entry t).frame ∈ freeFrames s') := by
  have hd := hs.describes
  rcases walk_eq va hd hroot with ⟨e, hwalk, hnone⟩ | ⟨path, hwalk, hva, hway⟩
  · have hlookup : (Store.lookup fun m => space.walk m va).run s = .ok (.error e) s :=
      Store.run_lookup hwalk
    refine .bind_run hlookup (.pure ⟨rfl, hnone, fun path hpath => ?_⟩)
    rw [hwalk] at hpath
    cases hpath
  · have hlookup : (Store.lookup fun m => space.walk m va).run s = .ok (.ok path) s :=
      Store.run_lookup hwalk
    refine .bind_run hlookup (.bind_run (Store.run_entry (hd.shown ⟨0, hway.height hd.fits⟩)) ?_)
    cases hold : (s.memory.entry path.slot).present with
    | false =>
        rw [if_pos (by rfl)]
        refine .pure ⟨rfl, fun _ _ => ?_, fun path' hpath => ?_⟩
        · rw [resolve_slot hway, if_neg (by simp [hold])]
        · rw [hwalk] at hpath
          cases hpath
          exact hold
    | true =>
        rw [if_neg (by simp)]
        refine (vacatePage_ensures hs hway hold hexcuse).bind ?_
        rintro _ s₁ ⟨hd₁, hbusy₁, houtline₁, hev₁, hwithdraws⟩
        have hl₁ : s₁.memory.outline.Leads space.root va path.holders path.slot.table 0 := by
          rw [houtline₁]
          exact hd.fits.leads_update hroot hway.leads
        by_cases hw : C.Withdraws s.memory.outline s.memory.live 1 path.holders
        · refine (Space.release_withdraws hd₁ hroot hl₁ hbusy₁ (hwithdraws.mpr hw) hexcuse).bind ?_
          intro _ s₂ hfreed
          exact .pure ⟨path, hwalk, hva, hold, rfl, hway, fun hkeep => absurd hw hkeep,
            fun _ => hfreed⟩
        · refine (Space.release_keeps hd₁ hroot hl₁ hbusy₁ (fun hw' => hw (hwithdraws.mp hw'))
            hexcuse).bind ?_
          rintro _ s₂ ⟨C', hev₂, hd₂, hbusy₂, hunseen⟩
          refine .pure ⟨path, hwalk, hva, hold, rfl, hway,
            fun _ => ⟨C', hev₁.trans hev₂, ⟨hd₂, hbusy₂⟩, fun hlending => ?_⟩,
            fun hw' => absurd hw' hw⟩
          exact .intro (.refl C) hd.fits (fun _ _ => Iff.rfl) hway (.refl _)
            (houtline₁ ▸ hunseen hlending)

end AddressSpace

end KernelMemory
