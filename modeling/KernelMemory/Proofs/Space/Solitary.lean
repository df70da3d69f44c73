import KernelMemory.Proofs.Frames.Pool
import KernelMemory.Proofs.Space.Calls
import KernelMemory.Proofs.Space.Making

/-!
# A page in an empty region

Where the root has no link for an address yet, mapping its page makes a table of each height, and
each of them has a single entry.  So unmapping the page gives all of them back.  On a pool it is
known which frames they are and in which order they come back: the table that the root linked is on
top in the end, and the next call that needs a frame gets this one.

* `Space.SoleChildren` — every holder on a way counts one child.
* `Space.Solitary` — a page at the end of such a way.
* **`Space.map_solitary`** — mapping a page in an empty region makes one.
* `Space.run_maps_sample` — a run that maps more pages than one.
* **`Space.unmap_solitary`** — unmapping it puts the tables back on the pool, the topmost last.
-/

namespace KernelMemory

open KernelMemory.Action Chart

namespace Space

/-! ## Ways with a single entry in each table -/

section

variable {A : Type} [FrameSource A] [LawfulSource A] {C : Chart} {s s₁ s₂ : Store A}
  {root f table : Frame} {va : VirtAddr} {h : Nat} {path : Path} {e : Entry} {m m' : Memory}
  {x : Slot} {holders : List Slot}

/-- Every holder owns its table, and the nearest counts no child and the others one. -/
def SoleChildren (m : Memory) : List Slot → Prop
  | [] => True
  | x :: above => ((m.entry x).owned = true ∧ m.live x = 0) ∧
      ∀ y ∈ above, (m.entry y).owned = true ∧ m.live y = 1

/-- Once a slot was written and the nearest holder recounted, all holders count one child. -/
lemma SoleChildren.put (hsole : SoleChildren m path.holders) (hne : path.slot ∉ path.holders) :
    ∀ y ∈ path.holders, ((m.put path e (· + 1)).entry y).owned = true ∧
      (m.put path e (· + 1)).live y = 1 := by
  cases hholders : path.holders with
  | nil => exact fun y hy => by cases hy
  | cons x above =>
      rw [hholders] at hsole hne
      obtain ⟨⟨howned, hzero⟩, habove⟩ := hsole
      intro y hy
      have hslot : y ≠ path.slot := fun heq => hne (heq ▸ hy)
      rw [Memory.live, Memory.entry_put_of_ne hslot, hholders, List.head?_cons]
      rcases List.mem_cons.mp hy with rfl | hy
      · rw [if_pos ⟨rfl, howned⟩, hzero]
        exact ⟨howned, rfl⟩
      · obtain ⟨hyowned, hone⟩ := habove y hy
        have hyx : ¬ (some x = some y ∧ (m.entry y).owned = true) := by
          rintro ⟨heq, -⟩
          rw [Option.some.inj heq, hone] at hzero
          cases hzero
        rw [if_neg hyx]
        exact ⟨hyowned, hone⟩

/-- The holders of a way are not its slot. -/
lemma slot_notMem_holders (hfit : C.Fits m.outline) (hway : C.Way m.outline root va h path) :
    path.slot ∉ path.holders := by
  intro hmem
  obtain ⟨-, k, hk, hheight⟩ := hfit.links_of_mem_holders hway.isRoot hway.leads hmem
  have heq := hheight.symm.trans (hway.height hfit)
  simp only [Option.some.injEq] at heq
  omega

/-- Once a slot was emptied, the nearest holder counts no child. -/
lemma SoleChildren.of_emptied (hem : C.Emptied m.outline m.live x holders m'.outline m'.live)
    (hfit : C.Fits m.outline) (hroot : C.IsRoot root)
    (hl : m.outline.Leads root va holders x.table h)
    (hone : ∀ y ∈ holders, (m.entry y).owned = true ∧ m.live y = 1) : SoleChildren m' holders := by
  have hkept : ∀ y ∈ holders, (m'.entry y).owned = true ∧
      m'.live y = m.outline.recounted m.live holders (· - 1) y := by
    intro y hy
    obtain ⟨hlinks, hne, -⟩ := Emptied.mem_above hfit hroot hl hy
    refine ⟨?_, hem.live hlinks.table hne⟩
    rw [← Entry.outline_owned, ← Memory.outline_apply, hem.outline_of_ne hlinks.table hne,
      Memory.outline_apply, Entry.outline_owned]
    exact (hone y hy).1
  cases holders with
  | nil => trivial
  | cons y above =>
      have hnot : y ∉ above := slot_notMem_holders hfit (.ofHolder hroot hl)
      obtain ⟨⟨howned, hlive⟩, hrest⟩ := List.forall_mem_cons.mp hkept
      obtain ⟨⟨howned', hlive'⟩, hone'⟩ := List.forall_mem_cons.mp hone
      refine ⟨⟨howned, ?_⟩, fun z hz => ⟨(hrest z hz).1, ?_⟩⟩
      · rw [hlive, Outline.recounted, if_pos ⟨rfl, by simpa using howned'⟩, hlive']
      · rw [(hrest z hz).2, Outline.recounted, if_neg, (hone' z hz).2]
        exact fun hand => hnot (Option.some.inj hand.1 ▸ hz)

/-- A new table has no child, and is the only one of the table above. -/
lemma SoleChildren.link (hsole : SoleChildren s.memory path.holders)
    (hlinked : Linked C s s₁ path f h e s₂) (hd : C.Describes s) (hle : h < rootHeight)
    (hway : C.Way s.memory.outline root va (h + 1) path) :
    SoleChildren s₂.memory (path.slot :: path.holders) := by
  have hsame := (hd.take (Nat.le_of_lt hle) hlinked.alloc).2.2.1
  have hentry : ∀ y ∈ path.holders, (s₁.memory.clear f).entry y = s.memory.entry y := by
    intro y hy
    obtain ⟨-, k, -, hheight⟩ := hd.fits.links_of_mem_holders hway.isRoot hway.leads hy
    exact hsame.entry ⟨k + 1, hheight⟩
  have hsole₁ : SoleChildren (s₁.memory.clear f) path.holders := by
    cases hholders : path.holders with
    | nil => trivial
    | cons x above =>
        rw [hholders] at hsole hentry
        obtain ⟨hx, habove⟩ := hsole
        rw [SoleChildren, Memory.live, hentry x (List.mem_cons_self ..)]
        refine ⟨hx, fun y hy => ?_⟩
        rw [Memory.live, hentry y (List.mem_cons_of_mem x hy)]
        exact habove y hy
  refine ⟨?_, ?_⟩
  · rw [hlinked.memory, Memory.live, Memory.entry_put_self (hway.head_ne hd.fits),
      hlinked.newLink.liveChildren]
    exact ⟨hlinked.newLink.owned, rfl⟩
  · rw [hlinked.memory]
    exact hsole₁.put (slot_notMem_holders hd.fits hway)

/-- **A page is the only one of its region**: every table on its way has a single entry. -/
structure Solitary (C : Chart) (root : Frame) (va : VirtAddr) (path : Path) (m : Memory) :
    Prop where
  way : C.Way m.outline root va 0 path
  present : (m.entry path.slot).present = true
  sole : ∀ x ∈ path.holders, (m.entry x).owned = true ∧ m.live x = 1

/-- It stays so where the tables stay. -/
lemma Solitary.congr (hpage : Solitary C root va path s.memory) (hd : C.Describes s)
    (hsame : ∀ t : Slot, C.IsTable t.table → m'.entry t = s.memory.entry t) :
    Solitary C root va path m' := by
  refine ⟨hpage.way.congr hd.fits (.of_eq fun t ht => ?_), ?_, fun x hx => ?_⟩
  · rw [Memory.outline_apply, Memory.outline_apply, hsame t ht]
  · rw [hsame _ ⟨0, hpage.way.height hd.fits⟩]
    exact hpage.present
  · obtain ⟨-, k, -, hheight⟩ :=
      hd.fits.links_of_mem_holders hpage.way.isRoot hpage.way.leads hx
    rw [Memory.live, hsame x ⟨k + 1, hheight⟩]
    exact hpage.sole x hx

lemma Solitary.resolve_eq (hpage : Solitary C root va path m) :
    m.outline.resolve root va = some ((m.entry path.slot).outline, 0) := by
  rw [AddressSpace.resolve_slot hpage.way, if_pos hpage.present]

/-- No other page of its table is mapped. -/
lemma Solitary.resolve_beside {va' : VirtAddr} (hpage : Solitary C root va path s.memory)
    (hd : C.Describes s) (hlending : ¬ C.lending) (htable : Address.SameTable va va')
    (hne : va'.index 0 ≠ va.index 0) : s.memory.outline.resolve root va' = none := by
  have hl := hpage.way.leads
  have hl' := hl.of_index fun k hk _ => htable.index_eq hk
  rw [hl'.resolve_eq, Outline.follow_of_not_present]
  by_contra hother
  cases hhead : path.holders with
  | nil =>
      rw [hhead] at hl
      cases hl.of_nil.2
  | cons x above =>
      -- The nearest holder counts one child, and both pages would be its children.
      obtain ⟨hlinks, -⟩ := hpage.way.head hd.fits (congrArg List.head? hhead)
      obtain ⟨howned, hone⟩ := hpage.sole x (hhead ▸ List.mem_cons_self ..)
      have hcount := hd.counted x _ hlinks (by simpa using howned) fun hlends => hlending hlends.1
      have hpresent := hpage.present
      rw [← Entry.outline_present, ← Memory.outline_apply, hpage.way.slot_eq] at hpresent
      have hlt := Outline.one_lt_count (by simpa using hother) hpresent hne
      omega

end

/-! ## Tables from a pool -/

section

variable {C C' : Chart} {s s' : Store Pool} {root table : Frame} {va : VirtAddr} {pa : PhysAddr}
  {h : Nat} {path : Path} {holders : List Slot}

/-- A new address space has the topmost frame as its root. -/
lemma run_create {f : Frame} {rest : List Frame} (hshown : s.memory.Shows f)
    (hfree : s.source.free = f :: rest) :
    AddressSpace.create.run s = .ok (.ok ⟨f⟩)
      { memory := s.memory.clear f
        source := { free := rest, outstanding := s.source.outstanding + 1 }
        log := s.log.push (.spaceCreated f) } := by
  have hshown' : ({ s with source := { free := rest, outstanding := s.source.outstanding + 1 } } :
      Store Pool).memory.Shows f := hshown
  have hclear := Store.run_clearFrame hshown'
  rw [AddressSpace.create, run_bind (Pool.run_alloc_cons hfree)]
  simp only []
  rw [run_bind hclear, run_bind Store.run_note]
  rfl

/-- Once the topmost frame was handed out it is none of the tables, whatever is written to it. -/
lemma sound_beside {f : Frame} {rest : List Frame} (hs : C.Sound s)
    (hfree : s.source.free = f :: rest)
    (hsource : s'.source = { free := rest, outstanding := s.source.outstanding + 1 })
    (hwindow : s'.memory.window = s.memory.window)
    (hentry : ∀ t : Slot, t.table ≠ f → s'.memory.entry t = s.memory.entry t) :
    C.Sound s' ∧ ¬ C.IsTable f ∧ f ∉ freeFrames s' := by
  have hd := hs.describes
  have hf : ¬ C.IsTable f := fun hf =>
    hd.notFree hf (List.mem_toFinset.mpr (hfree ▸ List.mem_cons_self ..))
  have hsame : C.SameTables s.memory s'.memory :=
    ⟨hwindow, fun t ht => Memory.word_eq_of_entry_eq (hentry t fun heq => hf (heq ▸ ht))⟩
  obtain ⟨held, hheld, hmem⟩ := hd.held
  have hheld' : Pool.InOrder s' (insert f held) := (hheld.pop hfree).congr hsource hwindow
  have hkeeps := hsame.keepsOn
  refine ⟨⟨⟨hd.frame hkeeps (fun g hg hin => hd.notFree hg ?_) rfl
    ⟨_, hheld', fun g hg hours => Finset.mem_insert_of_mem (hmem g hg hours)⟩,
    hs.busy.congr hkeeps.outline hkeeps.live⟩, hs.clean⟩, hf, fun hin => ?_⟩
  · have hin' : g ∈ s'.source.free := List.mem_toFinset.mp hin
    rw [hsource] at hin'
    exact List.mem_toFinset.mpr (hfree ▸ List.mem_cons_of_mem f hin')
  · exact hheld'.notFree f (Finset.mem_insert_self f held) (List.mem_toFinset.mp hin)

/-- A walk from an unused slot makes all tables that are missing, each the only child of the one
above; the first of them is the topmost frame. -/
lemma reach_sole (hd : C.Describes s) (hlending : ¬ C.lending)
    (hway : C.Way s.memory.outline root va h path)
    (hunused : (s.memory.entry path.slot).present = false)
    (hsole : SoleChildren s.memory path.holders) (hfree : h ≤ s.source.free.length) :
    ∃ path' s', (reach va h path).run s = .ok (.ok (.slot path')) s' ∧
      (s'.memory.entry path'.slot).present = false ∧ SoleChildren s'.memory path'.holders ∧
      s'.source.free = s.source.free.drop h ∧
      (0 < h → s.source.free.head? = some (s'.memory.outline path.slot).frame) ∧
      ∀ x : Slot, C.IsTable x.table → x ≠ path.slot →
        s'.memory.outline x = s.memory.outline x := by
  induction h generalizing C s path with
  | zero =>
      exact ⟨path, s, rfl, hunused, hsole, rfl, fun hpos => absurd hpos (lt_irrefl 0),
        fun _ _ _ => rfl⟩
  | succ h ih =>
      cases hstack : s.source.free with
      | nil =>
          rw [hstack] at hfree
          cases hfree
      | cons f rest =>
          have hslot := hway.height hd.fits
          have hle : h < rootHeight := hd.fits.height_le hslot
          have halloc := Pool.run_alloc_cons hstack
          have hlink : Ensures _ noPanic _ _ :=
            linkTable_ensures hd hway hunused halloc fun hlends => absurd hlends hlending
          obtain ⟨_, s₂, hrun, e, hlinked⟩ := hlink.returns
          have hnone := hlinked.height_eq_none hd
          have hblank := hlinked.blank hd hway (va.index h)
          rw [Memory.outline_apply, Entry.outline_eq_absent] at hblank
          have hread : (Store.entry path.slot).run s = .ok (s.memory.entry path.slot) s :=
            Store.run_entry (hd.shown ⟨_, hslot⟩)
          have htable : (s.memory.entry path.slot).isTable = false := by
            rw [Entry.isTable, hunused]
            rfl
          have hsource : s₂.source.free = rest := by
            rw [hlinked.source]
          have hunused₂ : (s₂.memory.entry (path.down f (va.index h)).slot).present = false := by
            rw [Path.down, hblank]
            rfl
          have hfree₂ : h ≤ s₂.source.free.length := by
            rw [hstack, List.length_cons] at hfree
            rw [hsource]
            exact Nat.le_of_succ_le_succ hfree
          obtain ⟨path', s', hreach, hunused', hsole', hfree', -, hsame⟩ := ih hlinked.describes
            hlending (hlinked.way hd hle hway) hunused₂ (hsole.link hlinked hd hle hway) hfree₂
          rw [hsource] at hfree'
          -- Of the tables that were there, the walk has changed the one of the slot alone.
          have hkept : ∀ x : Slot, C.IsTable x.table →
              s'.memory.outline x = s₂.memory.outline x := by
            rintro x ⟨k, hk⟩
            refine hsame x ⟨k, height_add_of_some hnone hk⟩ fun heq => ?_
            rw [heq, Path.down, hnone] at hk
            cases hk
          refine ⟨path', s', ?_, hunused', hsole', hfree', fun _ => ?_, fun x hx hne => ?_⟩
          · rw [reach, run_bind hread, htable, if_neg Bool.false_ne_true, hunused,
              if_neg Bool.false_ne_true, run_bind halloc, run_bind hrun]
            exact hreach
          · rw [hkept _ ⟨_, hslot⟩, hlinked.outline hd hway, Function.update_self,
              hlinked.newLink.frame]
            rfl
          · rw [hkept x hx, hlinked.outline_of_ne hd hle hway hx hne]

/-- **A page was mapped in an empty region**: the tables on its way come from the top of the pool.
-/
structure Settles (C : Chart) (root : Frame) (va : VirtAddr) (pa : PhysAddr) (s : Store Pool)
    (C' : Chart) (path : Path) (s' : Store Pool) : Prop extends
    Solitary C' root va path s'.memory where
  kin : C.Kin C'
  sound : C'.Sound s'
  frame : (s'.memory.entry path.slot).frame = pa.page
  free : s'.source.free = s.source.free.drop rootHeight
  /-- The root links the frame that was on top. -/
  first : s.source.free.head? = some (s'.memory.outline ⟨root, va.index rootHeight⟩).frame
  /-- The rest of the root is as it was. -/
  elsewhere {i : Index} : i ≠ va.index rootHeight →
    s'.memory.outline ⟨root, i⟩ = s.memory.outline ⟨root, i⟩

/-- **Mapping a page in an empty region** makes a solitary one. -/
theorem map_solitary (flags : Flags) (hs : C.Sound s) (hlending : ¬ C.lending)
    (hroot : C.IsRoot root) (hva : va.isCanonical = true)
    (hpa : pa.value.toNat < 2 ^ physicalAddressBits)
    (hunused : (s.memory.entry ⟨root, va.index rootHeight⟩).present = false)
    (hfree : rootHeight ≤ s.source.free.length) :
    ∃ path C' s', (AddressSpace.map ⟨root⟩ va pa flags).run s = .ok (.ok ()) s' ∧
      Settles C root va pa s C' path s' := by
  have hisRoot : C.IsRoot (AddressSpace.mk root).root := hroot
  obtain ⟨path, s₁, hreach, hunused₁, hsole, hfree₁, hfirst, hsame⟩ := reach_sole hs.describes
    hlending (.ofRoot hroot) hunused (show SoleChildren s.memory [] from trivial) hfree
  have hreach' : (AddressSpace.reach ⟨root⟩ va).run s = .ok (.ok (.slot path)) s₁ := by
    rw [AddressSpace.reach, hva, if_pos rfl]
    exact hreach
  have hends : Ensures (AddressSpace.reach ⟨root⟩ va) noPanic s _ := AddressSpace.reach_ensures va
    hs.toSettled hisRoot (fun h : False => h.elim) fun hlends => absurd hlends hlending
  obtain ⟨-, C', hev, hd, hbusy, -, hway, -⟩ := (hends.of_ok hreach').resolve_left
    fun hrefused => by cases hrefused.2.1
  obtain ⟨e, hleaf, hpresent, hframe, hplain⟩ := AddressSpace.leaf_eq_ok flags hpa
  have hkin := hev.toKin
  have hlending' : ¬ C'.lending := hkin.lending ▸ hlending
  have hfill : Ensures (fill path e) noPanic s₁ _ :=
    fill_ensures (hd.ready hway) hunused₁
      (hd.room hway hunused₁ fun hlends => absurd hlends hlending')
  obtain ⟨_, s₂, hrun, rfl, hroom⟩ := hfill.returns
  have hpage : Ensures (fill path e) noPanic s₁ _ := AddressSpace.fillPage_ensures hd hbusy hway
    hunused₁ hpresent hplain fun hlends => absurd hlends hlending'
  obtain ⟨hs₂, houtline, -⟩ := hpage.of_ok hrun
  -- The page is not written to the root.
  have hrootSlot : ∀ i : Index, (s₁.memory.put path e (· + 1)).outline ⟨root, i⟩ =
      s₁.memory.outline ⟨root, i⟩ := by
    intro i
    rw [houtline, Function.update_of_ne]
    rintro heq
    have hheight := hway.height hd.fits
    rw [← heq, show C'.height root = some rootHeight from hway.isRoot] at hheight
    cases hheight
  have hone := hsole.put (e := e) (slot_notMem_holders hd.fits hway)
  refine ⟨path, C', { s₁ with memory := s₁.memory.put path e (· + 1) }, ?_, ⟨?_, ?_, hone⟩, hkin,
    hs.evolve hkin hs₂, ?_, hfree₁, ?_, fun {i} hi => ?_⟩
  · have hread : (Store.entry path.slot).run s₁ = .ok (s₁.memory.entry path.slot) s₁ :=
      Store.run_entry (hd.shown ⟨0, hway.height hd.fits⟩)
    rw [AddressSpace.map, if_neg (not_le.mpr hpa), run_bind hreach']
    simp only []
    rw [run_bind hread, hunused₁, if_neg Bool.false_ne_true, run_bind (run_ofExcept hleaf),
      run_bind hrun]
    rfl
  · rw [houtline]
    exact hway.update hd.fits
  · rw [Memory.entry_put_self (hway.head_ne hd.fits)]
    exact hpresent
  · rw [Memory.entry_put_self (hway.head_ne hd.fits)]
    exact hframe
  · rw [hrootSlot]
    exact hfirst (by decide)
  · rw [hrootSlot]
    refine hsame _ ⟨_, hroot⟩ fun heq => hi ?_
    exact congrArg Slot.index heq

/-- **The first page of a new address space** takes the topmost frames for its tables. -/
theorem run_map_first {held : Finset Frame} {s₀ : Store Pool} (hheld : Holds s held)
    (hcreate : AddressSpace.create.run s = .ok (.ok ⟨root⟩) s₀) (va : VirtAddr) (pa : PhysAddr)
    (flags : Flags) (hva : va.isCanonical = true) (hpa : pa.value.toNat < 2 ^ physicalAddressBits)
    (hfree : rootHeight ≤ (freeFrames s₀).card) :
    ∃ C' e s', (AddressSpace.map ⟨root⟩ va pa flags).run s₀ = .ok (.ok ()) s' ∧
      (single False True root).Rebound C' True root va (some e) s₀ s' ∧
      AddressSpace.isMapped ⟨root⟩ s'.memory va = .ok true ∧
      s'.source.free = s₀.source.free.drop rootHeight := by
  obtain ⟨hserves, hblank, -⟩ := AddressSpace.create_serves hheld hcreate
  have hcreated : Ensures AddressSpace.create noPanic s _ :=
    AddressSpace.create_sound False True hheld
  obtain ⟨hsound, -⟩ := hcreated.of_ok hcreate _ rfl
  have hnone : s₀.memory.outline.resolve root va = none := by
    rw [Outline.resolve, hblank, Outline.follow_absent]
  have hunused : (s₀.memory.entry ⟨root, va.index rootHeight⟩).present = false := by
    rw [← Entry.outline_present, ← Memory.outline_apply, hblank]
    rfl
  obtain ⟨C', e, s', hmap, hrebound, hmapped⟩ := AddressSpace.run_map_of_room hserves va pa flags
    hva hpa hnone (Outline.lacks_le.trans hfree)
  obtain ⟨path, C'', s'', hmap', hpage⟩ := map_solitary flags hsound id hserves.isRoot hva hpa
    hunused (hfree.trans (List.toFinset_card_le _))
  rw [hmap] at hmap'
  cases hmap'
  exact ⟨C', e, s', hmap, hrebound, hmapped, hpage.free⟩

/-- Three pages on seven frames: there is room for the tables of two of them, and the third one is
beside the first. -/
theorem run_maps_sample :
    ∃ s₀ s', AddressSpace.create.run (Pool.sample 7) = .ok (.ok ⟨.ofNumber 1⟩) s₀ ∧
      (runCalls ⟨.ofNumber 1⟩ [.map ⟨0x1000⟩ ⟨0x5000⟩ ⟨2⟩, .map ⟨0x200000⟩ ⟨0x6000⟩ ⟨2⟩,
          .map ⟨0x2000⟩ ⟨0x7000⟩ ⟨2⟩]).run s₀ =
        .ok [.map ⟨0x1000⟩ ⟨0x5000⟩ ⟨2⟩ (.ok ()), .map ⟨0x200000⟩ ⟨0x6000⟩ ⟨2⟩ (.ok ()),
          .map ⟨0x2000⟩ ⟨0x7000⟩ ⟨2⟩ (.ok ())] s' ∧
      ∀ va ∈ ([⟨0x1000⟩, ⟨0x200000⟩, ⟨0x2000⟩] : List VirtAddr),
        AddressSpace.isMapped ⟨.ofNumber 1⟩ s'.memory va = .ok true := by
  have hheld : Holds (Pool.sample 7) ∅ := Pool.holds_sample (le_refl 7)
  obtain ⟨s₀, hcreate, hfree₀⟩ :
      ∃ s₀, AddressSpace.create.run (Pool.sample 7) = .ok (.ok ⟨.ofNumber 1⟩) s₀ ∧
        s₀.source.free = [2, 3, 4, 5, 6, 7].map .ofNumber := ⟨_, rfl, rfl⟩
  obtain ⟨hs₀, hblank, -⟩ := AddressSpace.create_serves hheld hcreate
  have hnone : ∀ va, s₀.memory.outline.resolve (.ofNumber 1) va = none := fun va => by
    rw [Outline.resolve, hblank, Outline.follow_absent]
  obtain ⟨C₁, e₁, s₁, hmap₁, h₁, hmapped₁, hfree₁⟩ := run_map_first hheld hcreate ⟨0x1000⟩
    ⟨0x5000⟩ ⟨2⟩ (by decide) (by decide)
    (le_of_le_of_eq (by decide) (congrArg (fun l => (List.toFinset l).card) hfree₀).symm)
  rw [hfree₀] at hfree₁
  have hs₁ := h₁.serves hs₀
  -- The second page has at most as many tables of its own as there are frames left.
  obtain ⟨C₂, e₂, s₂, hmap₂, h₂, hmapped₂⟩ :=
    AddressSpace.run_map_of_room hs₁ ⟨0x200000⟩ ⟨0x6000⟩ ⟨2⟩ (by decide) (by decide)
      ((h₁.rebinds.elsewhere (by decide)).trans (hnone _)) (Outline.lacks_le.trans
        (le_of_le_of_eq (by decide) (congrArg (fun l => (List.toFinset l).card) hfree₁).symm))
  have hs₂ := h₂.serves hs₁
  -- The third page needs no table.
  have hbound : s₂.memory.outline.resolve (.ofNumber 1) ⟨0x1000⟩ = some (e₁, 0) :=
    (h₂.rebinds.elsewhere (by decide)).trans h₁.resolve_eq
  have htidy : C₂.tidy := by
    rw [h₂.evolves.tidy, h₁.evolves.tidy]
    trivial
  obtain ⟨C₃, e₃, s₃, hmap₃, h₃, hmapped₃⟩ :=
    AddressSpace.run_map_beside hs₂ htidy ⟨0x2000⟩ ⟨0x7000⟩ ⟨2⟩ (by decide) (by decide)
      ((h₂.rebinds.elsewhere (by decide)).trans ((h₁.rebinds.elsewhere (by decide)).trans
        (hnone _))) (by rw [hbound]; rfl) (by decide)
  refine ⟨s₀, s₃, hcreate, ?_, ?_⟩
  · exact runCalls_cons (run_bind hmap₁)
      (runCalls_cons (run_bind hmap₂) (runCalls_cons (run_bind hmap₃) rfl))
  · have hfirst := h₃.grows hs₂ _ (h₂.grows hs₁ _ hmapped₁)
    simp [hfirst, h₃.grows hs₂ _ hmapped₂, hmapped₃]

end

/-! ## Unmapping on a pool -/

/-- What a pool takes back is on top of it. -/
lemma TakesBack.free_eq {s s' : Store Pool} {f : Frame} (h : TakesBack f s s') :
    s'.source.free = f :: s.source.free := by
  obtain ⟨s₁, s₂, hsource, hrun, hsource'⟩ := h
  rw [hsource', ← hsource, Pool.free_eq_of_free hrun]

/-- **The table that a slot linked is on top of the pool**, and tables that were below it come next.
-/
structure Returned (x : Slot) (tables : Nat) (s s' : Store Pool) : Prop where
  free : ∃ below, below.length + 1 = tables ∧
    s'.source.free = (s.memory.outline x).frame :: (below ++ s.source.free)
  /-- Nothing is in the table. -/
  empty (i : Index) : (s'.memory.entry ⟨(s.memory.outline x).frame, i⟩).present = false
  /-- The slot links it no more. -/
  unlinked : (s'.memory.entry x).present = false

section

variable {C : Chart} {s : Store Pool} {root table : Frame} {va : VirtAddr} {h : Nat} {path : Path}
  {holders : List Slot}

/-- Where every table has a single entry, all of them go back, the one that the root links last. -/
lemma release_sole (hd : C.Describes s) (hlending : ¬ C.lending) (hroot : C.IsRoot root)
    (hl : s.memory.outline.Leads root va holders table h) (hh : h < rootHeight)
    (hsole : SoleChildren s.memory holders) :
    Ensures (release table holders) noPanic s fun _ s' =>
      Returned ⟨root, va.index rootHeight⟩ holders.length s s' := by
  induction holders generalizing table h C s with
  | nil =>
      obtain ⟨-, rfl⟩ := hl.of_nil
      exact absurd hh (lt_irrefl _)
  | cons x above ih =>
      obtain ⟨⟨howned, hzero⟩, hone⟩ := hsole
      obtain ⟨hlinks, hx⟩ := hd.fits.links_of_leads hroot hl
      have howned' : (s.memory.outline x).owned = true := by simpa using howned
      refine .bind_run (Store.run_entry (hd.shown ⟨_, hx⟩)) ?_
      rw [if_pos (empty_iff.mpr ⟨howned, hzero⟩)]
      refine unlink_ensures hd hroot hl howned
        (fun t => hd.fits.eq_of_links hlinks howned' fun hlends => hlending hlends.1)
        (fun hlends => absurd hlends hlending) ?_
      intro s₁ hd₁ hem _ hback
      have hfree := hback.free_eq
      cases above with
      | nil =>
          obtain rfl : _ = x := List.mem_singleton.mp (hl.root_mem hh)
          have htable := hd.fits.isTable_of_links hlinks
          have hcount : s.memory.outline.count table = 0 :=
            (hd.counted _ table hlinks howned' fun hlends => hlending hlends.1) ▸ hzero
          refine .pure ⟨⟨[], rfl, ?_⟩, fun i => ?_, ?_⟩
          · rw [hfree, hlinks.frame]
            rfl
          · have hne : (⟨table, i⟩ : Slot) ≠ ⟨root, va.index rootHeight⟩ := by
              intro heq
              obtain rfl : table = root := congrArg Slot.table heq
              exact hd.fits.not_isRoot hlinks hroot
            rw [hlinks.frame, ← Entry.outline_present, ← Memory.outline_apply,
              hem.outline_of_ne htable hne]
            exact Outline.count_eq_zero_iff.mp hcount i
          · rw [← Entry.outline_present, ← Memory.outline_apply, hem.outline ⟨_, hx⟩,
              Function.update_self]
            rfl
      | cons y rest =>
          have hkin : C.Kin (C.drop table) := .drop (hd.fits.not_isRoot hlinks)
          have hl₁ := hem.leads hd.fits hroot hl
          have hh₁ : h + 1 < rootHeight := by
            have := hl.uncons.1.uncons.1.height_le
            omega
          obtain ⟨hrootLinks, hne, -⟩ :=
            Emptied.mem_above hd.fits hroot hl.uncons.1 (hl.uncons.1.root_mem hh₁)
          refine (ih hd₁ (hkin.lending ▸ hlending) ((hkin.isRoot root).mpr hroot) hl₁ hh₁
            (.of_emptied hem hd.fits hroot hl.uncons.1 hone)).mono fun _ s' hend => ?_
          obtain ⟨⟨below, hlength, hfree'⟩, hempty, hunlinked⟩ := hend
          rw [hem.outline_of_ne hrootLinks.table hne] at hfree' hempty
          refine ⟨⟨below ++ [table], ?_, ?_⟩, hempty, hunlinked⟩
          · rw [List.length_append, List.length_singleton, hlength]
            rfl
          · rw [hfree', hfree]
            simp

/-- **Unmapping a solitary page** gives its tables back, the one that the root linked last. -/
theorem unmap_solitary (hs : C.Sound s) (hlending : ¬ C.lending) (hva : va.isCanonical = true)
    (hpage : Solitary C root va path s.memory) :
    ∃ f C' s', (AddressSpace.unmap ⟨root⟩ va).run s = .ok (.ok f) s' ∧ C'.Sound s' ∧
      C.Evolves C' root va s s' ∧ Returned ⟨root, va.index rootHeight⟩ rootHeight s s' := by
  have hd := hs.describes
  have hway : C.Way s.memory.outline (AddressSpace.mk root).root va 0 path := hpage.way
  have hroot : C.IsRoot (AddressSpace.mk root).root := hway.isRoot
  have hexcuse : C.lending → ∀ p, noPanic p := fun hlends => absurd hlends hlending
  obtain ⟨hwalk, -⟩ := AddressSpace.walks_of_way hd hva hway
  have hlookup : (Store.lookup fun m => AddressSpace.walk ⟨root⟩ m va).run s = .ok (.ok path) s :=
    Store.run_lookup hwalk
  have hreturned : Ensures (AddressSpace.unmap ⟨root⟩ va) noPanic s fun _ s' =>
      Returned ⟨root, va.index rootHeight⟩ rootHeight s s' := by
    refine .bind_run hlookup (.bind_run (Store.run_entry (hd.shown ⟨0, hway.height hd.fits⟩)) ?_)
    rw [if_neg (by simp [hpage.present])]
    refine (vacate_describes hd hway hpage.present hexcuse).bind ?_
    rintro _ s₁ ⟨rfl, hd₁⟩
    have hem := emptied_put hd.fits hway (.refl (s.memory.put path .absent (· - 1)))
    have houtline := Memory.outline_put (m := s.memory) (e := .absent) (g := (· - 1))
      (hway.head_ne hd.fits)
    have hl₁ : (s.memory.put path .absent (· - 1)).outline.Leads root va path.holders
        path.slot.table 0 := by
      rw [houtline]
      exact hd.fits.leads_update hroot hway.leads
    have hlength : path.holders.length = rootHeight := hway.leads.length_add
    refine (release_sole hd₁ hlending hroot hl₁ (by decide)
      (.of_emptied hem hd.fits hroot hway.leads hpage.sole)).bind fun _ s' hend => .pure ?_
    obtain ⟨⟨below, hbelow, hfree⟩, hempty, hunlinked⟩ := hend
    obtain ⟨hrootLinks, hne, -⟩ :=
      Emptied.mem_above hd.fits hroot hway.leads (hway.leads.root_mem (by decide))
    have hsame := hem.outline_of_ne hrootLinks.table hne
    rw [hsame] at hfree hempty
    exact ⟨⟨below, hbelow.trans hlength, hfree⟩, hempty, hunlinked⟩
  have hends : Ensures (AddressSpace.unmap ⟨root⟩ va) noPanic s _ :=
    AddressSpace.unmap_ensures hs.toSettled hroot hexcuse
  obtain ⟨r, s', hrun, hend, hback⟩ := (hends.and hreturned).returns
  rcases r with e | f
  · obtain ⟨-, -, habsent⟩ := hend
    have hpresent := hpage.present
    rw [habsent path hwalk] at hpresent
    cases hpresent
  · obtain ⟨path', hwalk', -, -, -, -, hkeep, -⟩ := hend
    rw [hwalk] at hwalk'
    cases hwalk'
    obtain ⟨C', hev, hs', -⟩ := hkeep (hd.fits.not_withdraws hroot hway.leads hlending)
    exact ⟨f, C', s', hrun, hs.evolve hev.toKin hs', hev, hback⟩

end

end Space

end KernelMemory
