import KernelMemory.Proofs.Space.Inverse

/-!
# The tables that a walk makes

A walk for a caller ends in a table of the lowest level that may be new and empty.  No other call
leaves such a table, so here it is followed what becomes of it: no address notices it, a second walk
finds it as it is, and once a page in it was mapped and unmapped, it goes, with all other tables
that the walk made.

* `Space.Takes` — frames were taken for the tables on the way of an address.
* **`Space.reach_takes`** — a walk takes a frame for each table that is missing, and a release
  undoes their making.
* **`AddressSpace.map_unmap_made`** — mapping a page in a new table and unmapping it takes nothing,
  and gives back what was made.
* **`Space.walk_makes_tables`** — what a walk for a caller does, in every state of an address space.
-/

namespace KernelMemory

/-! ## Pages of one table -/

namespace Address

variable {va va' : VirtAddr} {k : Nat}

/-- The pages of two addresses have their entries in one table of the lowest level, which serves
two megabytes. -/
def SameTable (va va' : VirtAddr) : Prop :=
  va'.value.toNat / 2 ^ 21 = va.value.toNat / 2 ^ 21
deriving Decidable

lemma SameTable.index_eq (h : SameTable va va') (hk : 0 < k) : va'.index k = va.index k := by
  obtain ⟨j, rfl⟩ := Nat.exists_eq_succ_of_ne_zero hk.ne'
  have hdiv : ∀ n : Nat, n / 2 ^ indexShift (j + 1) = n / 2 ^ 21 / 2 ^ (9 * j) := by
    intro n
    rw [Nat.div_div_eq_div_mul, ← Nat.pow_add]
    congr 2
    simp only [indexShift]
    omega
  ext
  change va'.value.toNat / 2 ^ indexShift (j + 1) % tableEntries =
    va.value.toNat / 2 ^ indexShift (j + 1) % tableEntries
  rw [hdiv, hdiv, h]

lemma SameTable.isCanonical_eq (h : SameTable va va') : va'.isCanonical = va.isCanonical := by
  have hhigh : va'.value.toNat / 2 ^ 47 = va.value.toNat / 2 ^ 47 := by
    simp only [SameTable] at h
    omega
  rw [isCanonical, isCanonical, hhigh]

end Address

namespace Space

open Chart KernelMemory.Action

variable {A : Type} [FrameSource A] [LawfulSource A] {C : Chart} {s s₁ s₂ s' base : Store A}
  {root f t : Frame} {va : VirtAddr} {h k : Nat} {path : Path} {e : Entry} {holders : List Slot}

/-! ## Walks where nothing is missing -/

/-- **Where no table is missing**, the read-only walk comes to the slot of a page. -/
theorem descend_of_lacks (hd : C.Describes s) (hway : C.Way s.memory.outline root va h path)
    (hlacks : s.memory.outline.lacks va h (s.memory.outline path.slot) = 0) :
    ∃ path', C.Way s.memory.outline root va 0 path' ∧
      s.memory.descend va h path = .ok (.ok (.slot path')) := by
  induction h generalizing path with
  | zero => exact ⟨path, hway, rfl⟩
  | succ h ih =>
      have htable : (s.memory.outline path.slot).isTable = true := by
        by_contra hnot
        rw [Outline.lacks_not_link hnot] at hlacks
        cases hlacks
      rw [Outline.lacks_link htable] at hlacks
      obtain ⟨path', hway', hdescend⟩ := ih (hway.down htable) hlacks
      rw [Memory.outline_apply, Entry.outline_isTable] at htable
      rw [Memory.outline_apply, Entry.outline_frame] at hdescend
      refine ⟨path', hway', ?_⟩
      rw [Memory.descend_succ (hd.shown ⟨_, hway.height hd.fits⟩), if_pos htable, hdescend]

/-! ## Making tables -/

/-- **So many frames were taken**, and each for a table on the way of an address. -/
structure Takes (root : Frame) (va : VirtAddr) (n : Nat) (s s' : Store A) : Prop where
  subset : freeFrames s' ⊆ freeFrames s
  card : (freeFrames s').card + n = (freeFrames s).card
  onWay {f : Frame} : f ∈ freeFrames s → f ∉ freeFrames s' →
    ∃ holders k, s'.memory.outline.Leads root va holders f k
  /-- The way leads on to the tables that it led to. -/
  keeps {holders : List Slot} {t : Frame} {k : Nat} :
    s.memory.outline.Leads root va holders t k → s'.memory.outline.Leads root va holders t k

lemma Takes.refl (s : Store A) : Takes root va 0 s s :=
  ⟨Finset.Subset.refl _, rfl, fun hf hf' => absurd hf hf', id⟩

/-- The way leads on to the tables that it led to before the link. -/
lemma Linked.leads (hlinked : Linked C s s₁ path f h e s₂) (hd : C.Describes s)
    (hle : h < rootHeight) (hway : C.Way s.memory.outline root va (h + 1) path)
    (hold : (s.memory.entry path.slot).present = false)
    (hl : s.memory.outline.Leads root va holders t k) :
    s₂.memory.outline.Leads root va holders t k := by
  refine hl.congr fun x hx => ?_
  obtain ⟨hlinks, -⟩ := hd.fits.links_of_mem_holders hway.isRoot hl hx
  have hne : x ≠ path.slot := hlinks.ne_of_not_present (by simpa using hold)
  exact hlinked.outline_of_ne hd hle hway hlinks.table hne

/-- One table more was linked first. -/
lemma Takes.of_linked (htakes : Takes root va h s₂ s') (hlinked : Linked C s s₁ path f h e s₂)
    (hd : C.Describes s) (hle : h < rootHeight)
    (hway : C.Way s.memory.outline root va (h + 1) path)
    (hold : (s.memory.entry path.slot).present = false) : Takes root va (h + 1) s s' := by
  obtain ⟨held, hheld, -⟩ := hd.held
  have hfree := (hlinked.holds hd hway hheld).2.1
  have hcard := (hlinked.lacks hd hway hheld).2
  constructor
  case subset =>
    refine htakes.subset.trans ?_
    rw [hfree]
    exact Finset.erase_subset _ _
  case card =>
    have := htakes.card
    omega
  case onWay =>
    intro g hg hg'
    rcases eq_or_ne g f with rfl | hne
    · exact ⟨_, _, htakes.keeps (hlinked.way hd hle hway).leads⟩
    · exact htakes.onWay (hfree ▸ Finset.mem_erase.mpr ⟨hne, hg⟩) hg'
  case keeps => exact fun hl => htakes.keeps (hlinked.leads hd hle hway hold hl)

/-- **A release undoes the making of a table in which nothing is yet**, and of the tables made with
it. -/
structure Removable (base : Store A) (path : Path) (s : Store A) : Prop where
  blank : s.memory.outline.Blank path.slot.table
  undoes : Undoes noPanic False base path.slot.table path.holders s

/-- A new table is removable if a release undoes the making of the tables above it. -/
lemma Undoes.removable (hundo : Undoes noPanic False base path.slot.table path.holders s)
    (hlinked : Linked C s s₁ path f h e s₂) (hd : C.Describes s)
    (hway : C.Way s.memory.outline root va (h + 1) path)
    (hold : (s.memory.entry path.slot).present = false) (hlending : ¬ C.lending) :
    Removable base (path.down f (va.index h)) s₂ where
  blank := hlinked.blank hd hway
  undoes := hundo.link hlinked hd hway hold (hd.fits.height_le (hway.height hd.fits)) False.elim
    fun hlends => absurd hlends hlending

/-- A walk that came to a slot took so many frames, and its last table is removable. -/
def Makes (base s : Store A) (root : Frame) (va : VirtAddr) (n : Nat)
    (result : Except MapError Walk) (s' : Store A) : Prop :=
  ∀ path, result = .ok (.slot path) → Takes root va n s s' ∧ Removable base path s'

/-- **One table is made**, and the walk goes on below it. -/
theorem reach_linking (hd : C.Describes s) (hway : C.Way s.memory.outline root va (h + 1) path)
    (hold : (s.memory.entry path.slot).present = false) (hlending : ¬ C.lending)
    (hbelow : ∀ {f e s₁ s₂}, Linked C s s₁ path f h e s₂ →
      Ensures (reach va h (path.down f (va.index h))) anyPanic s₂
        (Makes base s₂ root va h)) :
    Ensures (reach va (h + 1) path) anyPanic s (Makes base s root va (h + 1)) := by
  have hslot := hway.height hd.fits
  have hle : h < rootHeight := hd.fits.height_le hslot
  have htable : ¬ (s.memory.entry path.slot).isTable = true := fun htable => by
    rw [Entry.present_of_isTable htable] at hold
    cases hold
  refine .bind_run (Store.run_entry (hd.shown ⟨_, hslot⟩)) ?_
  rw [if_neg htable, if_neg (by simp [hold])]
  obtain ⟨held, hheld, -⟩ := hd.held
  obtain ⟨r, s₁, hrun⟩ := LawfulSource.alloc_returns hheld
  refine .bind_run hrun ?_
  cases r with
  | none =>
      refine ensures_run.bind fun _ _ _ => .pure ?_
      rintro path' ⟨⟩
  | some f =>
      refine (linkTable_ensures hd hway hold hrun fun hlends => absurd hlends hlending).bind ?_
      rintro _ s₂ ⟨e, hlinked⟩
      refine (hbelow hlinked).mono fun r s' hend path' hr => ?_
      obtain ⟨htakes, hremovable⟩ := hend path' hr
      exact ⟨htakes.of_linked hlinked hd hle hway hold, hremovable⟩

/-- **Below a new table every table is missing**, and is made. -/
theorem reach_blank (hd : C.Describes s) (hway : C.Way s.memory.outline root va h path)
    (hlending : ¬ C.lending) (hremovable : Removable base path s) :
    Ensures (reach va h path) anyPanic s (Makes base s root va h) := by
  induction h generalizing C s path with
  | zero =>
      refine .pure ?_
      rintro path' ⟨⟩
      exact ⟨.refl s, hremovable⟩
  | succ h ih =>
      have hle : h < rootHeight := hd.fits.height_le (hway.height hd.fits)
      have hold := hremovable.blank.not_present
      refine reach_linking hd hway hold hlending fun hlinked => ?_
      exact ih hlinked.describes (hlinked.way hd hle hway) hlending
        (hremovable.undoes.removable hlinked hd hway hold hlending)

/-- **A walk takes a frame for each table that is missing**, and a release undoes their making. -/
theorem reach_takes (hd : C.Describes s) (hway : C.Way s.memory.outline root va h path)
    (hlending : ¬ C.lending) (hbusy : C.Busy False s.memory.outline s.memory.live)
    (hundo : 0 < h → Undoes noPanic False s path.slot.table path.holders s) :
    Ensures (reach va h path) anyPanic s fun r s' => ∀ path', r = .ok (.slot path') →
      let lacking := s.memory.outline.lacks va h (s.memory.outline path.slot)
      Takes root va lacking s s' ∧ (0 < lacking → Removable s path' s') := by
  induction h generalizing path with
  | zero => exact .pure fun path' _ => ⟨.refl s, fun hpos => absurd hpos (lt_irrefl 0)⟩
  | succ h ih =>
      have hslot := hway.height hd.fits
      have hle : h < rootHeight := hd.fits.height_le hslot
      have hread := Store.run_entry (hd.shown ⟨_, hslot⟩)
      by_cases htable : (s.memory.entry path.slot).isTable = true
      · have hdown := hway.down (by simpa using htable)
        have hframe : (s.memory.outline path.slot).frame = (s.memory.entry path.slot).frame :=
          Entry.outline_frame
        rw [Outline.lacks_link (by simpa using htable), hframe]
        rw [hframe] at hdown
        refine .bind_run hread ?_
        rw [if_pos htable]
        refine ih hdown fun hpos => .stop hd hdown fun x hx howned hzero => ?_
        -- A table above the lowest level that was there before is not empty.
        have hhead := hdown.head hd.fits hx
        have hnone := hbusy x _ h hhead.1 (by simpa using howned) (hdown.height hd.fits)
          (.inl hpos) hzero
        cases hnone
      · rw [Outline.lacks_not_link (by simpa using htable)]
        by_cases hpresent : (s.memory.entry path.slot).present = true
        · refine .bind_run hread ?_
          rw [if_neg htable, if_pos hpresent]
          refine .pure ?_
          rintro path' ⟨⟩
        · have hold : (s.memory.entry path.slot).present = false := by simpa using hpresent
          have hmakes : Ensures (reach va (h + 1) path) anyPanic s (Makes s s root va (h + 1)) := by
            refine reach_linking hd hway hold hlending fun hlinked => ?_
            exact reach_blank hlinked.describes (hlinked.way hd hle hway) hlending
              ((hundo (Nat.succ_pos h)).removable hlinked hd hway hold hlending)
          refine hmakes.mono fun r s' hend path' hr => ?_
          exact (hend path' hr).imp_right fun hremovable _ => hremovable

end Space

/-! ## Using and removing the tables -/

namespace AddressSpace

open Chart KernelMemory.Action

variable {A : Type} [FrameSource A] [LawfulSource A] {C : Chart} {s base : Store A}
  {va : VirtAddr} {pa : PhysAddr} {flags : Flags} {path : Path}
  {space : AddressSpace}

/-- Both walks come to the slot of a page if the way leads there. -/
lemma walks_of_way (hd : C.Describes s) (hva : va.isCanonical = true)
    (hway : C.Way s.memory.outline space.root va 0 path) :
    space.walk s.memory va = .ok (.ok path) ∧
      (space.reach va).run s = .ok (.ok (.slot path)) s := by
  have hmissing : s.memory.outline.missing space.root va ≤ 0 :=
    (Outline.missing_le_iff (Nat.zero_le _)).mpr ⟨_, _, hway.leads⟩
  obtain ⟨path', hway', hdescend⟩ :=
    Space.descend_of_lacks hd (.ofRoot hway.isRoot) (Nat.le_zero.mp hmissing)
  obtain rfl := hway'.unique hway
  rw [walk, find, reach, if_pos hva, if_pos hva, hdescend]
  exact ⟨rfl, Space.run_reach_of_descend hd (.ofRoot hway.isRoot) hdescend⟩

/-- A walk for a caller takes a frame for each table that is missing, and a release undoes their
making. -/
lemma walkOrCreate_takes (hs : C.Settled False s) (hroot : C.IsRoot space.root)
    (hlending : ¬ C.lending) :
    Ensures (space.walkOrCreate va) anyPanic s fun r s' => ∀ path, r = .ok path →
      let missing := s.memory.outline.missing space.root va
      Space.Takes space.root va missing s s' ∧
        (0 < missing → Space.Removable s path s') := by
  rw [walkOrCreate, reach]
  cases hva : va.isCanonical with
  | false =>
      refine .pure ?_
      rintro path ⟨⟩
  | true =>
      have hd := hs.describes
      rw [if_pos rfl]
      refine (Space.reach_takes hd (.ofRoot hroot) hlending hs.busy
        fun _ => .stop hd (.ofRoot hroot) fun x hx => by cases hx).bind ?_
      intro r s' htakes
      refine .pure ?_
      rcases r with e | path | ⟨large, k⟩
      · rintro path ⟨⟩
      · rintro path ⟨⟩
        exact htakes path rfl
      · rintro path ⟨⟩

/-- **Mapping a page in a table that was made** takes no frame, and unmapping it gives back what was
made. -/
theorem map_unmap_made (hs : C.Settled False s) (hway : C.Way s.memory.outline space.root va 0 path)
    (hva : va.isCanonical = true) (hpa : pa.value.toNat < 2 ^ physicalAddressBits)
    (hremovable : Space.Removable base path s) (hlending : ¬ C.lending) :
    Ensures (space.map va pa flags) noPanic s fun r s' => r = .ok () ∧
      freeFrames s' = freeFrames s ∧
      Ensures (space.unmap va) noPanic s' fun r s'' => r = .ok pa.page ∧
        Restored False base s'' := by
  have hd := hs.describes
  have hexcuse : C.lending → ∀ p, noPanic p := fun hlends => absurd hlends hlending
  have hunused := hremovable.blank.not_present
  obtain ⟨e, hleaf, hpresent, hframe, hplain⟩ := leaf_eq_ok flags hpa
  obtain ⟨-, hreach⟩ := walks_of_way hd hva hway
  rw [map, if_neg (Nat.not_le.mpr hpa)]
  refine .bind_run hreach (.bind_run (Store.run_entry (hd.shown ⟨0, hway.height hd.fits⟩)) ?_)
  rw [if_neg (by simp [hunused])]
  have hpage := fillPage_ensures hd hs.busy.weaken hway hunused hpresent hplain hexcuse
  have hfill := Space.fill_ensures (e := e) (hd.ready hway) hunused (hd.room hway hunused hexcuse)
  refine .bind_run (run_ofExcept hleaf) ((hpage.and hfill).bind ?_)
  rintro _ s' ⟨⟨hs', houtline, hwritten⟩, hstore, hroom⟩
  have hfilled : Filled C C noPanic False False space.root va path e s s s' := {
    canonical := hva
    reached := .refl C space.root va s
    describes := hd
    unseen := .refl _
    way := hway
    unused := hunused
    undoes := False.elim
    store := hstore
    room := hroom
    outline := houtline
    written := hwritten
    settled := hs' }
  refine .pure ⟨rfl, ?_, ?_⟩
  · rw [hstore]
    exact hd.freeFrames_put hway
  · rw [← hframe]
    exact hfilled.unmap_ensures hremovable.undoes hpresent hexcuse

end AddressSpace

namespace Space

open Chart KernelMemory.Action

variable {A : Type} [FrameSource A] [LawfulSource A] {s s' : Store A} {va : VirtAddr} {path : Path}
  {space : AddressSpace} {root : Frame} {n : Nat} {C : Chart}

/-! ## Walks for a caller -/

/-- **A walk has come to a slot**, with `s` before it and `s'` after it. -/
structure Arrived (space : AddressSpace) (va : VirtAddr) (path : Path) (s s' : Store A) :
    Prop where
  /-- The slot is the one that bits 12 to 20 of the address select. -/
  index : path.slot.index.val = va.value.toNat / 2 ^ 12 % 2 ^ 9
  /-- No address stands for anything else than before. -/
  same (va' : VirtAddr) : s.memory.SameAt space.root s'.memory va'
  /-- The walk that makes no tables comes to the same slot. -/
  walk : space.walk s'.memory va = .ok (.ok path)
  /-- A second walk comes to the same slot, and leaves everything as it is. -/
  again : (space.walkOrCreate va).run s' = .ok (.ok path) s'
  /-- No frame was given back. -/
  subset : freeFrames s' ⊆ freeFrames s
  /-- As many frames were taken as tables were missing. -/
  taken : (freeFrames s \ freeFrames s').card = s.memory.outline.missing space.root va
  /-- They are the tables that can be reached now and could not be reached before. -/
  made (f : Frame) : f ∈ freeFrames s \ freeFrames s' ↔
    (∃ h, s'.memory.Reaches space.root h f) ∧ ¬ ∃ h, s.memory.Reaches space.root h f

/-- **The tables that were made are given back** with the last page in their table: whatever page is
mapped there next, mapping it takes no frame, and unmapping it leaves the tables and the free frames
as they were before the walk. -/
def GivenBack (space : AddressSpace) (va : VirtAddr) (s s' : Store A) : Prop :=
  ∀ (va' : VirtAddr) (pa : PhysAddr) (flags : Flags), Address.SameTable va va' →
    pa.value.toNat < 2 ^ physicalAddressBits →
    ∃ s₁ s₂, (space.map va' pa flags).run s' = .ok (.ok ()) s₁ ∧ freeFrames s₁ = freeFrames s' ∧
      (space.unmap va').run s₁ = .ok (.ok pa.page) s₂ ∧ freeFrames s₂ = freeFrames s ∧
      TablesKept s s₂ space.root

/-- **The frames that were taken are the tables that were made.** -/
theorem Takes.made_iff (htakes : Takes root va n s s') (ho : Orderly s root)
    (hcarries : (chartOf s.memory root).Carries C s s') (hd' : C.Describes s') (f : Frame) :
    f ∈ freeFrames s \ freeFrames s' ↔
      (∃ h, s'.memory.Reaches root h f) ∧ ¬ ∃ h, s.memory.Reaches root h f := by
  rw [Finset.mem_sdiff]
  constructor
  · rintro ⟨hf, hf'⟩
    obtain ⟨holders, k, hl⟩ := htakes.onWay hf hf'
    exact ⟨⟨k, hl.reaches⟩, fun ⟨h, hr⟩ => ho.notFree hr hf⟩
  · rintro ⟨⟨h, hr⟩, hnot⟩
    have hroot : C.IsRoot root := (hcarries.isRoot root).mpr ho.isRoot
    have htable : C.IsTable f := ⟨h, hd'.fits.height_of_reaches hroot hr⟩
    have hf := ((hcarries.conserved f).mp (.inl htable)).resolve_left fun ⟨k, hk⟩ =>
      hnot ⟨k, reaches_of_height hk⟩
    exact ⟨hf, hd'.notFree htable⟩

/-- **Tables that a release undoes are given back**, whatever page of the last one is mapped. -/
theorem Removable.givenBack (hremovable : Removable s path s') (ho : Orderly s space.root)
    (hs' : C.Settled False s') (hway : C.Way s'.memory.outline space.root va 0 path)
    (hva : va.isCanonical = true) (hlending : ¬ C.lending) : GivenBack space va s s' := by
  intro va' pa flags htable hpa
  -- The way to the other page is the same down to the table.
  have hway' : C.Way s'.memory.outline space.root va' 0
      { slot := ⟨path.slot.table, va'.index 0⟩, holders := path.holders } :=
    ⟨hway.isRoot, hway.leads.of_index fun k hk _ => htable.index_eq hk, rfl⟩
  have hmap : Ensures (space.map va' pa flags) noPanic s' _ := AddressSpace.map_unmap_made hs' hway'
    (htable.isCanonical_eq.trans hva) hpa ⟨hremovable.blank, hremovable.undoes⟩ hlending
  obtain ⟨-, s₁, hrun₁, rfl, hfree₁, hunmap⟩ := hmap.returns
  obtain ⟨-, s₂, hrun₂, rfl, hrestored⟩ := hunmap.returns
  exact ⟨s₁, s₂, hrun₁, hfree₁, hrun₂, hrestored.free,
    tablesKept_of_restored ho.sound ho.isRoot hrestored⟩

/-- **A walk for a caller makes the tables that are missing, and nothing else.**  In every state of
an address space it returns.  If it comes to a slot, no address notices it, both walks find the slot
from then on and change nothing, and it took one frame for each table that was missing.  If it took
any, they are given back once any page in the slot's table was mapped and unmapped. -/
theorem walk_makes_tables (hs : Reached space s) (va : VirtAddr) :
    ∃ result s', (space.walkOrCreate va).run s = .ok result s' ∧ ∀ path, result = .ok path →
      Arrived space va path s s' ∧
        (0 < s.memory.outline.missing space.root va → GivenBack space va s s') := by
  have ho := hs.orderly
  have hsound := ho.sound
  have hlending : ¬ (chartOf s.memory space.root).lending := id
  have hcall : Ensures (space.walkOrCreate va) noPanic s _ :=
    AddressSpace.walkOrCreate_ensures hsound.toSettled ho.isRoot (fun h : False => h.elim)
      fun hlends => absurd hlends hlending
  obtain ⟨result, s', hrun, hend⟩ := hcall.returns
  refine ⟨result, s', hrun, ?_⟩
  rintro path rfl
  obtain ⟨C', hev, hs', hunseen, hva, hway⟩ := hend
  have hd' := hs'.describes
  obtain ⟨htakes, hremovable⟩ :=
    (AddressSpace.walkOrCreate_takes hsound.toSettled ho.isRoot hlending).of_ok hrun path rfl
  obtain ⟨hwalk, hreach⟩ := AddressSpace.walks_of_way hd' hva hway
  refine ⟨?_, fun hmissing =>
    (hremovable hmissing).givenBack ho hs' hway hva (hev.lending ▸ hlending)⟩
  constructor
  case index => exact congrArg Fin.val hway.index
  case same => exact fun va' =>
    .of_resolve_eq hsound.describes hd' ho.isRoot hway.isRoot (hunseen space.root va' ho.isRoot)
  case walk => exact hwalk
  case again => exact run_bind hreach
  case subset => exact htakes.subset
  case taken =>
    have hcard := htakes.card
    rw [Finset.card_sdiff_of_subset htakes.subset]
    omega
  case made => exact htakes.made_iff ho hev.toCarries hd'

/-- A walk in a new address space makes three tables, and another page of the last one is mapped and
unmapped. -/
theorem walk_makes_tables_sample :
    ∃ s₀ path s₁ s₂ s₃, AddressSpace.create.run (Pool.sample 7) = .ok (.ok ⟨.ofNumber 1⟩) s₀ ∧
      s₀.memory.outline.missing (.ofNumber 1) ⟨0x1000⟩ = 3 ∧
      (AddressSpace.walkOrCreate ⟨.ofNumber 1⟩ ⟨0x1000⟩).run s₀ = .ok (.ok path) s₁ ∧
      Arrived ⟨.ofNumber 1⟩ ⟨0x1000⟩ path s₀ s₁ ∧
      (AddressSpace.map ⟨.ofNumber 1⟩ ⟨0x3000⟩ ⟨0x5000⟩ ⟨2⟩).run s₁ = .ok (.ok ()) s₂ ∧
      (AddressSpace.unmap ⟨.ofNumber 1⟩ ⟨0x3000⟩).run s₂ = .ok (.ok (.ofNumber 5)) s₃ ∧
      freeFrames s₃ = freeFrames s₀ := by
  have hheld : Holds (Pool.sample 7) ∅ := Pool.holds_sample (le_refl 7)
  obtain ⟨s₀, hcreate⟩ :
      ∃ s₀, AddressSpace.create.run (Pool.sample 7) = .ok (.ok ⟨.ofNumber 1⟩) s₀ := ⟨_, rfl⟩
  obtain ⟨path, s₁, hrun⟩ :
      ∃ path s₁, (AddressSpace.walkOrCreate ⟨.ofNumber 1⟩ ⟨0x1000⟩).run s₀ = .ok (.ok path) s₁ :=
    AddressSpace.walkOrCreate_created hheld hcreate (by decide) (by decide)
  have hblank := (AddressSpace.create_serves hheld hcreate).2.1
  have hmissing : s₀.memory.outline.missing (.ofNumber 1) ⟨0x1000⟩ = 3 := by
    rw [Outline.missing, hblank, Outline.lacks_absent]
  obtain ⟨result, s', hrun', harrives⟩ := walk_makes_tables (.create hheld hcreate) ⟨0x1000⟩
  rw [hrun] at hrun'
  cases hrun'
  obtain ⟨harrived, hback⟩ := harrives path rfl
  obtain ⟨s₂, s₃, hmap, -, hunmap, hfree, -⟩ :=
    hback (by rw [hmissing]; decide) ⟨0x3000⟩ ⟨0x5000⟩ ⟨2⟩ (by decide) (by decide)
  exact ⟨s₀, path, s₁, s₂, s₃, hcreate, hmissing, hrun, harrived, hmap, hunmap, hfree⟩

end Space

end KernelMemory
