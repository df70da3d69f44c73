import KernelMemory.Proofs.Frames.Pool
import KernelMemory.Proofs.Space.Room

/-!
# All entry points agree on what is mapped

Six entry points look at where the walk for an address ends, each in its own way.  They agree:
either nothing is mapped at the address, or a single page is, or a large one, and each entry point
says so.  Nothing is asked of entries that are not present, of tables that are not owned, or of
large pages; owned tables may be empty.

* `Space.run_reach_of_resolve` — the walk that makes missing tables makes none where a page is.
* `Space.reach_arrives`, `Space.release_returns` — with frames enough it comes to a slot, and tables
  can be given back from any slot.
* `Space.unmap_panics` — unless the source does not take them.
* `Space.Answers` — what the entry points say where nothing, a page or a large page is mapped.
* **`Space.entry_points_agree`** — they say exactly one of these.
* `Space.page_not_removed` — consistent tables are not enough for it.
-/

namespace KernelMemory.Space

open Chart KernelMemory.Action

variable {A : Type} [FrameSource A] [LawfulSource A] {C : Chart} {s : Store A}
  {root table : Frame} {va : VirtAddr} {pa : PhysAddr} {flags : Flags} {h : Nat} {path : Path}
  {holders : List Slot} {large : Entry}

/-! ## Walks that make tables, and releases -/

/-- **Where something is mapped, the walk that makes missing tables makes none**, and ends where the
read-only walk ends. -/
theorem run_reach_of_resolve (hd : C.Describes s) (hway : C.Way s.memory.outline root va h path)
    (hmapped : (s.memory.outline.resolve root va).isSome = true) :
    ∃ walk, s.memory.descend va h path = .ok (.ok walk) ∧
      (reach va h path).run s = .ok (.ok walk) s := by
  obtain ⟨result, hdescend, hlands⟩ := Memory.descend_eq hd hway
  rcases result with e | walk
  · rw [hlands.2] at hmapped
    cases hmapped
  · exact ⟨walk, hdescend, run_reach_of_descend hd hway hdescend⟩

/-- **Where nothing is mapped, the walk comes to an unused slot** if there is a frame for each table
that is missing. -/
theorem reach_arrives [GenerousSource A] (hd : C.Describes s)
    (hway : C.Way s.memory.outline root va h path) (hlending : ¬ C.lending)
    (hnone : s.memory.outline.resolve root va = none)
    (hroom : s.memory.outline.lacks va h (s.memory.outline path.slot) ≤ (freeFrames s).card) :
    Ensures (reach va h path) noPanic s fun r s' => ∃ (C' : Chart) (path' : Path),
      r = .ok (.slot path') ∧ ¬ C'.lending ∧ C'.Describes s' ∧
        C'.Way s'.memory.outline root va 0 path' ∧
        (s'.memory.entry path'.slot).present = false := by
  induction h generalizing C s path with
  | zero =>
      refine .pure ⟨C, path, rfl, hlending, hd, hway, ?_⟩
      rw [AddressSpace.resolve_slot hway] at hnone
      simpa using hnone
  | succ h ih =>
      have hslot := hway.height hd.fits
      have hle : h < rootHeight := hd.fits.height_le hslot
      refine .bind_run (Store.run_entry (hd.shown ⟨_, hslot⟩)) ?_
      by_cases htable : (s.memory.entry path.slot).isTable = true
      · rw [if_pos htable]
        have hdown := hway.down (by simpa using htable)
        rw [Memory.outline_apply, Entry.outline_frame] at hdown
        rw [Outline.lacks_link (by simpa using htable),
          show (s.memory.outline path.slot).frame = (s.memory.entry path.slot).frame from
            Entry.outline_frame] at hroom
        exact ih hd hdown hlending hnone hroom
      · rw [if_neg htable]
        have hunused : (s.memory.entry path.slot).present = false := by
          by_contra hpresent
          rw [hway.resolve_eq, Outline.follow] at hnone
          simp [htable, hpresent] at hnone
        rw [if_neg (by simp [hunused])]
        rw [Outline.lacks_not_link (by simpa using htable)] at hroom
        obtain ⟨held, hheld, -⟩ := hd.held
        obtain ⟨r, s₁, hrun⟩ := LawfulSource.alloc_returns hheld
        refine .bind_run hrun ?_
        cases r with
        | none =>
            rw [GenerousSource.free_eq_empty hheld hrun] at hroom
            exact absurd hroom (Nat.not_succ_le_zero h)
        | some f =>
            refine (linkTable_ensures hd hway hunused hrun
              fun hlends => absurd hlends hlending).bind ?_
            rintro _ s₂ ⟨e, hlinked⟩
            obtain ⟨hlack, hcard⟩ := hlinked.lacks hd hway hheld
            refine ih hlinked.describes (hlinked.way hd hle hway) hlending ?_ ?_
            · rw [hlinked.unseen hd hle hway hunused root va hway.isRoot, hnone]
            · rw [hlack]
              omega

/-- **Tables can be given back from any slot**, whether or not they are empty. -/
theorem release_returns (hd : C.Describes s) (hroot : C.IsRoot root) (hlending : ¬ C.lending)
    (hl : s.memory.outline.Leads root va holders table h) :
    Ensures (release table holders) noPanic s fun _ _ => True := by
  induction holders generalizing table h C s with
  | nil => exact .pure trivial
  | cons x above ih =>
      obtain ⟨hlinks, hx⟩ := hd.fits.links_of_leads hroot hl
      refine .bind_run (Store.run_entry (hd.shown ⟨_, hx⟩)) ?_
      split
      case isTrue hempty =>
        have howned := (empty_iff.mp hempty).1
        have howned' : (s.memory.outline x).owned = true := by simpa using howned
        refine unlink_ensures hd hroot hl howned
          (fun t => hd.fits.eq_of_links hlinks howned' fun hlends => hlending hlends.1)
          (fun hlends => absurd hlends hlending) ?_
        intro s₁ hd₁ hem _ _
        have hkin : C.Kin (C.drop table) := .drop (hd.fits.not_isRoot hlinks)
        exact ih hd₁ ((hkin.isRoot root).mpr hroot) hlending (hem.leads hd.fits hroot hl)
      case isFalse => exact .pure trivial

/-- Giving back an empty table panics where another source, in place of the present one, does not
take it. -/
lemma release_panics {x : Slot} {above : List Slot} {source : A} {excuse : Panic → Prop}
    (hd : C.Describes s) (hroot : C.IsRoot root) (hlending : ¬ C.lending)
    (hl : s.memory.outline.Leads root va (x :: above) table h)
    (howned : (s.memory.entry x).owned = true) (hzero : s.memory.live x = 0)
    (hfree : ∀ m, Ensures (FrameSource.free table) excuse { s with memory := m, source }
      fun _ _ => False) :
    Ensures (release table (x :: above)) excuse { s with source } fun _ _ => False := by
  have hway := Way.ofHolder hroot hl
  have hready := hd.ready hway
  have hpresent : (s.memory.entry x).present = true := by
    simpa using (hd.fits.links_of_leads hroot hl).1.present
  refine .bind_run (Store.run_entry hready.slot) ?_
  rw [if_pos (empty_iff.mpr ⟨howned, hzero⟩)]
  refine (vacate_ensures (s := { s with source }) hready hpresent
    (hd.live_ne_zero hway hpresent fun hlends => absurd hlends hlending)).bind ?_
  rintro _ s₁ rfl
  exact (hfree _).bind fun _ _ h => h.elim

/-- **Removing the last page of an owned table panics where the source does not take the table
back.** -/
theorem unmap_panics {e : Entry} {source : A} {excuse : Panic → Prop} (hd : C.Describes s)
    (hroot : C.IsRoot root) (hlending : ¬ C.lending) (hva : va.isCanonical = true)
    (hresolve : s.memory.outline.resolve root va = some (e, 0))
    (hlast : ∀ {f holders}, s.memory.outline.Leads root va holders f 0 →
      ∃ x above, holders = x :: above ∧ (s.memory.entry x).owned = true ∧ s.memory.live x = 1)
    (hfree : ∀ {f holders}, s.memory.outline.Leads root va holders f 0 → ∀ m,
      Ensures (FrameSource.free f) excuse { s with memory := m, source } fun _ _ => False) :
    Ensures (AddressSpace.unmap ⟨root⟩ va) excuse { s with source } fun _ _ => False := by
  have hroot' : C.IsRoot (AddressSpace.mk root).root := hroot
  have hexcuse {excuse : Panic → Prop} : C.lending → ∀ p, excuse p :=
    fun hlends => absurd hlends hlending
  obtain ⟨path, hwalk, hway, hpresent, -⟩ := AddressSpace.walk_of_resolve hd hroot' hva hresolve
  have hready := hd.ready hway
  refine .bind_run (Store.run_lookup hwalk) (.bind_run (Store.run_entry hready.slot) ?_)
  rw [if_neg (by simp [hpresent])]
  refine (vacate_ensures (s := { s with source }) hready hpresent
    (hd.live_ne_zero hway hpresent hexcuse)).bind ?_
  rintro _ s₁ rfl
  -- The only child of the table is gone.  The source has not been looked at so far.
  have hvacate : Ensures (vacate path) noPanic s _ := vacate_describes hd hway hpresent hexcuse
  obtain ⟨_, _, -, rfl, hd₁⟩ := hvacate.returns
  obtain ⟨x, above, hholders, howned, hlive⟩ := hlast hway.leads
  have hleads : Outline.Leads (Memory.outline (s.memory.put path .absent (· - 1))) root va
      (x :: above) path.slot.table 0 := by
    rw [← hholders]
    exact (hway.put hd.fits).leads
  have hne : x ≠ path.slot := by
    rintro rfl
    exact hready.ne (by rw [hholders, List.head?_cons])
  have hentry := Memory.entry_put_of_ne (m := s.memory) (e := .absent) (g := (· - 1)) hne
  rw [hholders, if_pos ⟨rfl, howned⟩, hlive] at hentry
  have hrelease : Ensures (release path.slot.table path.holders) excuse
      { s with memory := s.memory.put path .absent (· - 1), source } fun _ _ => False := by
    rw [hholders]
    refine release_panics hd₁ hroot hlending hleads ?_ ?_ (hfree hway.leads)
    · rw [hentry]
      exact howned
    · rw [Memory.live, hentry]
      rfl
  exact hrelease.bind fun _ _ h => h.elim

/-! ## What the entry points say -/

variable {α : Type}

/-- Looking at memory gives an answer, and changes nothing. -/
def Tells (s : Store A) (look : Memory → Except Panic α) (answer : α) : Prop :=
  (Store.lookup look).run s = .ok answer s

/-- **The entry points say that nothing is mapped** at an address, and a page can be mapped there if
there is a frame for each missing table. -/
structure SaysNothing (s : Store A) (root : Frame) (va : VirtAddr) : Prop where
  isMapped : Tells s (fun m => AddressSpace.isMapped ⟨root⟩ m va) false
  translate : Tells s (fun m => AddressSpace.translate ⟨root⟩ m va) (.error .notMapped)
  walk : Tells s (fun m => AddressSpace.walk ⟨root⟩ m va) (.error .notMapped) ∨
    ∃ path, Tells s (fun m => AddressSpace.walk ⟨root⟩ m va) (.ok path) ∧
      (s.memory.entry path.slot).present = false
  walkOrCreate : s.memory.outline.missing root va ≤ (freeFrames s).card →
    ∃ path s', (AddressSpace.walkOrCreate ⟨root⟩ va).run s = .ok (.ok path) s' ∧
      (s'.memory.entry path.slot).present = false
  unmap : (AddressSpace.unmap ⟨root⟩ va).run s = .ok (.error .notMapped) s
  map {pa : PhysAddr} {flags : Flags} : pa.value.toNat < 2 ^ physicalAddressBits →
    s.memory.outline.missing root va ≤ (freeFrames s).card →
    ∃ s', (AddressSpace.map ⟨root⟩ va pa flags).run s = .ok (.ok ()) s'

/-- **The entry points say that a single page is mapped** at an address, all of them the same one.
-/
structure SaysPage (s : Store A) (root : Frame) (va : VirtAddr) : Prop where
  isMapped : Tells s (fun m => AddressSpace.isMapped ⟨root⟩ m va) true
  found : ∃ mapping path s', mapping.pageBytes = pageSize ∧
    Tells s (fun m => AddressSpace.translate ⟨root⟩ m va) (.ok mapping) ∧
    Tells s (fun m => AddressSpace.walk ⟨root⟩ m va) (.ok path) ∧
    (AddressSpace.walkOrCreate ⟨root⟩ va).run s = .ok (.ok path) s ∧
    (s.memory.entry path.slot).present = true ∧
    (s.memory.entry path.slot).frame = mapping.address.page ∧
    (AddressSpace.unmap ⟨root⟩ va).run s = .ok (.ok mapping.address.page) s'
  map {pa : PhysAddr} {flags : Flags} : pa.value.toNat < 2 ^ physicalAddressBits →
    (AddressSpace.map ⟨root⟩ va pa flags).run s = .ok (.error .alreadyMapped) s

/-- **The entry points say that a large page is mapped** at an address, which has no slot of its
own. -/
structure SaysLarge (s : Store A) (root : Frame) (va : VirtAddr) : Prop where
  isMapped : Tells s (fun m => AddressSpace.isMapped ⟨root⟩ m va) true
  translate : ∃ mapping, pageSize < mapping.pageBytes ∧
    Tells s (fun m => AddressSpace.translate ⟨root⟩ m va) (.ok mapping)
  walk : Tells s (fun m => AddressSpace.walk ⟨root⟩ m va)
    (.error (.invalidRequest .coveredByLargePage))
  walkOrCreate : (AddressSpace.walkOrCreate ⟨root⟩ va).run s =
    .ok (.error (.invalidRequest .coveredByLargePage)) s
  unmap : (AddressSpace.unmap ⟨root⟩ va).run s =
    .ok (.error (.invalidRequest .coveredByLargePage)) s
  map {pa : PhysAddr} {flags : Flags} : pa.value.toNat < 2 ^ physicalAddressBits →
    (AddressSpace.map ⟨root⟩ va pa flags).run s = .ok (.error .alreadyMapped) s

/-- **The entry points say that an address is not one**: nothing is mapped there, and every request
is invalid. -/
structure SaysInvalid (s : Store A) (root : Frame) (va : VirtAddr) : Prop where
  isMapped : Tells s (fun m => AddressSpace.isMapped ⟨root⟩ m va) false
  translate : Tells s (fun m => AddressSpace.translate ⟨root⟩ m va)
    (.error (.invalidRequest .nonCanonical))
  walk : Tells s (fun m => AddressSpace.walk ⟨root⟩ m va) (.error (.invalidRequest .nonCanonical))
  walkOrCreate : (AddressSpace.walkOrCreate ⟨root⟩ va).run s =
    .ok (.error (.invalidRequest .nonCanonical)) s
  unmap : (AddressSpace.unmap ⟨root⟩ va).run s = .ok (.error (.invalidRequest .nonCanonical)) s
  map (pa : PhysAddr) (flags : Flags) : (AddressSpace.map ⟨root⟩ va pa flags).run s =
    .ok (.error (.invalidRequest
      (if 2 ^ physicalAddressBits ≤ pa.value.toNat then .beyondPhysical else .nonCanonical))) s

/-- What can be mapped at an address. -/
inductive Occupancy where
  | nothing
  | page
  | largePage
deriving DecidableEq, Repr

/-- What the entry points say of an address, by what is mapped there. -/
def Answers (s : Store A) (root : Frame) (va : VirtAddr) : Occupancy → Prop
  | .nothing => SaysNothing s root va
  | .page => SaysPage s root va
  | .largePage => SaysLarge s root va

/-! ### One case after the other -/

omit [LawfulSource A] in
lemma saysInvalid (s : Store A) (root : Frame) (hva : va.isCanonical = false) :
    SaysInvalid s root va := by
  have hfind : ∀ m, AddressSpace.find ⟨root⟩ m va =
      .ok (.error (.invalidRequest .nonCanonical)) := AddressSpace.find_of_not_canonical hva
  have hwalk : AddressSpace.walk ⟨root⟩ s.memory va =
      .ok (.error (.invalidRequest .nonCanonical)) := by
    rw [AddressSpace.walk, hfind]
    rfl
  have hreach : (AddressSpace.reach ⟨root⟩ va).run s =
      .ok (.error (.invalidRequest .nonCanonical)) s := by
    rw [AddressSpace.reach, if_neg (by simp [hva])]
    rfl
  constructor
  case isMapped =>
    refine Store.run_lookup ?_
    rw [AddressSpace.isMapped, hfind]
    rfl
  case translate =>
    refine Store.run_lookup ?_
    rw [AddressSpace.translate, hfind]
    rfl
  case walk => exact Store.run_lookup hwalk
  case walkOrCreate => exact (run_bind hreach).trans rfl
  case unmap =>
    have hlookup : (Store.lookup fun m => AddressSpace.walk ⟨root⟩ m va).run s =
        .ok (.error (.invalidRequest .nonCanonical)) s := Store.run_lookup hwalk
    exact (run_bind hlookup).trans rfl
  case map =>
    intro pa flags
    rw [AddressSpace.map]
    split
    · rfl
    · exact (run_bind hreach).trans rfl

/-- Both walks for an address where something is mapped end at the same place, and change nothing.
-/
lemma reach_mapped (hd : C.Describes s) (hroot : C.IsRoot root) (hva : va.isCanonical = true)
    (hmapped : (s.memory.outline.resolve root va).isSome = true) :
    ∃ walk, AddressSpace.find ⟨root⟩ s.memory va = .ok (.ok walk) ∧
      C.Lands s.memory.outline root va (.ok walk) ∧
      (AddressSpace.reach ⟨root⟩ va).run s = .ok (.ok walk) s := by
  have hroot' : C.IsRoot (AddressSpace.mk root).root := hroot
  obtain ⟨result, hfind, hlands⟩ := AddressSpace.find_eq hd hroot' hva
  obtain ⟨walk, hdescend, hreach⟩ := run_reach_of_resolve hd (.ofRoot hroot) hmapped
  have hresult : result = .ok walk := by
    rw [AddressSpace.find, if_pos hva, hdescend] at hfind
    exact (Except.ok.inj hfind).symm
  subst hresult
  refine ⟨walk, hfind, hlands, ?_⟩
  rw [AddressSpace.reach, if_pos hva]
  exact hreach

/-- A page is never mapped over anything. -/
lemma map_mapped (hd : C.Describes s) (hroot : C.IsRoot root) (hva : va.isCanonical = true)
    (hmapped : (s.memory.outline.resolve root va).isSome = true)
    (hpa : pa.value.toNat < 2 ^ physicalAddressBits) :
    (AddressSpace.map ⟨root⟩ va pa flags).run s = .ok (.error .alreadyMapped) s := by
  obtain ⟨walk, -, hlands, hreach⟩ := reach_mapped hd hroot hva hmapped
  rw [AddressSpace.map, if_neg (not_le.mpr hpa), run_bind hreach]
  cases walk with
  | slot path =>
      have hway : C.Way s.memory.outline root va 0 path := hlands
      have hpresent : (s.memory.entry path.slot).present = true := by
        by_contra hnot
        rw [AddressSpace.resolve_slot hway, if_neg hnot] at hmapped
        cases hmapped
      have hread := Store.run_entry (s := s) (hd.shown ⟨0, hway.height hd.fits⟩)
      refine (run_bind hread).trans ?_
      rw [if_pos hpresent]
      rfl
  | large => rfl

lemma saysLarge (hd : C.Describes s) (hroot : C.IsRoot root) (hva : va.isCanonical = true)
    {e : Entry} {k : Nat} (hresolve : s.memory.outline.resolve root va = some (e, k + 1)) :
    SaysLarge s root va := by
  have hroot' : C.IsRoot (AddressSpace.mk root).root := hroot
  have hmapped : (s.memory.outline.resolve root va).isSome = true := by
    rw [hresolve]
    rfl
  have hisMapped := AddressSpace.isMapped_eq hd hroot' hva
  have htranslate := AddressSpace.translate_eq hd hroot' hva
  obtain ⟨walk, hfind, hlands, hreach⟩ := reach_mapped hd hroot hva hmapped
  rcases walk with path | ⟨large, j⟩
  · have hway : C.Way s.memory.outline root va 0 path := hlands
    rw [AddressSpace.resolve_slot hway] at hresolve
    split at hresolve <;> cases hresolve
  · obtain ⟨hlarge, hpresent, -⟩ := hlands
    rw [hresolve] at hlarge
    obtain ⟨rfl, rfl⟩ := Prod.mk.inj (Option.some.inj hlarge)
    have hwalk : AddressSpace.walk ⟨root⟩ s.memory va =
        .ok (.error (.invalidRequest .coveredByLargePage)) := by
      rw [AddressSpace.walk, hfind]
      rfl
    have hlookup : (Store.lookup fun m => AddressSpace.walk ⟨root⟩ m va).run s =
        .ok (.error (.invalidRequest .coveredByLargePage)) s := Store.run_lookup hwalk
    constructor
    case isMapped =>
      rw [hmapped] at hisMapped
      exact Store.run_lookup hisMapped
    case translate =>
      simp only [hresolve, Entry.translate_outline] at htranslate
      rw [Entry.translate, if_pos hpresent] at htranslate
      have hbytes : 2 ^ 12 < 2 ^ Address.indexShift (k + 1) :=
        Nat.pow_lt_pow_right (by decide) (by simp only [Address.indexShift]; omega)
      refine ⟨_, ?_, Store.run_lookup htranslate⟩
      exact hbytes
    case walk => exact hlookup
    case walkOrCreate => exact (run_bind hreach).trans rfl
    case unmap => exact (run_bind hlookup).trans rfl
    case map => exact map_mapped hd hroot hva hmapped

lemma saysPage (hd : C.Describes s) (hroot : C.IsRoot root) (hlending : ¬ C.lending)
    (hva : va.isCanonical = true) {e : Entry}
    (hresolve : s.memory.outline.resolve root va = some (e, 0)) : SaysPage s root va := by
  have hroot' : C.IsRoot (AddressSpace.mk root).root := hroot
  have hexcuse : C.lending → ∀ p, noPanic p := fun hlends => absurd hlends hlending
  have hmapped : (s.memory.outline.resolve root va).isSome = true := by
    rw [hresolve]
    rfl
  have hisMapped := AddressSpace.isMapped_eq hd hroot' hva
  have htranslate := AddressSpace.translate_eq hd hroot' hva
  obtain ⟨path, hwalk, hway, hpresent, rfl⟩ :=
    AddressSpace.walk_of_resolve hd hroot' hva hresolve
  obtain ⟨walk, hfind, -, hreach⟩ := reach_mapped hd hroot hva hmapped
  have hslot : walk.path? = .ok path := by
    rw [AddressSpace.walk, hfind] at hwalk
    exact Except.ok.inj hwalk
  -- The slot is emptied, and tables that are empty then are given back.
  have hunmap : Ensures (AddressSpace.unmap ⟨root⟩ va) noPanic s fun r _ =>
      r = .ok (s.memory.entry path.slot).frame := by
    refine .bind_run (Store.run_lookup hwalk)
      (.bind_run (Store.run_entry (hd.shown ⟨0, hway.height hd.fits⟩)) ?_)
    rw [if_neg (by simp [hpresent])]
    refine (vacate_describes hd hway hpresent hexcuse).bind ?_
    rintro _ s₁ ⟨rfl, hd₁⟩
    have hway₁ : C.Way (Memory.outline (s.memory.put path .absent (· - 1))) root va 0 path :=
      hway.put hd.fits
    exact (release_returns hd₁ hroot hlending hway₁.leads).bind fun _ _ _ => .pure rfl
  obtain ⟨_, s', hrun, rfl⟩ := hunmap.returns
  constructor
  case isMapped =>
    rw [hmapped] at hisMapped
    exact Store.run_lookup hisMapped
  case found =>
    simp only [hresolve, Entry.translate_outline] at htranslate
    rw [Entry.translate_of_present hpresent] at htranslate
    refine ⟨_, path, s', rfl, Store.run_lookup htranslate, Store.run_lookup hwalk, ?_, hpresent, ?_⟩
    · exact (run_bind hreach).trans (congrArg (EStateM.Result.ok · s) hslot)
    · rw [Address.page_join]
      exact ⟨rfl, hrun⟩
  case map => exact map_mapped hd hroot hva hmapped

/-- Where nothing is mapped, the walk that makes missing tables ends at an unused slot. -/
lemma reach_unused [GenerousSource A] (hd : C.Describes s) (hroot : C.IsRoot root)
    (hlending : ¬ C.lending) (hva : va.isCanonical = true)
    (hnone : s.memory.outline.resolve root va = none)
    (hroom : s.memory.outline.missing root va ≤ (freeFrames s).card) :
    Ensures (AddressSpace.reach ⟨root⟩ va) noPanic s fun r s' => ∃ (C' : Chart) (path : Path),
      r = .ok (.slot path) ∧ ¬ C'.lending ∧ C'.Describes s' ∧
        C'.Way s'.memory.outline root va 0 path ∧
        (s'.memory.entry path.slot).present = false := by
  rw [AddressSpace.reach, if_pos hva]
  exact reach_arrives hd (.ofRoot hroot) hlending hnone hroom

/-- A page is mapped where nothing is. -/
lemma map_unused [GenerousSource A] (hd : C.Describes s) (hroot : C.IsRoot root)
    (hlending : ¬ C.lending) (hva : va.isCanonical = true)
    (hnone : s.memory.outline.resolve root va = none)
    (hpa : pa.value.toNat < 2 ^ physicalAddressBits)
    (hroom : s.memory.outline.missing root va ≤ (freeFrames s).card) :
    ∃ s', (AddressSpace.map ⟨root⟩ va pa flags).run s = .ok (.ok ()) s' := by
  obtain ⟨e, hleaf, -⟩ := AddressSpace.leaf_eq_ok flags hpa
  have hmap : Ensures (AddressSpace.map ⟨root⟩ va pa flags) noPanic s fun r _ => r = .ok () := by
    rw [AddressSpace.map, if_neg (not_le.mpr hpa)]
    refine (reach_unused hd hroot hlending hva hnone hroom).bind ?_
    rintro _ s₁ ⟨C', path, rfl, hlending', hd₁, hway, hunused⟩
    refine .bind_run (Store.run_entry (hd₁.shown ⟨0, hway.height hd₁.fits⟩)) ?_
    rw [if_neg (by simp [hunused])]
    have hfill : Ensures (fill path e) noPanic s₁ _ := fill_ensures (hd₁.ready hway) hunused
      (hd₁.room hway hunused fun hlends => absurd hlends hlending')
    exact .bind_run (run_ofExcept hleaf) (hfill.bind fun _ _ _ => .pure rfl)
  obtain ⟨_, s', hrun, rfl⟩ := hmap.returns
  exact ⟨s', hrun⟩

lemma saysNothing [GenerousSource A] (hd : C.Describes s) (hroot : C.IsRoot root)
    (hlending : ¬ C.lending) (hva : va.isCanonical = true)
    (hnone : s.memory.outline.resolve root va = none) : SaysNothing s root va := by
  have hroot' : C.IsRoot (AddressSpace.mk root).root := hroot
  have hisMapped := AddressSpace.isMapped_eq hd hroot' hva
  have htranslate := AddressSpace.translate_eq hd hroot' hva
  rw [hnone] at hisMapped htranslate
  obtain ⟨result, hfind, hlands⟩ := AddressSpace.find_eq hd hroot' hva
  have hwalk : AddressSpace.walk ⟨root⟩ s.memory va = .ok (result.bind Walk.path?) := by
    rw [AddressSpace.walk, hfind]
    rfl
  have hlookup : (Store.lookup fun m => AddressSpace.walk ⟨root⟩ m va).run s =
      .ok (result.bind Walk.path?) s := Store.run_lookup hwalk
  constructor
  case isMapped => exact Store.run_lookup hisMapped
  case translate => exact Store.run_lookup htranslate
  case walk =>
    rcases result with err | path | ⟨large, k⟩
    · obtain ⟨rfl, -⟩ := hlands
      exact .inl hlookup
    · refine .inr ⟨path, hlookup, ?_⟩
      rw [AddressSpace.resolve_slot hlands] at hnone
      simpa using hnone
    · rw [hlands.1] at hnone
      cases hnone
  case walkOrCreate =>
    intro hroom
    obtain ⟨_, s', hrun, C', path, rfl, -, -, -, hunused⟩ :=
      (reach_unused hd hroot hlending hva hnone hroom).returns
    exact ⟨path, s', (run_bind hrun).trans rfl, hunused⟩
  case unmap =>
    rcases result with err | path | ⟨large, k⟩
    · obtain ⟨rfl, -⟩ := hlands
      exact (run_bind hlookup).trans rfl
    · have hway : C.Way s.memory.outline root va 0 path := hlands
      rw [AddressSpace.resolve_slot hway] at hnone
      have hunused : (s.memory.entry path.slot).present = false := by simpa using hnone
      have hread := Store.run_entry (s := s) (hd.shown ⟨0, hway.height hd.fits⟩)
      refine (run_bind hlookup).trans ((run_bind hread).trans ?_)
      rw [if_pos (by simp [hunused])]
      rfl
    · rw [hlands.1] at hnone
      cases hnone
  case map => exact map_unused hd hroot hlending hva hnone

/-- The entry points say one thing of an address. -/
lemma Answers.unique {what other : Occupancy} (hother : Answers s root va other)
    (h : Answers s root va what) : other = what := by
  have htells : ∀ {α : Type} {look : Memory → Except Panic α} {a b : α},
      Tells s look a → Tells s look b → a = b := by
    intro α look a b ha hb
    have heq := ha.symm.trans hb
    cases heq
    rfl
  cases other <;> cases what
  case nothing.nothing => rfl
  case page.page => rfl
  case largePage.largePage => rfl
  case nothing.page =>
    cases htells (SaysNothing.isMapped hother) (SaysPage.isMapped h)
  case nothing.largePage =>
    cases htells (SaysNothing.isMapped hother) (SaysLarge.isMapped h)
  case page.nothing =>
    cases htells (SaysNothing.isMapped h) (SaysPage.isMapped hother)
  case largePage.nothing =>
    cases htells (SaysNothing.isMapped h) (SaysLarge.isMapped hother)
  case page.largePage =>
    obtain ⟨mapping, path, -, -, -, hwalk, -⟩ := SaysPage.found hother
    cases htells hwalk (SaysLarge.walk h)
  case largePage.page =>
    obtain ⟨mapping, path, -, -, -, hwalk, -⟩ := SaysPage.found h
    cases htells hwalk (SaysLarge.walk hother)

/-- **The entry points say what is mapped.** -/
theorem answers [GenerousSource A] (hd : C.Describes s) (hroot : C.IsRoot root)
    (hlending : ¬ C.lending) (hva : va.isCanonical = true) : ∃ what, Answers s root va what := by
  cases hresolve : s.memory.outline.resolve root va with
  | none => exact ⟨.nothing, saysNothing hd hroot hlending hva hresolve⟩
  | some found =>
      obtain ⟨e, k⟩ := found
      cases k with
      | zero => exact ⟨.page, saysPage hd hroot hlending hva hresolve⟩
      | succ k => exact ⟨.largePage, saysLarge hd hroot hva hresolve⟩

/-- Consistent tables have a chart on which no root lends its tables. -/
lemma Coherent.chart (hc : Coherent s root) :
    ∃ C : Chart, C.Describes s ∧ C.IsRoot root ∧ ¬ C.lending := by
  have hd : Describes { chartOf s.memory root with clean := False } s :=
    hc.describes fun h => h.elim
  exact ⟨_, hd, height_of_reaches (fun hk => hc.height hk .root) .root, id⟩

/-! ## Tables by hand -/

namespace Agreement

/-- A way of four tables in the frames 1 to 4, of which only the last is owned, to the page at
`0x1000`, and a page of the largest size beside it. -/
def memory : Memory :=
  let blank : Memory := { window := { offset := 4096, frames? := some 8 } }
  ((((blank.setEntry ⟨.ofNumber 1, 1⟩ (.ofWord 0x83)).setEntry ⟨.ofNumber 1, 0⟩
    (.ofWord 0x2003)).setEntry ⟨.ofNumber 2, 0⟩ (.ofWord 0x3003)).setEntry ⟨.ofNumber 3, 0⟩
    (.ofWord 0x10000000004203)).setEntry ⟨.ofNumber 4, 1⟩ (.ofWord 0x5003)

lemma entry_memory {x : Slot} : memory.entry x =
    if ⟨.ofNumber 4, 1⟩ = x then .ofWord 0x5003
    else if ⟨.ofNumber 3, 0⟩ = x then .ofWord 0x10000000004203
    else if ⟨.ofNumber 2, 0⟩ = x then .ofWord 0x3003
    else if ⟨.ofNumber 1, 0⟩ = x then .ofWord 0x2003
    else if ⟨.ofNumber 1, 1⟩ = x then .ofWord 0x83
    else .absent := by
  have hblank : Memory.entry { window := { offset := 4096, frames? := some 8 } } x = .absent := by
    rw [Memory.entry, Memory.word_blank]
    decide
  simp only [memory, Memory.entry_setEntry, hblank]

variable {x y : Slot} {f : Frame} {k : Nat}

/-- Every table above the lowest level links the next one, and only the last link is owned. -/
lemma isTable_memory (hx : x.table ≠ .ofNumber 4) (h : (memory.entry x).isTable = true) :
    ∃ k, k < 3 ∧ x = ⟨.ofNumber (k + 1), 0⟩ ∧ (memory.entry x).frame = .ofNumber (k + 2) ∧
      ((memory.entry x).owned = true ↔ k = 2) := by
  rw [entry_memory] at h ⊢
  split_ifs at h ⊢ with h₄ h₃ h₂ h₁ h₀
  · exact absurd (congrArg Slot.table h₄).symm hx
  · exact ⟨2, by decide, h₃.symm, by decide, by decide⟩
  · exact ⟨1, by decide, h₂.symm, by decide, by decide⟩
  · exact ⟨0, by decide, h₁.symm, by decide, by decide⟩
  · cases h
  · cases h

lemma ofNumber_inj {a b : Nat} (ha : a < 8) (hb : b < 8)
    (h : (Page.ofNumber a : Frame) = .ofNumber b) : a = b := by
  have hnumber := congrArg Page.number h
  rwa [Page.number_ofNumber (by omega), Page.number_ofNumber (by omega)] at hnumber

/-- The tables that can be reached. -/
lemma reaches_memory (hr : memory.Reaches (.ofNumber 1) h f) :
    h ≤ 3 ∧ f = .ofNumber (4 - h) := by
  induction hr with
  | root => exact ⟨le_refl 3, rfl⟩
  | @down h t i _ htable ih =>
      obtain ⟨hle, rfl⟩ := ih
      have hne : (Page.ofNumber (4 - (h + 1)) : Frame) ≠ .ofNumber 4 := fun heq => by
        have := ofNumber_inj (by omega) (by omega) heq
        omega
      obtain ⟨k, hk, hslot, hframe, -⟩ := isTable_memory (x := ⟨_, i⟩) hne htable
      have := ofNumber_inj (by omega) (by omega) (congrArg Slot.table hslot)
      refine ⟨by omega, hframe.trans ?_⟩
      congr 1
      omega

/-- A link of a table that can be reached, by the height of its table. -/
lemma links_memory (hr : memory.Reaches (.ofNumber 1) (h + 1) x.table)
    (htable : (memory.entry x).isTable = true) :
    h ≤ 2 ∧ x = ⟨.ofNumber (3 - h), 0⟩ ∧ (memory.entry x).frame = .ofNumber (4 - h) ∧
      ((memory.entry x).owned = true ↔ h = 0) := by
  obtain ⟨hle, hx⟩ := reaches_memory hr
  have hne : x.table ≠ .ofNumber 4 := fun heq => by
    rw [hx] at heq
    have := ofNumber_inj (by omega) (by omega) heq
    omega
  obtain ⟨k, hk, rfl, hframe, howned⟩ := isTable_memory hne htable
  have := ofNumber_inj (by omega) (by omega) hx
  obtain rfl : k = 2 - h := by omega
  refine ⟨by omega, ?_, ?_, howned.trans ?_⟩
  · congr 2
    omega
  · rw [hframe]
    congr 1
    omega
  · omega

/-- Every way to the lowest level ends with the owned link. -/
lemma leads_memory {va : VirtAddr} {holders : List Slot}
    (hl : memory.outline.Leads (.ofNumber 1) va holders f 0) :
    f = .ofNumber 4 ∧ ∃ above, holders = ⟨.ofNumber 3, 0⟩ :: above := by
  cases holders with
  | nil => cases hl
  | cons x above =>
      obtain ⟨habove, -, htable, hframe⟩ := hl.uncons
      rw [Memory.outline_apply, Entry.outline_isTable] at htable
      rw [Memory.outline_apply, Entry.outline_frame] at hframe
      obtain ⟨-, rfl, hframe', -⟩ := links_memory habove.reaches htable
      exact ⟨hframe.symm.trans hframe', above, rfl⟩

/-- The last table has one page. -/
lemma present_memory {i : Index} :
    (memory.entry ⟨.ofNumber 4, i⟩).present = true ↔ i = 1 := by
  rw [entry_memory]
  split_ifs with h₄ h₃ h₂ h₁ h₀
  · exact ⟨fun _ => (Slot.mk.inj h₄).2.symm, fun _ => rfl⟩
  · exact absurd (Slot.mk.inj h₃).1 (by decide)
  · exact absurd (Slot.mk.inj h₂).1 (by decide)
  · exact absurd (Slot.mk.inj h₁).1 (by decide)
  · exact absurd (Slot.mk.inj h₀).1 (by decide)
  · exact ⟨fun h => (by cases h), fun h => absurd (congrArg _ h.symm) h₄⟩

lemma count_memory : memory.outline.count (.ofNumber 4) = 1 := by
  have hpage : (Finset.univ.filter fun i => (memory.outline ⟨.ofNumber 4, i⟩).present = true) =
      {1} := by
    ext i
    rw [Finset.mem_filter, Finset.mem_singleton, Memory.outline_apply, Entry.outline_present,
      present_memory]
    exact and_iff_right (Finset.mem_univ i)
  rw [Outline.count, hpage, Finset.card_singleton]

lemma consistent_memory : Consistent memory (.ofNumber 1) := by
  constructor
  case height =>
    intro h k t hr hr'
    obtain ⟨hle, rfl⟩ := reaches_memory hr
    obtain ⟨hle', heq⟩ := reaches_memory hr'
    have := ofNumber_inj (by omega) (by omega) heq
    omega
  case sole =>
    intro h k x y hx hr htable hframe
    obtain ⟨hle, rfl, hframe₁, -⟩ := links_memory hx.reaches hx.isTable
    obtain ⟨hle', rfl, hframe₂, -⟩ := links_memory hr htable
    rw [hframe₁, hframe₂] at hframe
    have := ofNumber_inj (by omega) (by omega) hframe
    obtain rfl : k = h := by omega
    rfl
  case counted =>
    intro h x hx
    obtain ⟨-, hslot, hframe, howned⟩ := links_memory hx.reaches hx.isTable
    obtain rfl := howned.mp hx.owned
    rw [hframe, Outline.presentCount_ofWords, hslot, count_memory, entry_memory]
    decide
  case shown =>
    intro h t hr
    obtain ⟨-, rfl⟩ := reaches_memory hr
    refine Memory.shows_of_lt (n := 8) rfl ?_
    rw [Page.number_ofNumber (by omega)]
    omega

/-- A pool that has handed out the owned table. -/
def lent : Store Pool where
  memory := memory
  source := { free := [.ofNumber 6, .ofNumber 7], outstanding := 1 }

/-- A pool that has handed out nothing. -/
def unlent : Store Pool where
  memory := memory
  source := { free := [.ofNumber 6, .ofNumber 7] }

/-- The free frames can be used, and none of them is a table. -/
lemma free_frames (hf : f ∈ [Page.ofNumber 6, Page.ofNumber 7]) :
    f.number < 2 ^ 40 ∧ memory.Shows f ∧ ∀ h, ¬ memory.Reaches (.ofNumber 1) h f := by
  have hframe : ∃ n, n < 8 ∧ 4 < n ∧ f = .ofNumber n := by
    rcases List.mem_cons.mp hf with rfl | hf
    · exact ⟨6, by decide, by decide, rfl⟩
    · exact ⟨7, by decide, by decide, List.mem_singleton.mp hf⟩
  obtain ⟨n, hlt, hgt, rfl⟩ := hframe
  have hnumber : (Page.ofNumber n : Frame).number = n := Page.number_ofNumber (by omega)
  refine ⟨by omega, Memory.shows_of_lt (n := 8) rfl (by omega), fun h hr => ?_⟩
  have := ofNumber_inj hlt (by omega) (reaches_memory hr).2
  omega

lemma coherent_lent : Coherent lent (.ofNumber 1) := by
  refine ⟨consistent_memory, ?_, fun _ => id, {.ofNumber 4}, ?_, ?_⟩
  · intro h t hr hin
    have hfree : t ∈ [Page.ofNumber 6, Page.ofNumber 7] := List.mem_toFinset.mp hin
    exact (free_frames hfree).2.2 h hr
  · constructor
    case nodup => decide
    case number_lt =>
      rintro f (hf | hf)
      · exact (free_frames hf).1
      · rw [Finset.mem_singleton.mp hf]
        decide
    case shown =>
      rintro f (hf | hf)
      · exact (free_frames hf).2.1
      · rw [Finset.mem_singleton.mp hf]
        exact Memory.shows_of_lt (n := 8) rfl (by decide)
    case notFree =>
      intro f hf
      rw [Finset.mem_singleton.mp hf]
      decide
    case outstanding => exact le_refl 1
  · intro h x hx
    obtain ⟨-, -, hframe, howned⟩ := links_memory hx.reaches hx.isTable
    obtain rfl := howned.mp hx.owned
    exact Finset.mem_singleton.mpr hframe

lemma resolve_page : memory.outline.resolve (.ofNumber 1) ⟨0x1000⟩ =
    some ({ present := true, writable := true, frameNumber := 5 }, 0) := by
  simp only [Outline.resolve, Outline.follow, Memory.outline_apply, entry_memory, rootHeight]
  decide

lemma resolve_large : memory.outline.resolve (.ofNumber 1) ⟨0x8000000000⟩ =
    some ({ present := true, writable := true, huge := true }, 3) := by
  simp only [Outline.resolve, Outline.follow, Memory.outline_apply, entry_memory, rootHeight]
  decide

lemma resolve_nothing : memory.outline.resolve (.ofNumber 1) ⟨0x2000⟩ = none := by
  simp only [Outline.resolve, Outline.follow, Memory.outline_apply, entry_memory, rootHeight]
  decide

lemma answers_lent : Answers lent (.ofNumber 1) ⟨0x1000⟩ .page ∧
    Answers lent (.ofNumber 1) ⟨0x8000000000⟩ .largePage ∧
    Answers lent (.ofNumber 1) ⟨0x2000⟩ .nothing := by
  obtain ⟨C, hd, hroot, hlending⟩ := coherent_lent.chart
  exact ⟨saysPage hd hroot hlending (by decide) resolve_page,
    saysLarge hd hroot (by decide) resolve_large,
    saysNothing hd hroot hlending (by decide) resolve_nothing⟩

/-! ### A source that has handed out none of the tables -/

/-- What can be asked of tables and free frames alone: the tables are consistent and no two slots
link the same one, and the free frames can be named and used and are none of the tables. -/
structure Apart (s : Store Pool) (root : Frame) : Prop extends Consistent s.memory root where
  distinct {h k : Nat} {x y : Slot} : s.memory.Reaches root (h + 1) x.table →
    (s.memory.entry x).isTable = true → s.memory.Reaches root (k + 1) y.table →
    (s.memory.entry y).isTable = true → (s.memory.entry x).frame = (s.memory.entry y).frame → x = y
  nodup : s.source.free.Nodup
  free {f : Frame} : f ∈ s.source.free →
    f.number < 2 ^ 40 ∧ s.memory.Shows f ∧ ∀ h, ¬ s.memory.Reaches root h f

lemma apart_unlent : Apart unlent (.ofNumber 1) := by
  refine ⟨consistent_memory, ?_, by decide, free_frames⟩
  intro h k x y hx htable hy htable' hframe
  obtain ⟨-, rfl, hframe₁, -⟩ := links_memory hx htable
  obtain ⟨-, rfl, hframe₂, -⟩ := links_memory hy htable'
  have := ofNumber_inj (by omega) (by omega) ((hframe₁.symm.trans hframe).trans hframe₂)
  congr 2
  omega

end Agreement

/-! ## Agreement -/

/-- **All entry points agree on what is mapped.**  Where the tables of a root are consistent, they
say of a canonical address that nothing is mapped there, or that a page is, or that a large page is,
and exactly one of these; of any other address they say that it is none.  The ones that only look
change nothing. -/
theorem entry_points_agree [GenerousSource A] (hc : Coherent s root) (va : VirtAddr) :
    (va.isCanonical = true → ∃! what, Answers s root va what) ∧
    (va.isCanonical = false → SaysInvalid s root va) ∧
    (∃ mapped, Tells s (fun m => AddressSpace.isMapped ⟨root⟩ m va) mapped) ∧
    (∃ r, Tells s (fun m => AddressSpace.translate ⟨root⟩ m va) r) ∧
    ∃ r, Tells s (fun m => AddressSpace.walk ⟨root⟩ m va) r := by
  obtain ⟨C, hd, hroot, hlending⟩ := hc.chart
  cases hva : va.isCanonical with
  | false =>
      have hsays := saysInvalid s root hva
      exact ⟨fun h => (by cases h), fun _ => hsays, ⟨_, hsays.isMapped⟩, ⟨_, hsays.translate⟩,
        _, hsays.walk⟩
  | true =>
      obtain ⟨what, hwhat⟩ := answers hd hroot hlending hva
      refine ⟨fun _ => ⟨what, hwhat, fun other hother => hother.unique hwhat⟩,
        fun h => (by cases h), ?_⟩
      cases what with
      | nothing =>
          have hsays : SaysNothing s root va := hwhat
          refine ⟨⟨_, hsays.isMapped⟩, ⟨_, hsays.translate⟩, ?_⟩
          rcases hsays.walk with hwalk | ⟨path, hwalk, -⟩
          · exact ⟨_, hwalk⟩
          · exact ⟨_, hwalk⟩
      | page =>
          have hsays : SaysPage s root va := hwhat
          obtain ⟨mapping, path, -, -, htranslate, hwalk, -⟩ := hsays.found
          exact ⟨⟨_, hsays.isMapped⟩, ⟨_, htranslate⟩, _, hwalk⟩
      | largePage =>
          have hsays : SaysLarge s root va := hwhat
          obtain ⟨mapping, -, htranslate⟩ := hsays.translate
          exact ⟨⟨_, hsays.isMapped⟩, ⟨_, htranslate⟩, _, hsays.walk⟩

open Agreement in
theorem entry_points_agree_sample : Coherent lent (.ofNumber 1) ∧
    (∀ what, Answers lent (.ofNumber 1) ⟨0x1000⟩ what ↔ what = .page) ∧
    (∀ what, Answers lent (.ofNumber 1) ⟨0x8000000000⟩ what ↔ what = .largePage) ∧
    (∀ what, Answers lent (.ofNumber 1) ⟨0x2000⟩ what ↔ what = .nothing) ∧
    SaysInvalid lent (.ofNumber 1) ⟨0x8000000000000000⟩ := by
  obtain ⟨hpage, hlarge, hnothing⟩ := answers_lent
  have hone := fun va => (entry_points_agree coherent_lent va).1
  have hnone := fun va => (entry_points_agree coherent_lent va).2.1
  refine ⟨coherent_lent, fun what => ⟨fun h => ?_, ?_⟩, fun what => ⟨fun h => ?_, ?_⟩,
    fun what => ⟨fun h => ?_, ?_⟩, hnone _ (by decide)⟩
  · exact (hone _ (by decide)).unique h hpage
  · rintro rfl
    exact hpage
  · exact (hone _ (by decide)).unique h hlarge
  · rintro rfl
    exact hlarge
  · exact (hone _ (by decide)).unique h hnothing
  · rintro rfl
    exact hnothing

open Agreement in
/-- **Consistent tables are not enough.**  A source that has not handed out the tables that are
owned cannot take them back, and the page that is mapped is not removed.  An address beyond the
physical ones is refused before anything else, also where a page is mapped. -/
theorem page_not_removed : Apart unlent (.ofNumber 1) ∧
    Tells unlent (fun m => AddressSpace.isMapped ⟨.ofNumber 1⟩ m ⟨0x1000⟩) true ∧
    (∃ s', (AddressSpace.unmap ⟨.ofNumber 1⟩ ⟨0x1000⟩).run unlent = .error .subOverflow s') ∧
    (AddressSpace.map ⟨.ofNumber 1⟩ ⟨0x1000⟩ ⟨0x10000000000000⟩ ⟨0⟩).run unlent =
      .ok (.error (.invalidRequest .beyondPhysical)) unlent := by
  obtain ⟨C, hd, hroot, hlending⟩ := coherent_lent.chart
  have hroot' : C.IsRoot (AddressSpace.mk (.ofNumber 1)).root := hroot
  have hva : (⟨0x1000⟩ : VirtAddr).isCanonical = true := by decide
  have hisMapped := AddressSpace.isMapped_eq hd hroot' hva
  refine ⟨apart_unlent, ?_, ?_, rfl⟩
  · refine Store.run_lookup (s := unlent) (hisMapped.trans ?_)
    exact congrArg (Except.ok ·.isSome) resolve_page
  · have hunmap : Ensures (AddressSpace.unmap ⟨.ofNumber 1⟩ ⟨0x1000⟩) (· = .subOverflow) unlent
        fun _ _ => False := by
      refine unmap_panics hd hroot hlending hva resolve_page ?_ ?_
      · intro f holders hl
        obtain ⟨-, above, rfl⟩ := leads_memory hl
        refine ⟨_, above, rfl, ?_, ?_⟩
        · change (memory.entry ⟨.ofNumber 3, 0⟩).owned = true
          rw [entry_memory]
          decide
        · change (memory.entry ⟨.ofNumber 3, 0⟩).liveChildren.val = 1
          rw [entry_memory]
          decide
      · intro f holders hl m
        obtain ⟨rfl, -⟩ := leads_memory hl
        rfl
    obtain ⟨p, s', hrun, rfl⟩ := hunmap.panics
    exact ⟨s', hrun⟩

end KernelMemory.Space
