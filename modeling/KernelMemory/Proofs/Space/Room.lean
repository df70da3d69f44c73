import KernelMemory.Proofs.Space.Pages
import KernelMemory.Proofs.Space.Ways

/-!
# Room for missing tables

A walk that makes missing tables needs a frame for each of them.  With a source that refuses a frame
only while none is free, the walk fails exactly if there are fewer free frames than missing tables,
whichever frames they are.

* `Outline.missing` — the number of tables that are missing on the way of an address.
* **`Outline.missing_le_iff`** — they are the ones that the walk for the address does not come to.
* `Space.run_reach_of_descend` — where no table is missing, none is made.
* **`Space.reach_room`** — the walk comes to a page only if there is a frame for each, and fails
  only if there is not.
-/

namespace KernelMemory

namespace Outline

variable {o : Outline} {root t : Frame} {va : VirtAddr} {h k : Nat} {e : Entry}
  {holders : List Slot}

/-- The number of tables that are missing on the way of an address, for a walk that has come to the
given entry of a table of the given height. -/
def lacks (o : Outline) (va : VirtAddr) : (height : Nat) → Entry → Nat
  | 0, _ => 0
  | height + 1, e =>
    if e.isTable then o.lacks va height (o ⟨e.frame, va.index height⟩) else height + 1

/-- **The number of tables that are missing** on the way of an address from a root. -/
def missing (o : Outline) (root : Frame) (va : VirtAddr) : Nat :=
  o.lacks va rootHeight (o ⟨root, va.index rootHeight⟩)

lemma lacks_le : o.lacks va h e ≤ h := by
  induction h generalizing e with
  | zero => exact Nat.le_refl 0
  | succ h ih =>
      rw [lacks]
      split
      · exact Nat.le_succ_of_le ih
      · exact Nat.le_refl _

@[simp] lemma lacks_absent : o.lacks va h .absent = h := by
  cases h <;> rfl

lemma lacks_link (htable : e.isTable = true) :
    o.lacks va (h + 1) e = o.lacks va h (o ⟨e.frame, va.index h⟩) := by
  rw [lacks, if_pos htable]

lemma lacks_not_link (htable : ¬ e.isTable = true) : o.lacks va (h + 1) e = h + 1 := by
  rw [lacks, if_neg htable]

/-- A walk that comes to a height has come to every greater one. -/
lemma Leads.above (hl : o.Leads root va holders t h) (hk : h ≤ k) (hle : k ≤ rootHeight) :
    ∃ holders' t', o.Leads root va holders' t' k := by
  induction hl with
  | root =>
      obtain rfl : k = rootHeight := Nat.le_antisymm hle hk
      exact ⟨_, _, .root⟩
  | @down holders t h hl htable ih =>
      rcases Nat.eq_or_lt_of_le hk with rfl | hlt
      · exact ⟨_, _, hl.down htable⟩
      · exact ih hlt

/-- From any table on the way, the tables that are missing are those that the walk does not come to.
-/
lemma Leads.lacks_le_iff (hl : o.Leads root va holders t h) (hk : k ≤ h) :
    o.lacks va h (o ⟨t, va.index h⟩) ≤ k ↔ ∃ holders' t', o.Leads root va holders' t' k := by
  induction h generalizing holders t with
  | zero =>
      obtain rfl : k = 0 := Nat.le_zero.mp hk
      exact ⟨fun _ => ⟨_, _, hl⟩, fun _ => lacks_le⟩
  | succ h ih =>
      rcases Nat.eq_or_lt_of_le hk with rfl | hlt
      · exact ⟨fun _ => ⟨_, _, hl⟩, fun _ => lacks_le⟩
      · have hk : k ≤ h := Nat.le_of_lt_succ hlt
        by_cases htable : (o ⟨t, va.index (h + 1)⟩).isTable = true
        · rw [lacks_link htable]
          exact ih (hl.down htable) hk
        · rw [lacks_not_link htable]
          refine ⟨fun hle => by omega, ?_⟩
          rintro ⟨_, _, hl'⟩
          -- Below a slot that links no table the walk comes to nothing.
          obtain ⟨_, _, hbelow⟩ := hl'.above hk (Nat.le_of_succ_le hl.height_le)
          cases hbelow with
          | root => exact absurd hl.height_le (by omega)
          | down habove htable' =>
              obtain ⟨-, rfl⟩ := habove.unique hl
              exact absurd htable' htable

/-- **The missing tables are those that the walk does not come to.** -/
theorem missing_le_iff (hk : k ≤ rootHeight) :
    o.missing root va ≤ k ↔ ∃ holders t, o.Leads root va holders t k :=
  Leads.root.lacks_le_iff hk

end Outline

/-- Beside a page, no more tables are missing than the two addresses have indices of their own. -/
lemma Chart.Fits.missing_le {C : Chart} {o : Outline} {root : Frame} {va va' : VirtAddr}
    {h : Nat} (hfit : C.Fits o) (htidy : C.tidy) (hroot : C.IsRoot root)
    (hmapped : (o.resolve root va').isSome = true) (hh : h ≤ rootHeight)
    (hindex : ∀ k, h < k → k ≤ rootHeight → va.index k = va'.index k) : o.missing root va ≤ h := by
  obtain ⟨holders, t, hl⟩ := hfit.leads_of_resolve htidy hroot hmapped hh
  exact (Outline.missing_le_iff hh).mpr ⟨holders, t, hl.of_index hindex⟩

/-- The same tables are missing where the tables are kept. -/
lemma Chart.Fits.missing_congr {C : Chart} {o o' : Outline} {root : Frame} {va : VirtAddr}
    (hfit : C.Fits o) (hkeeps : C.Keeps o o') (hroot : C.IsRoot root) :
    o'.missing root va = o.missing root va := by
  have hlacks : ∀ h s, C.height s.table = some h → o'.lacks va h (o' s) = o.lacks va h (o s) := by
    intro h
    induction h with
    | zero => exact fun _ _ => rfl
    | succ h ih =>
        intro s hs
        rcases hkeeps s ⟨_, hs⟩ with heq | ⟨hold, hnew⟩
        · rw [heq]
          by_cases htable : (o s).isTable = true
          · rw [Outline.lacks_link htable, Outline.lacks_link htable]
            exact ih _ (hfit.child ⟨⟨h, hs⟩, htable, rfl⟩ hs)
          · rw [Outline.lacks_not_link htable, Outline.lacks_not_link htable]
        · rw [hnew, Outline.lacks_absent, Outline.lacks_not_link]
          simp [Entry.isTable, hold]
  exact hlacks rootHeight _ hroot

namespace Space

open Chart KernelMemory.Action

variable {A : Type} [FrameSource A] [LawfulSource A] [GenerousSource A] {C : Chart} {s : Store A}
  {root : Frame} {va : VirtAddr} {h : Nat} {path : Path}

omit [GenerousSource A] in
/-- **Where the read-only walk ends, the walk that makes missing tables ends too**, and makes none.
-/
theorem run_reach_of_descend {walk : Walk} (hd : C.Describes s)
    (hway : C.Way s.memory.outline root va h path)
    (hdescend : s.memory.descend va h path = .ok (.ok walk)) :
    (reach va h path).run s = .ok (.ok walk) s := by
  induction h generalizing path with
  | zero =>
      cases hdescend
      rfl
  | succ h ih =>
      have hshown := hd.shown ⟨_, hway.height hd.fits⟩
      have hread := Store.run_entry (s := s) hshown
      rw [Memory.descend_succ hshown] at hdescend
      rw [reach, run_bind hread]
      by_cases htable : (s.memory.entry path.slot).isTable = true
      · rw [if_pos htable] at hdescend ⊢
        have hdown := hway.down (by simpa using htable)
        rw [Memory.outline_apply, Entry.outline_frame] at hdown
        exact ih hdown hdescend
      · rw [if_neg htable] at hdescend ⊢
        by_cases hpresent : (s.memory.entry path.slot).present = true
        · rw [if_pos hpresent] at hdescend ⊢
          cases hdescend
          rfl
        · rw [if_neg hpresent] at hdescend
          cases hdescend

omit [GenerousSource A] in
/-- A new table is blank, so that all tables below it are missing, and one frame less is free. -/
lemma Linked.lacks {held : Finset Frame} {f : Frame} {e : Entry} {s₁ s₂ : Store A}
    (hlinked : Linked C s s₁ path f h e s₂) (hd : C.Describes s)
    (hway : C.Way s.memory.outline root va (h + 1) path) (hheld : Holds s held) :
    s₂.memory.outline.lacks va h (s₂.memory.outline (path.down f (va.index h)).slot) = h ∧
      (freeFrames s₂).card + 1 = (freeFrames s).card := by
  have hblank : s₂.memory.outline (path.down f (va.index h)).slot = .absent :=
    hlinked.blank hd hway _
  have hf := (LawfulSource.alloc_some hheld hlinked.alloc).1
  rw [hblank, Outline.lacks_absent, (hlinked.holds hd hway hheld).2.1,
    Finset.card_erase_add_one hf]
  exact ⟨rfl, rfl⟩

/-- **A walk that makes missing tables** comes to a page only if there is a frame for each of them,
and fails only if there is not. -/
theorem reach_room (hd : C.Describes s) (hway : C.Way s.memory.outline root va h path)
    (hlending : ¬ C.lending) :
    Ensures (reach va h path) anyPanic s fun r _ =>
      let lacking := s.memory.outline.lacks va h (s.memory.outline path.slot)
      match r with
      | .ok (.slot _) => lacking ≤ (freeFrames s).card
      | .ok (.large ..) => True
      | .error _ => (freeFrames s).card < lacking := by
  induction h generalizing C s path with
  | zero => exact .pure (Nat.zero_le _)
  | succ h ih =>
      have hslot := hway.height hd.fits
      have hle : h < rootHeight := hd.fits.height_le hslot
      refine .bind_run (Store.run_entry (hd.shown ⟨_, hslot⟩)) ?_
      by_cases htable : (s.memory.entry path.slot).isTable = true
      · rw [if_pos htable]
        have hdown := hway.down (by simpa using htable)
        rw [Memory.outline_apply, Entry.outline_frame] at hdown
        rw [Outline.lacks_link (by simpa using htable),
          show (s.memory.outline path.slot).frame = (s.memory.entry path.slot).frame from
            Entry.outline_frame]
        exact ih hd hdown hlending
      · rw [if_neg htable]
        by_cases hpresent : (s.memory.entry path.slot).present = true
        · rw [if_pos hpresent]
          exact .pure trivial
        · rw [if_neg hpresent, Outline.lacks_not_link (by simpa using htable)]
          obtain ⟨held, hheld, -⟩ := hd.held
          obtain ⟨r, s₁, hrun⟩ := LawfulSource.alloc_returns hheld
          refine .bind_run hrun ?_
          cases r with
          | none =>
              refine ensures_run.bind fun _ _ _ => .pure ?_
              rw [GenerousSource.free_eq_empty hheld hrun]
              exact Nat.succ_pos h
          | some f =>
              refine (linkTable_ensures hd hway (by simpa using hpresent) hrun
                fun hlends => absurd hlends hlending).bind ?_
              rintro _ s₂ ⟨e, hlinked⟩
              obtain ⟨hlack, hcard⟩ := hlinked.lacks hd hway hheld
              refine (ih hlinked.describes (hlinked.way hd hle hway) hlending).mono
                fun r s' hend => ?_
              simp only [hlack] at hend
              rcases r with err | path' | _
              · change (freeFrames s).card < h + 1
                have hend : (freeFrames s₂).card < h := hend
                omega
              · change h + 1 ≤ (freeFrames s).card
                have hend : h ≤ (freeFrames s₂).card := hend
                omega
              · trivial

end Space

namespace AddressSpace

open Chart KernelMemory.Action

variable {A : Type} [FrameSource A] [LawfulSource A] {C : Chart} {s : Store A} {lowest : Prop}
  {root : Frame} {va : VirtAddr} {pa : PhysAddr} {flags : Flags}

/-- **An address space can be made** if a frame is free. -/
theorem create_room [GenerousSource A] {held : Finset Frame} (hheld : Holds s held)
    (hfree : (freeFrames s).Nonempty) : ∃ space s', create.run s = .ok (.ok space) s' := by
  obtain ⟨f, s₁, halloc⟩ := GenerousSource.exists_alloc hheld hfree
  obtain ⟨hf, -, -, -, hagree⟩ := LawfulSource.alloc_some hheld halloc
  have hshown : s₁.memory.Shows f := (LawfulSource.shown hheld hf).of_window hagree.window
  exact ⟨⟨f⟩, _, (run_bind halloc).trans ((run_bind (Store.run_clearFrame hshown)).trans rfl)⟩

/-- **A page is mapped only if there is a frame for each missing table**, and for lack of memory it
is refused only if there is not. -/
theorem map_fits [GenerousSource A] (hs : C.Serves lowest root s) :
    Ensures (map ⟨root⟩ va pa flags) anyPanic s fun r _ => match r with
      | .ok () => s.memory.outline.missing root va ≤ (freeFrames s).card
      | .error .outOfMemory => (freeFrames s).card < s.memory.outline.missing root va
      | .error _ => True := by
  rw [map, reach]
  by_cases hpa : 2 ^ physicalAddressBits ≤ pa.value.toNat
  · rw [if_pos hpa]
    exact .pure trivial
  · rw [if_neg hpa]
    cases hva : va.isCanonical with
    | false => exact .pure trivial
    | true =>
        rw [if_pos rfl]
        refine (Space.reach_room hs.describes (.ofRoot hs.isRoot) hs.lending).bind ?_
        intro r s' hroom
        rcases r with e | path | ⟨large, k⟩
        · cases e
          case outOfMemory => exact .pure hroom
          all_goals exact .pure trivial
        · refine ensures_run.bind fun e _ _ => ?_
          split
          · exact .pure trivial
          · exact ensures_run.bind fun _ _ _ => ensures_run.bind fun _ _ _ => .pure hroom
        · exact .pure trivial

/-- **What mapping a page gives** is decided by whether it is mapped, and by how many tables are
missing and how many frames are free. -/
theorem map_room [GenerousSource A] (hs : C.Serves lowest root s) :
    Ensures (map ⟨root⟩ va pa flags) anyPanic s fun r _ =>
      r = if 2 ^ physicalAddressBits ≤ pa.value.toNat then .error (.invalidRequest .beyondPhysical)
        else if va.isCanonical = false then .error (.invalidRequest .nonCanonical)
        else if (s.memory.outline.resolve root va).isSome then .error .alreadyMapped
        else if (freeFrames s).card < s.memory.outline.missing root va then .error .outOfMemory
        else .ok () := by
  have hroot : C.IsRoot (AddressSpace.mk root).root := hs.isRoot
  have hends : Ensures (map ⟨root⟩ va pa flags) noPanic s _ := map_ends hs.toSettled hroot
    (fun h : False => h.elim) fun hlending => absurd hlending hs.lending
  refine ((map_fits hs).and hends).mono ?_
  rintro r s' ⟨hfits, hend⟩
  rcases r with e | ⟨⟩
  · obtain ⟨hrefuses, -⟩ := hend
    cases e with
    | notMapped => exact hrefuses.elim
    | outOfMemory =>
        obtain ⟨hpa, hva, hnone⟩ := hrefuses
        rw [if_neg (by omega), if_neg (by simp [hva]), if_neg (by simp [hnone]), if_pos hfits]
    | alreadyMapped =>
        obtain ⟨hpa, hva, hsome⟩ := hrefuses
        rw [if_neg (by omega), if_neg (by simp [hva]), if_pos hsome]
    | invalidRequest reason =>
        cases reason
        case beyondPhysical => exact (if_pos hrefuses).symm
        case nonCanonical => rw [if_neg (by have := hrefuses.1; omega), if_pos hrefuses.2]
        all_goals exact hrefuses.elim
  · obtain ⟨hpa, C', path, e, s₁, hfilled, -⟩ := hend
    have hnone := hfilled.resolve_eq_none hroot
    rw [if_neg (by omega), if_neg (by simp [hfilled.canonical]), if_neg (by simp [hnone]),
      if_neg (Nat.not_lt.mpr hfits)]

/-- **A page is mapped** where none is, if a frame is free for each missing table. -/
theorem run_map_of_room [GenerousSource A] (hs : C.Serves lowest root s) (va : VirtAddr)
    (pa : PhysAddr) (flags : Flags) (hva : va.isCanonical = true)
    (hpa : pa.value.toNat < 2 ^ physicalAddressBits)
    (hnone : s.memory.outline.resolve root va = none)
    (hroom : s.memory.outline.missing root va ≤ (freeFrames s).card) :
    ∃ C' e s', (map ⟨root⟩ va pa flags).run s = .ok (.ok ()) s' ∧
      C.Rebound C' lowest root va (some e) s s' ∧ isMapped ⟨root⟩ s'.memory va = .ok true := by
  have hrebinds : Ensures (map ⟨root⟩ va pa flags) noPanic s _ := map_rebinds hs
  obtain ⟨r, s', hrun, hend⟩ := hrebinds.returns
  have hr := (map_room hs).of_ok hrun
  rw [if_neg (by omega), if_neg (by simp [hva]), if_neg (by simp [hnone]),
    if_neg (Nat.not_lt.mpr hroom)] at hr
  subst hr
  obtain ⟨C', e, hrebound, hpresent, -⟩ := hend
  exact ⟨C', e, s', hrun, hrebound, (hrebound.lookup hs hpresent rfl).1⟩

/-- **A page is mapped beside another one**, in tables that are there, whatever is free. -/
theorem run_map_beside [GenerousSource A] {va' : VirtAddr} (hs : C.Serves lowest root s)
    (htidy : C.tidy) (va : VirtAddr) (pa : PhysAddr) (flags : Flags) (hva : va.isCanonical = true)
    (hpa : pa.value.toNat < 2 ^ physicalAddressBits)
    (hnone : s.memory.outline.resolve root va = none)
    (hmapped : (s.memory.outline.resolve root va').isSome = true)
    (hindex : ∀ k ≤ rootHeight, 0 < k → va.index k = va'.index k) :
    ∃ C' e s', (map ⟨root⟩ va pa flags).run s = .ok (.ok ()) s' ∧
      C.Rebound C' lowest root va (some e) s s' ∧ isMapped ⟨root⟩ s'.memory va = .ok true := by
  have hmissing := hs.describes.fits.missing_le htidy hs.isRoot hmapped (Nat.zero_le _)
    fun k hk hle => hindex k hle hk
  exact run_map_of_room hs va pa flags hva hpa hnone (hmissing.trans (Nat.zero_le _))

/-- **Operations may be made on a new address space**, in which all tables are missing; one frame
less is free. -/
theorem create_serves {s' : Store A} {held : Finset Frame} (hheld : Holds s held)
    (hcreate : create.run s = .ok (.ok ⟨root⟩) s') :
    (single False True root).Serves True root s' ∧ s'.memory.outline.Blank root ∧
      (freeFrames s').card + 1 = (freeFrames s).card := by
  have hcreated : Ensures create noPanic s _ := create_settled False True True hheld
  obtain ⟨hs', hblank, hroot, hfree'⟩ := hcreated.of_ok hcreate ⟨root⟩ rfl
  refine ⟨⟨hs', isRoot_single.mpr rfl, id, hs'.describes.fits.borrowsOnce trivial id⟩, hblank, ?_⟩
  rw [hfree', Finset.card_erase_add_one hroot]

/-- **A page is mapped in a new address space** if a frame is left for each of its tables, and only
then. -/
theorem run_map_created [GenerousSource A] {s' : Store A} {held : Finset Frame} (flags : Flags)
    (hheld : Holds s held) (hcreate : create.run s = .ok (.ok ⟨root⟩) s')
    (hva : va.isCanonical = true) (hpa : pa.value.toNat < 2 ^ physicalAddressBits) :
    ∃ s'', (map ⟨root⟩ va pa flags).run s' =
      .ok (if (freeFrames s).card ≤ rootHeight then .error .outOfMemory else .ok ()) s'' := by
  obtain ⟨hserves, hblank, hcard⟩ := create_serves hheld hcreate
  have hrebinds : Ensures (map ⟨root⟩ va pa flags) noPanic s' _ := map_rebinds hserves
  obtain ⟨r, s'', hrun, -⟩ := hrebinds.returns
  have hnone : s'.memory.outline.resolve root va = none := by
    rw [Outline.resolve, hblank, Outline.follow_absent]
  have hmissing : s'.memory.outline.missing root va = rootHeight := by
    rw [Outline.missing, hblank, Outline.lacks_absent]
  have hr := (map_room hserves).of_ok hrun
  rw [if_neg (by omega), if_neg (by simp [hva]), if_neg (by simp [hnone]), hmissing] at hr
  have hroom : (freeFrames s').card < rootHeight ↔ (freeFrames s).card ≤ rootHeight := by
    rw [← hcard, Nat.succ_le_iff]
  exact ⟨s'', hr.trans (if_congr hroom rfl rfl) ▸ hrun⟩

/-- A page can be mapped in a new address space if a frame is left for each of its tables. -/
lemma map_created [GenerousSource A] {s' : Store A} {held : Finset Frame} (hheld : Holds s held)
    (hcreate : create.run s = .ok (.ok ⟨root⟩) s') (hva : va.isCanonical = true)
    (hpa : pa.value.toNat < 2 ^ physicalAddressBits) (hfree : rootHeight < (freeFrames s).card) :
    ∃ s'', (map ⟨root⟩ va pa flags).run s' = .ok (.ok ()) s'' := by
  obtain ⟨s'', hrun⟩ := run_map_created flags hheld hcreate hva hpa
  rw [if_neg (Nat.not_le.mpr hfree)] at hrun
  exact ⟨s'', hrun⟩

/-- **A walk for a caller comes to a slot in a new address space** if a frame is left for each of
its tables. -/
theorem walkOrCreate_created [GenerousSource A] {s' : Store A} {held : Finset Frame}
    (hheld : Holds s held) (hcreate : create.run s = .ok (.ok ⟨root⟩) s')
    (hva : va.isCanonical = true) (hfree : rootHeight < (freeFrames s).card) :
    ∃ path s'', (walkOrCreate ⟨root⟩ va).run s' = .ok (.ok path) s'' := by
  obtain ⟨hserves, -, hcard⟩ := create_serves hheld hcreate
  have hroot : (single False True root).IsRoot (AddressSpace.mk root).root := hserves.isRoot
  have hreach : Ensures (reach ⟨root⟩ va) noPanic s' _ :=
    reach_ensures va hserves.toSettled hroot (fun h : False => h.elim) False.elim
  obtain ⟨r, s'', hrun, hends⟩ := hreach.returns
  have hend := (hends.resolve_left (by simp [hva])).2
  rcases r with e | path | ⟨large, k⟩
  · have hway : (single False True root).Way s'.memory.outline root va rootHeight _ :=
      .ofRoot hserves.isRoot
    have hroom := Space.reach_room hserves.describes hway id
    rw [reach, if_pos hva] at hrun
    have hfew : (freeFrames s').card < s'.memory.outline.missing root va := hroom.of_ok hrun
    have hmissing : s'.memory.outline.missing root va ≤ rootHeight := Outline.lacks_le
    omega
  · exact ⟨path, s'', run_bind hrun⟩
  · exact absurd trivial hend.2.1

/-- **Why a page cannot be unmapped**: it is not mapped, or no page can be there. -/
theorem unmap_error (hs : C.Serves lowest root s) (htidy : C.tidy) :
    Ensures (unmap ⟨root⟩ va) anyPanic s fun r _ => ∀ e, r = .error e →
      e = if va.isCanonical = false then .invalidRequest .nonCanonical else .notMapped := by
  have hroot : C.IsRoot (AddressSpace.mk root).root := hs.isRoot
  have hd := hs.describes
  cases hva : va.isCanonical with
  | false =>
      have hwalk : walk ⟨root⟩ s.memory va = .ok (.error (.invalidRequest .nonCanonical)) := by
        rw [walk, find_of_not_canonical hva]
        rfl
      refine .bind_run (Store.run_lookup hwalk) (.pure ?_)
      rintro e ⟨⟩
      rfl
  | true =>
      obtain ⟨result, hfind, hlands⟩ := find_eq hd hroot hva
      have hwalk : walk ⟨root⟩ s.memory va = .ok (result.bind Walk.path?) := by
        rw [walk, hfind]
        rfl
      refine .bind_run (Store.run_lookup hwalk) ?_
      rcases result with e | path | ⟨large, k⟩
      · obtain ⟨rfl, -⟩ := hlands
        refine .pure ?_
        rintro e ⟨⟩
        rfl
      · refine .bind_run (Store.run_entry (hd.shown ⟨0, hlands.height hd.fits⟩)) ?_
        split
        · refine .pure ?_
          rintro e ⟨⟩
          rfl
        · refine ensures_run.bind fun _ _ _ => ensures_run.bind fun _ _ _ => .pure ?_
          rintro e ⟨⟩
      · exact absurd htidy hlands.2.2.1

end AddressSpace

end KernelMemory
