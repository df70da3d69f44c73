import KernelMemory.Proofs.Space.Besides
import KernelMemory.Proofs.Space.Bindings
import KernelMemory.Proofs.Space.Footprint
import KernelMemory.Proofs.Space.Room
import Mathlib.Order.Lattice.Nat

/-!
# What callers see of an address space

Which pages are bound, to what, and how many frames the address space may take: nothing else decides
what a call gives.  In particular it does not matter which frames the tables are in, or in what
order the source hands them out.

* `View` — the bindings of an address space and the number of its frames.
* `View.free`, `View.missing` — the frames that are left, and the tables that a page would need.
* `View.map`, `View.unmap`, `View.isMapped`, `View.translate` — what calls make of a view.
* `View.Depicts` — a state is as the view says.
* **`View.Depicts.map`**, **`View.Depicts.unmap`** — calls give what the view says, with any source
  that refuses a frame only while none is free.
-/

namespace KernelMemory

/-- What callers see of an address space. -/
structure View where
  bindings : Bindings
  /-- The number of frames that the address space may take, for its root too. -/
  frames : Nat

namespace View

/-! ## Calls on a view -/

/-- The canonical addresses that are bound. -/
def pages (v : View) : Set VirtAddr :=
  {va | va.isCanonical = true ∧ (v.bindings va.page).isSome = true}

/-- The number of frames that are left: each trail of a page takes one. -/
noncomputable def free (v : View) : Nat :=
  v.frames - (Address.trails v.pages).ncard

/-- The number of tables that are missing on the way of an address: those below the last one that
the address shares with a page. -/
noncomputable def missing (v : View) (va : VirtAddr) : Nat :=
  sInf {h | h = rootHeight ∨ ∃ va' ∈ v.pages, va'.trail h = va.trail h}

/-- Whether a page can be mapped at an address. -/
noncomputable def admits (v : View) (va : VirtAddr) : Except MapError Unit :=
  if va.isCanonical = false then .error (.invalidRequest .nonCanonical)
  else if (v.bindings va.page).isSome then .error .alreadyMapped
  else if v.free < v.missing va then .error .outOfMemory
  else .ok ()

/-- Maps a page. -/
noncomputable def map (v : View) (va : VirtAddr) (pa : PhysAddr) (flags : Flags) :
    Except MapError Unit × View :=
  if 2 ^ physicalAddressBits ≤ pa.value.toNat then (.error (.invalidRequest .beyondPhysical), v)
  else match v.admits va with
    | .error e => (.error e, v)
    | .ok () => (.ok (), { v with
        bindings := Function.update v.bindings va.page (some (pa.page, flags.forPage)) })

lemma map_fst {v : View} {va : VirtAddr} {pa : PhysAddr} {flags : Flags} :
    (v.map va pa flags).1 =
      if 2 ^ physicalAddressBits ≤ pa.value.toNat then .error (.invalidRequest .beyondPhysical)
      else v.admits va := by
  rw [map]
  split
  · rfl
  · cases v.admits va <;> rfl

/-- Unmaps a page. -/
def unmap (v : View) (va : VirtAddr) : Except MapError Frame × View :=
  if va.isCanonical = false then (.error (.invalidRequest .nonCanonical), v)
  else match v.bindings va.page with
    | none => (.error .notMapped, v)
    | some (f, _) => (.ok f, { v with bindings := Function.update v.bindings va.page none })

/-- Whether an address is mapped. -/
def isMapped (v : View) (va : VirtAddr) : Bool :=
  va.isCanonical && (v.bindings va.page).isSome

/-- What an address stands for. -/
def translate (v : View) (va : VirtAddr) : Except MapError Mapping :=
  if va.isCanonical = false then .error (.invalidRequest .nonCanonical)
  else v.bindings.translate va

open Chart KernelMemory.Action LawfulSource Space

variable {A : Type} [FrameSource A] [LawfulSource A] {C C' : Chart} {root : Frame}
  {start : Finset Frame} {v : View} {s s' : Store A} {va : VirtAddr} {pa : PhysAddr} {flags : Flags}

/-! ## Views of states -/

/-- **A state is as a view says**: all frames are accounted for, there are as many as the view says,
and addresses resolve to what their pages are bound to. -/
structure Depicts (C : Chart) (root : Frame) (start : Finset Frame) (v : View) (s : Store A) : Prop
    extends Accounted C ⟨root⟩ start s where
  card : start.card = v.frames
  resolves : v.bindings.Resolves s.memory.outline root

namespace Depicts

lemma serves (hv : Depicts C root start v s) : C.Serves True root s :=
  ⟨hv.settled, hv.root, hv.lending, hv.settled.describes.fits.borrowsOnce hv.tidy hv.lending⟩

lemma carry (hv : Depicts C root start v s) (hcarries : C.Carries C' s s')
    (hs : C'.Settled True s') {b : Bindings} (hb : b.Resolves s'.memory.outline root) :
    Depicts C' root start { v with bindings := b } s' :=
  ⟨hv.toAccounted.carry hcarries hs, hv.card, hb⟩

lemma isSome_resolve (hv : Depicts C root start v s) (hva : va.isCanonical = true) :
    (s.memory.outline.resolve root va).isSome = (v.bindings va.page).isSome := by
  have hagrees := hv.resolves va hva
  cases hbound : v.bindings va.page with
  | none =>
      rw [hbound] at hagrees
      rw [show _ = none from hagrees]
      rfl
  | some bound =>
      rw [hbound] at hagrees
      obtain ⟨e, hresolve, -⟩ := hagrees
      rw [hresolve]
      rfl

lemma pages_eq (hv : Depicts C root start v s) :
    AddressSpace.pages ⟨root⟩ s.memory = v.pages := by
  ext va
  refine hv.pages_iff.trans (and_congr_right fun hva => ?_)
  rw [hv.isSome_resolve hva]

/-- **As many frames are free** as the pages leave. -/
theorem card_free (hv : Depicts C root start v s) : (freeFrames s).card = v.free := by
  have hsub : freeFrames s ⊆ start := fun f hf => (hv.conserved f).mp (.inr hf)
  have hcard := hv.card_sdiff
  rw [Finset.card_sdiff_of_subset hsub, hv.pages_eq] at hcard
  have hle := Finset.card_le_card hsub
  rw [free, ← hv.card, ← hcard]
  omega

/-- **As many tables are missing** on the way of an address as it shares none with a page. -/
theorem missing_eq (hv : Depicts C root start v s) :
    s.memory.outline.missing root va = v.missing va := by
  have hleads : ∀ k ≤ rootHeight, (∃ holders t, s.memory.outline.Leads root va holders t k) ↔
      k = rootHeight ∨ ∃ va' ∈ v.pages, va'.trail k = va.trail k := by
    intro k hk
    rw [← hv.pages_eq]
    constructor
    · rintro ⟨holders, t, hl⟩
      -- A table below the root has an entry, so that there is a page below it.
      refine or_iff_not_imp_left.mpr fun hne => ?_
      have hd := hv.settled.describes
      have hheight := hd.fits.height_of_leads hv.root hl
      rcases hv.owned ⟨k, hheight⟩ with hisRoot | ⟨x, hx, howned⟩
      · exact absurd (Option.some.inj (hheight.symm.trans hisRoot)) hne
      · obtain ⟨i, hi⟩ :=
          Fits.exists_present hd.counted hv.settled.busy hv.lending hx howned hheight
        obtain ⟨va', hva', hindex, hresolve⟩ := hd.fits.exists_page hd.counted hv.settled.busy
          hv.tidy hv.lending hv.root hl hi
        exact ⟨va', hv.pages_iff.mpr ⟨hva', hresolve⟩, Address.trail_eq_iff.mpr hindex⟩
    · rintro (rfl | ⟨va', hva', htrail⟩)
      · exact ⟨[], root, .root⟩
      · obtain ⟨holders, hl⟩ := hv.leads hva' hk
        exact ⟨holders, _, hl.of_index fun j hj hle =>
          (Address.trail_eq_iff.mp htrail j hj hle).symm⟩
  have hmem := Nat.sInf_mem (s := {h | h = rootHeight ∨ ∃ va' ∈ v.pages, va'.trail h = va.trail h})
    ⟨rootHeight, .inl rfl⟩
  have hle : v.missing va ≤ rootHeight := Nat.sInf_le (.inl rfl)
  refine Nat.le_antisymm ((Outline.missing_le_iff hle).mpr ((hleads _ hle).mpr hmem))
    (Nat.sInf_le ((hleads _ Outline.lacks_le).mp ?_))
  exact (Outline.missing_le_iff Outline.lacks_le).mp (le_refl _)

/-! ## Frames -/

/-- **A new address space** binds nothing, and all free frames are its own. -/
theorem created {held : Finset Frame} {s₀ : Store A} (hheld : Holds s held)
    (hcreate : AddressSpace.create.run s = .ok (.ok ⟨root⟩) s₀) (hmemory : s'.memory = s₀.memory)
    (hsource : s'.source = s₀.source) :
    ∃ C, Depicts C root (freeFrames s) ⟨.unbound, (freeFrames s').card + 1⟩ s' := by
  have hcreated : Ensures AddressSpace.create anyPanic s _ :=
    AddressSpace.create_settled False True True hheld
  obtain ⟨hs, hblank, hfree, hfree'⟩ := hcreated.of_ok hcreate _ rfl
  obtain ⟨C, ha⟩ := (accounted_create hheld).of_ok hcreate _ rfl
  obtain ⟨held₀, hheld₀, -⟩ := ha.settled.describes.held
  have hrestored : Restored False s₀ s' := .of_eq hheld₀ hmemory hsource
  refine ⟨C, ha.restored hrestored, ?_, fun va hva => ?_⟩
  · rw [hrestored.free, hfree', Finset.card_erase_add_one hfree]
  · rw [hmemory, Outline.resolve, hblank, Outline.follow_absent]
    rfl

/-- **A frame is handed out and set aside**, so that there is one less for the address space. -/
theorem alloc_aside {f : Frame} (hv : Depicts C root start v s)
    (hrun : (FrameSource.alloc : Action (Store A) _).run s = .ok (some f) s') :
    @Depicts A _ (.besides A {f}) C root (start.erase f) { v with frames := v.frames - 1 } s' := by
  obtain ⟨hs, hf, hnot, hfree, hsame⟩ := hv.settled.alloc_aside hrun
  have hkeeps := hsame.keepsOn.outline
  have hconserved : ∀ g, C.IsTable g ∨ g ∈ freeFrames s' ↔ g ∈ start.erase f := by
    intro g
    rw [hfree, Finset.mem_erase, Finset.mem_erase, ← hv.conserved g]
    refine ⟨?_, fun ⟨hne, hg⟩ => hg.imp_right fun hg => ⟨hne, hg⟩⟩
    rintro (hg | ⟨hne, hg⟩)
    · exact ⟨fun heq => hnot (heq ▸ hg), .inl hg⟩
    · exact ⟨hne, .inr hg⟩
  have haccounted := @Accounted.mk A _ (.besides A {f}) C ⟨root⟩ (start.erase f) s' hs hv.isRoot
    hv.ours hv.lending hv.tidy hv.clean (hv.rooted.keeps hkeeps) hconserved
  refine @Depicts.mk A _ (.besides A {f}) C root _ _ s' haccounted ?_ fun va hva => ?_
  · rw [Finset.card_erase_of_mem ((hv.conserved f).mp (.inr hf)), hv.card]
  · rw [hv.settled.describes.fits.resolve_congr hkeeps hv.root]
    exact hv.resolves va hva

/-! ## Calls -/

/-- A state in which everything that matters is as it was is seen as it was. -/
lemma restored {exact : Prop} (hv : Depicts C root start v s) (h : Restored exact s s') :
    Depicts C root start v s' := by
  refine ⟨hv.toAccounted.restored h, hv.card, fun va hva => ?_⟩
  have hd := hv.settled.describes
  rw [hd.fits.resolve_congr (h.keepsTables hd).outline hv.root]
  exact hv.resolves va hva

/-- Whether a page can be mapped is decided by what callers see. -/
lemma map_room [GenerousSource A] (hv : Depicts C root start v s) :
    Ensures (AddressSpace.map ⟨root⟩ va pa flags) anyPanic s fun r _ =>
      r = (v.map va pa flags).1 := by
  refine (AddressSpace.map_room hv.serves).mono ?_
  rintro r - rfl
  rw [map_fst, admits, hv.card_free, hv.missing_eq]
  cases hva : va.isCanonical with
  | false => rfl
  | true => rw [hv.isSome_resolve hva]

/-- **Mapping a page** gives what the view says. -/
theorem map [GenerousSource A] (hv : Depicts C root start v s) :
    Ensures (AddressSpace.map ⟨root⟩ va pa flags) noPanic s fun r s' =>
      r = (v.map va pa flags).1 ∧ ∃ C', Depicts C' root start (v.map va pa flags).2 s' := by
  refine ((AddressSpace.map_rebinds hv.serves).and hv.map_room).mono ?_
  rintro r s' ⟨hend, hr⟩
  refine ⟨hr, ?_⟩
  rw [View.map] at hr ⊢
  by_cases hpa : 2 ^ physicalAddressBits ≤ pa.value.toNat
  · rw [if_pos hpa] at hr ⊢
    subst hr
    exact ⟨C, hv.restored hend.2⟩
  · rw [if_neg hpa] at hr ⊢
    cases hadmits : v.admits va with
    | error e =>
        rw [hadmits] at hr
        subst hr
        exact ⟨C, hv.restored hend.2⟩
    | ok _ =>
        rw [hadmits] at hr
        subst hr
        obtain ⟨C', e, hrebound, hpresent, hframe, hflags⟩ := hend
        exact ⟨C', hv.carry hrebound.evolves.toCarries hrebound.settled
          (hv.resolves.rebinds hrebound.canonical hrebound.rebinds
            ⟨e, rfl, hpresent, hframe, hflags⟩)⟩

/-- **Unmapping a page** gives what the view says. -/
theorem unmap (hv : Depicts C root start v s) :
    Ensures (AddressSpace.unmap ⟨root⟩ va) noPanic s fun r s' =>
      r = (v.unmap va).1 ∧ ∃ C', Depicts C' root start (v.unmap va).2 s' := by
  refine ((AddressSpace.unmap_rebinds hv.serves).and
    (AddressSpace.unmap_error hv.serves hv.tidy)).mono ?_
  rintro r s' ⟨hend, herror⟩
  rw [View.unmap]
  rcases r with err | f
  · obtain ⟨rfl, hunmapped⟩ := hend
    obtain rfl := herror err rfl
    cases hva : va.isCanonical with
    | false => exact ⟨rfl, C, hv⟩
    | true =>
        have hagrees := hv.resolves va hva
        cases hbound : v.bindings va.page with
        | none => exact ⟨rfl, C, hv⟩
        | some bound =>
            rw [hbound] at hagrees
            obtain ⟨e, hresolve, -⟩ := hagrees
            exact absurd hresolve (hunmapped hva e)
  · obtain ⟨C', e, hrebound, hresolve, rfl⟩ := hend
    have hva := hrebound.canonical
    have hagrees := hv.resolves va hva
    rw [if_neg (by simp [hva])]
    cases hbound : v.bindings va.page with
    | none =>
        rw [hbound] at hagrees
        cases hresolve.symm.trans (show _ = none from hagrees)
    | some bound =>
        rw [hbound] at hagrees
        obtain ⟨e', hresolve', -, hframe, -⟩ := hagrees
        rw [hresolve] at hresolve'
        cases hresolve'
        exact ⟨by rw [hframe], C', hv.carry hrebound.evolves.toCarries hrebound.settled
          (hv.resolves.rebinds hva hrebound.rebinds rfl)⟩

/-- **Lookups** give what the view says. -/
theorem lookup (hv : Depicts C root start v s) (va : VirtAddr) :
    AddressSpace.isMapped ⟨root⟩ s.memory va = .ok (v.isMapped va) ∧
      AddressSpace.translate ⟨root⟩ s.memory va = .ok (v.translate va) := by
  rw [View.isMapped, View.translate]
  cases hva : va.isCanonical with
  | false =>
      rw [AddressSpace.isMapped, AddressSpace.translate, AddressSpace.find_of_not_canonical hva]
      exact ⟨rfl, rfl⟩
  | true => exact hv.resolves.lookup hv.settled.describes hv.root hva

end Depicts

end View

end KernelMemory
