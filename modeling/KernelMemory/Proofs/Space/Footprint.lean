import KernelMemory.Proofs.Frames.Ledger
import KernelMemory.Proofs.Space.Orderly
import KernelMemory.Proofs.Space.Recorded
import KernelMemory.Proofs.Space.Solitary
import Mathlib.Data.Set.Card

/-!
# The tables that an address space takes

Where pages are only mapped and unmapped, no table is ever empty between two calls.  So every table
is on the way to some page, and a way has one table for each trail: the tables are as many as the
pages need, whatever has happened before.

* `Space.Accounted` — the frames that were free at first are tables of a chart or still free.
* **`Space.footprint_run`** — what is handed out and not given back after any run is one frame for
  the root and one for each trail of a mapped page.
-/

namespace KernelMemory

/-- The canonical addresses that are mapped. -/
def AddressSpace.pages (space : AddressSpace) (m : Memory) : Set VirtAddr :=
  {va | va.isCanonical = true ∧ space.isMapped m va = .ok true}

namespace Space

open Chart KernelMemory.Action

variable {A : Type} [FrameSource A] [LawfulSource A] {C C' : Chart} {s s' : Store A}
  {space : AddressSpace} {start : Finset Frame} {va : VirtAddr} {h : Nat}

/-! ## Frames that are accounted for -/

/-- **Every frame that was free at first is a table or still free**, every table but the root has an
owner, and no owned table is empty. -/
structure Accounted (C : Chart) (space : AddressSpace) (start : Finset Frame) (s : Store A) :
    Prop where
  settled : C.Settled True s
  isRoot (f : Frame) : C.IsRoot f ↔ f = space.root
  ours (f : Frame) : ¬ C.foreign f
  lending : ¬ C.lending
  tidy : C.tidy
  clean : C.clean
  rooted : C.Rooted s.memory.outline
  conserved (f : Frame) : C.IsTable f ∨ f ∈ freeFrames s ↔ f ∈ start

namespace Accounted

lemma root (ha : Accounted C space start s) : C.IsRoot space.root :=
  (ha.isRoot space.root).mpr rfl

lemma owned {f : Frame} (ha : Accounted C space start s) (hf : C.IsTable f) :
    C.IsRoot f ∨ ∃ x, C.Links s.memory.outline x f ∧ (s.memory.outline x).owned = true :=
  (ha.rooted f hf).imp_right fun h => h.resolve_left (ha.ours f)

lemma carry (ha : Accounted C space start s) (hcarries : C.Carries C' s s')
    (hs : C'.Settled True s') : Accounted C' space start s' where
  settled := hs
  isRoot f := (hcarries.isRoot f).trans (ha.isRoot f)
  ours f := hcarries.foreign ▸ ha.ours f
  lending := hcarries.lending ▸ ha.lending
  tidy := hcarries.tidy ▸ ha.tidy
  clean := hcarries.clean ▸ ha.clean
  rooted := hcarries.rooted ha.lending ha.rooted
  conserved f := (hcarries.conserved f).trans (ha.conserved f)

lemma restored {exact : Prop} (ha : Accounted C space start s) (h : Restored exact s s') :
    Accounted C space start s' :=
  ha.carry (h.carries ha.settled.describes) (ha.settled.restored h)

lemma pages_iff (ha : Accounted C space start s) : va ∈ space.pages s.memory ↔
    va.isCanonical = true ∧ (s.memory.outline.resolve space.root va).isSome = true := by
  refine and_congr_right fun hva => ?_
  rw [AddressSpace.isMapped_eq ha.settled.describes ha.root hva, Except.ok.injEq]

/-- A page has a table at the end of each of its trails. -/
lemma leads (ha : Accounted C space start s) (hva : va ∈ space.pages s.memory)
    (hh : h ≤ rootHeight) : ∃ holders, s.memory.outline.Leads space.root va holders
      (s.memory.tableAt space.root (va.trail h)) h := by
  obtain ⟨holders, t, hl⟩ := ha.settled.describes.fits.leads_of_resolve ha.tidy ha.root
    (ha.pages_iff.mp hva).2 hh
  exact ⟨holders, hl.tableAt_trail ▸ hl⟩

/-- **The tables are at the end of the trails of the pages**, one of each. -/
theorem bijOn (ha : Accounted C space start s) : Set.BijOn (s.memory.tableAt space.root)
    (Address.trails (space.pages s.memory)) {f | C.IsTable f} := by
  have hd := ha.settled.describes
  have htrail : ∀ l ∈ Address.trails (space.pages s.memory), ∃ va h holders, l = va.trail h ∧
      s.memory.outline.Leads space.root va holders (s.memory.tableAt space.root l) h := by
    rintro l (rfl | ⟨va, hva, h, hh, rfl⟩)
    · exact ⟨default, rootHeight, [], rfl, .root⟩
    · obtain ⟨holders, hl⟩ := ha.leads hva (Nat.le_of_lt hh)
      exact ⟨va, h, holders, rfl, hl⟩
  refine ⟨fun l hl => ?_, fun l hl l' hl' heq => ?_, fun f ⟨h, hf⟩ => ?_⟩
  · obtain ⟨va, h, holders, -, hleads⟩ := htrail l hl
    exact ⟨h, hd.fits.height_of_leads ha.root hleads⟩
  · obtain ⟨va, h, holders, rfl, hleads⟩ := htrail l hl
    obtain ⟨va', h', holders', rfl, hleads'⟩ := htrail l' hl'
    rw [← heq] at hleads'
    obtain rfl : h = h' := Option.some.inj ((hd.fits.height_of_leads ha.root hleads).symm.trans
      (hd.fits.height_of_leads ha.root hleads'))
    refine (Address.trail_eq_iff.mpr fun k hk hle => ?_).symm
    exact hd.fits.index_eq ha.lending (hd.fits.borrowsOnce ha.tidy ha.lending) ha.root hleads
      hleads' hk hle
  · obtain ⟨root, va, holders, hroot, hl⟩ :=
      hd.fits.exists_leads (fun g hg => (ha.owned hg).imp_right fun ⟨x, hx, _⟩ => ⟨x, hx⟩) hf
    obtain rfl := (ha.isRoot root).mp hroot
    rcases ha.owned ⟨h, hf⟩ with hisRoot | ⟨x, hx, howned⟩
    · exact ⟨[], .inl rfl, ((ha.isRoot f).mp hisRoot).symm⟩
    -- Such a table has an entry, so that there is a page below it, and it is on the page's trail.
    · obtain ⟨i, hi⟩ := Fits.exists_present hd.counted ha.settled.busy ha.lending hx howned hf
      obtain ⟨va', hva', hindex, hresolve⟩ := hd.fits.exists_page hd.counted ha.settled.busy
        ha.tidy ha.lending ha.root hl hi
      have hlt : h < rootHeight := by
        refine lt_of_le_of_ne hl.height_le fun heq => hd.fits.not_isRoot hx ?_
        rw [IsRoot, hf, heq]
      exact ⟨va'.trail h, .inr ⟨va', ha.pages_iff.mpr ⟨hva', hresolve⟩, h, hlt, rfl⟩,
        (hl.of_index hindex).tableAt_trail⟩

/-- The tables are the frames that were free at first and are not any more. -/
lemma setOf_isTable (ha : Accounted C space start s) :
    {f | C.IsTable f} = ((start \ freeFrames s : Finset Frame) : Set Frame) := by
  ext f
  rw [Finset.mem_coe, Finset.mem_sdiff, ← ha.conserved f]
  change C.IsTable f ↔ _
  exact ⟨fun hf => ⟨.inl hf, ha.settled.describes.notFree hf⟩,
    fun ⟨hf, hnot⟩ => hf.resolve_right hnot⟩

/-- There are as many tables as trails. -/
lemma card_sdiff (ha : Accounted C space start s) :
    (start \ freeFrames s).card = Set.ncard (Address.trails (space.pages s.memory)) := by
  have hbij := ha.bijOn
  rw [ha.setOf_isTable] at hbij
  rw [← Set.ncard_coe_finset, ← hbij.image_eq, hbij.injOn.ncard_image]

/-- A root with no page below it is blank. -/
lemma word_root (ha : Accounted C space start s) (hnone : space.pages s.memory = ∅) (i : Index) :
    s.memory.word ⟨space.root, i⟩ = 0 := by
  have hd := ha.settled.describes
  have hunused : (s.memory.outline ⟨space.root, i⟩).present = false := by
    by_contra hpresent
    have hroot : s.memory.outline.Leads space.root default [] space.root rootHeight := .root
    obtain ⟨va, hva, -, hresolve⟩ := hd.fits.exists_page hd.counted ha.settled.busy ha.tidy
      ha.lending ha.root hroot (by simpa using hpresent)
    exact Set.notMem_empty va (hnone ▸ ha.pages_iff.mpr ⟨hva, hresolve⟩)
  have habsent := hd.fits.unused (s := ⟨space.root, i⟩) ha.clean ⟨_, ha.root⟩ hunused
  rw [Memory.outline_apply, Entry.outline_eq_absent] at habsent
  rw [← Entry.toWord_ofWord (s.memory.word _)]
  exact congrArg Entry.toWord habsent

end Accounted

/-! ## Calls -/

/-- **A call that maps or unmaps a page** keeps the frames accounted for. -/
theorem Accounted.call {call : Call} (ha : Accounted C space start s) (hcall : call.IsPaging) :
    Ensures (call.run space) noPanic s fun event s' =>
      event.call = call ∧ ∃ C', Accounted C' space start s' := by
  refine (call_carries ha.settled ha.root ha.lending fun h : False => h.elim).mono ?_
  rintro event s' ⟨hevent, ⟨C', hcarries, hs'⟩, -⟩
  exact ⟨hevent, C', ha.carry hcarries (hs'.mono fun hlowest => ⟨hlowest, hcall⟩)⟩

/-- **A run of such calls** keeps the frames accounted for. -/
theorem Accounted.run (ha : Accounted C space start s) (calls : List Call)
    (hcalls : ∀ call ∈ calls, call.IsPaging) :
    Ensures (runCalls space calls) noPanic s fun events s' =>
      events.map Event.call = calls ∧ ∃ C', Accounted C' space start s' := by
  induction calls generalizing C s with
  | nil => exact .pure ⟨rfl, C, ha⟩
  | cons call calls ih =>
      obtain ⟨hcall, hrest⟩ := List.forall_mem_cons.mp hcalls
      refine (ha.call hcall).bind ?_
      rintro event s₁ ⟨rfl, C₁, ha₁⟩
      refine (ih ha₁ hrest).bind ?_
      rintro events s₂ ⟨rfl, C₂, ha₂⟩
      exact .pure ⟨rfl, C₂, ha₂⟩

/-- In a new address space all frames are accounted for. -/
lemma accounted_create {held : Finset Frame} (hheld : Holds s held) :
    Ensures AddressSpace.create noPanic s fun r s' => ∀ space, r = .ok space →
      ∃ C, Accounted C space (freeFrames s) s' := by
  refine (AddressSpace.create_settled False True True hheld).mono fun r s' hend space hr => ?_
  obtain ⟨hs, -, hfree, hfree'⟩ := hend space hr
  have htable : ∀ f, (single False True space.root).IsTable f ↔ f = space.root := fun f => by
    rw [single, isTable_add, or_iff_left not_isTable_empty]
  refine ⟨_, hs, fun f => isRoot_single, fun f => id, id, trivial, trivial, fun f hf => ?_,
    fun f => ?_⟩
  · exact .inl (isRoot_single.mpr ((htable f).mp hf))
  · exact (isTable_add_or_mem hfree hfree').trans (or_iff_right not_isTable_empty)

/-! ## The footprint -/

/-- **The tables that an address space takes**, by what a ledger says of the frames. -/
structure Footprint (space : AddressSpace) (s : Store (Ledger A start)) (tables : Finset Frame) :
    Prop where
  /-- What was handed out and did not come back are the tables, each once. -/
  outstanding : (s.source.given : Multiset Frame) = s.source.returned + tables.val
  /-- There is one table for each trail of a mapped page, and the root. -/
  bijOn : Set.BijOn (s.memory.tableAt space.root) (Address.trails (space.pages s.memory)) tables
  /-- The table at the end of a trail is one of the height that the trail goes down to. -/
  reaches {va : VirtAddr} {h : Nat} : va ∈ space.pages s.memory → h ≤ rootHeight →
    s.memory.Reaches space.root h (s.memory.tableAt space.root (va.trail h))
  /-- The number of tables is the number of trails. -/
  card : tables.card = Set.ncard (Address.trails (space.pages s.memory))
  /-- Where no page is mapped, there is a root and nothing in it. -/
  empty : space.pages s.memory = ∅ → tables = {space.root} ∧
    ∀ i, s.memory.word ⟨space.root, i⟩ = 0

/-- **Frames that are accounted for are a footprint**: those that were free at first and are not any
more. -/
theorem Accounted.footprint {s : Store (Ledger A start)} (ha : Accounted C space start s) :
    Footprint space s (start \ freeFrames s) := by
  have hbij := ha.bijOn
  rw [ha.setOf_isTable] at hbij
  refine ⟨?_, hbij, fun hva hh => ?_, ha.card_sdiff, fun hnone => ⟨?_, ha.word_root hnone⟩⟩
  · obtain ⟨held, hheld, -⟩ := ha.settled.describes.held
    exact (Ledger.inOrder hheld).given_eq
  · obtain ⟨holders, hl⟩ := ha.leads hva hh
    exact hl.reaches
  · have htrails : Address.trails (space.pages s.memory) = {[]} := by
      rw [hnone]
      ext l
      simp [Address.trails]
    have himage := hbij.image_eq
    rw [htrails, Set.image_singleton] at himage
    exact Finset.coe_injective (himage.symm.trans (Finset.coe_singleton _).symm)

/-- **An address space takes one table for each trail of a mapped page**, and the root, in every
state that is reached by making it and calls that map and unmap, whatever they are and however they
end.  What was handed out before and is not such a table any more came back once each time. -/
theorem footprint_run {s : Store A} {held : Finset Frame} (hheld : Holds s held)
    (calls : List Call) (hcalls : ∀ call ∈ calls, call.IsPaging) :
    ∃ created s₀, AddressSpace.create.run (Ledger.opened s) = .ok created s₀ ∧
      AddressSpace.create.run s = .ok created (Ledger.plain s₀) ∧
      ∀ space, created = .ok space → ∃ events s' tables,
        (runCalls space calls).run s₀ = .ok events s' ∧
        (runCalls space calls).run (Ledger.plain s₀) = .ok events (Ledger.plain s') ∧
        events.map Event.call = calls ∧ Footprint space s' tables := by
  obtain ⟨created, s₀, hcreate, hspace⟩ := (accounted_create (Ledger.holds_opened hheld)).returns
  refine ⟨created, s₀, hcreate, (AddressSpace.erases_create (f := Ledger.source)).run hcreate,
    fun space hcreated => ?_⟩
  obtain ⟨C, ha⟩ := hspace space hcreated
  obtain ⟨events, s', hrun, hevents, C', ha'⟩ := (ha.run calls hcalls).returns
  exact ⟨events, s', _, hrun, (erases_runCalls (f := Ledger.source)).run hrun, hevents,
    ha'.footprint⟩

/-- The footprint of three pages, two of which have the same tables. -/
theorem footprint_run_sample :
    ∃ s₀ s' tables,
      AddressSpace.create.run (Ledger.opened (Pool.sample 7)) = .ok (.ok ⟨.ofNumber 1⟩) s₀ ∧
      (runCalls ⟨.ofNumber 1⟩ [.map ⟨0x1000⟩ ⟨0x5000⟩ ⟨2⟩, .map ⟨0x200000⟩ ⟨0x6000⟩ ⟨2⟩,
          .map ⟨0x2000⟩ ⟨0x7000⟩ ⟨2⟩]).run s₀ =
        .ok [.map ⟨0x1000⟩ ⟨0x5000⟩ ⟨2⟩ (.ok ()), .map ⟨0x200000⟩ ⟨0x6000⟩ ⟨2⟩ (.ok ()),
          .map ⟨0x2000⟩ ⟨0x7000⟩ ⟨2⟩ (.ok ())] s' ∧
      (∀ va ∈ ([⟨0x1000⟩, ⟨0x200000⟩, ⟨0x2000⟩] : List VirtAddr),
        AddressSpace.isMapped ⟨.ofNumber 1⟩ s'.memory va = .ok true) ∧
      Footprint ⟨.ofNumber 1⟩ s' tables := by
  obtain ⟨t₀, t', hcreate, hrun, hmapped⟩ := run_maps_sample
  obtain ⟨created, s₀, hcreated, hplain, hspace⟩ := footprint_run (Pool.holds_sample (le_refl 7))
    [.map ⟨0x1000⟩ ⟨0x5000⟩ ⟨2⟩, .map ⟨0x200000⟩ ⟨0x6000⟩ ⟨2⟩, .map ⟨0x2000⟩ ⟨0x7000⟩ ⟨2⟩]
    (by simp [Call.IsPaging])
  rw [hcreate] at hplain
  cases hplain
  obtain ⟨events, s', tables, hrun', hplain', -, hfootprint⟩ := hspace _ rfl
  rw [hrun] at hplain'
  cases hplain'
  exact ⟨s₀, s', tables, hcreated, hrun', hmapped, hfootprint⟩

end Space

end KernelMemory
