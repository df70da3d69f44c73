import KernelMemory.Proofs.Space.Orderly

/-!
# Pages of one root

Where every table is linked once, an operation that succeeds changes what one page of its root
stands for, and what lookups say of every other address stays as it was.

* `Chart.Serves` — a state in which operations on a root may be made.
* `Memory.SameAt`, `Memory.Flips` — what a change of memory shows under a root.
* `Chart.Rebound` — one page was bound anew; **`Rebound.flips`** — that is all that is seen of it.
* **`AddressSpace.map_rebinds`**, **`AddressSpace.unmap_rebinds`** — the two operations do that, or
  nothing.
-/

namespace KernelMemory

/-! ## What lookups say -/

namespace Memory

variable {root : Frame} {page : VirtPage} {m m' m'' : Memory} {va : VirtAddr}

/-- Lookups of an address under a root give the same in two memories. -/
structure SameAt (root : Frame) (m m' : Memory) (va : VirtAddr) : Prop where
  isMapped : AddressSpace.isMapped ⟨root⟩ m' va = AddressSpace.isMapped ⟨root⟩ m va
  translate : AddressSpace.translate ⟨root⟩ m' va = AddressSpace.translate ⟨root⟩ m va

namespace SameAt

lemma refl : SameAt root m m va := ⟨rfl, rfl⟩

lemma trans (h : SameAt root m m' va) (h' : SameAt root m' m'' va) : SameAt root m m'' va :=
  ⟨h'.isMapped.trans h.isMapped, h'.translate.trans h.translate⟩

lemma of_not_canonical (hva : va.isCanonical = false) : SameAt root m m' va where
  isMapped := by
    rw [AddressSpace.isMapped, AddressSpace.isMapped, AddressSpace.find_of_not_canonical hva,
      AddressSpace.find_of_not_canonical hva]
    rfl
  translate := by
    rw [AddressSpace.translate, AddressSpace.translate, AddressSpace.find_of_not_canonical hva,
      AddressSpace.find_of_not_canonical hva]
    rfl

/-- Lookups give the same where the same entry decides. -/
lemma of_resolve_eq {A : Type} [FrameSource A] [LawfulSource A] {C C' : Chart} {s s' : Store A}
    (hd : C.Describes s) (hd' : C'.Describes s') (hroot : C.IsRoot root) (hroot' : C'.IsRoot root)
    (hsame : s'.memory.outline.resolve root va = s.memory.outline.resolve root va) :
    SameAt root s.memory s'.memory va := by
  cases hva : va.isCanonical with
  | false => exact .of_not_canonical hva
  | true =>
      refine ⟨?_, AddressSpace.translate_congr hd hd' hroot hroot' hsame⟩
      rw [AddressSpace.isMapped_eq hd hroot hva, AddressSpace.isMapped_eq hd' hroot' hva, hsame]

end SameAt

/-- **The entry of one page is filled or emptied**, and lookups of addresses in other pages give the
same. -/
structure Flips (root : Frame) (page : VirtPage) (m m' : Memory) : Prop where
  here {va : VirtAddr} : va.page = page → ∃ mapped,
    AddressSpace.isMapped ⟨root⟩ m va = .ok mapped ∧
      AddressSpace.isMapped ⟨root⟩ m' va = .ok !mapped
  elsewhere {va : VirtAddr} : va.page ≠ page → SameAt root m m' va

/-- Every address that was mapped is mapped. -/
def Grows (root : Frame) (m m' : Memory) : Prop :=
  ∀ va, AddressSpace.isMapped ⟨root⟩ m va = .ok true → AddressSpace.isMapped ⟨root⟩ m' va = .ok true

namespace Grows

lemma refl : Grows root m m := fun _ => id

lemma trans (h : Grows root m m') (h' : Grows root m' m'') : Grows root m m'' :=
  fun va hva => h' va (h va hva)

lemma of_same (hsame : ∀ va, SameAt root m m' va) : Grows root m m' :=
  fun va hva => (hsame va).isMapped.trans hva

end Grows

/-- A change that is not seen may come first. -/
lemma Flips.of_same (hsame : ∀ va, SameAt root m m' va) (h : Flips root page m' m'') :
    Flips root page m m'' where
  here {va} hva := by
    obtain ⟨mapped, hbefore, hafter⟩ := h.here hva
    exact ⟨mapped, (hsame va).isMapped ▸ hbefore, hafter⟩
  elsewhere {va} hva := (hsame va).trans (h.elsewhere hva)

end Memory

namespace Chart

variable {A : Type} [FrameSource A] [LawfulSource A] {C C' C'' : Chart} {s s' s'' : Store A}
  {root : Frame} {va : VirtAddr} {lowest exact : Prop} {e? : Option Entry}

/-! ## States for operations -/

/-- **Operations on a root may be made**: between two calls, no root lends its tables and every
table is linked once. -/
structure Serves (C : Chart) (lowest : Prop) (root : Frame) (s : Store A) : Prop
    extends C.Settled lowest s where
  isRoot : C.IsRoot root
  lending : ¬ C.lending
  borrowsOnce : C.BorrowsOnce s.memory.outline

namespace Serves

lemma isMapped_eq (hs : C.Serves lowest root s) (hva : va.isCanonical = true) :
    AddressSpace.isMapped ⟨root⟩ s.memory va = .ok (s.memory.outline.resolve root va).isSome :=
  AddressSpace.isMapped_eq hs.describes hs.isRoot hva

lemma isMapped_returns (hs : C.Serves lowest root s) (va : VirtAddr) :
    ∃ mapped, AddressSpace.isMapped ⟨root⟩ s.memory va = .ok mapped := by
  cases hva : va.isCanonical with
  | true => exact ⟨_, hs.isMapped_eq hva⟩
  | false =>
      rw [AddressSpace.isMapped, AddressSpace.find_of_not_canonical hva]
      exact ⟨false, rfl⟩

lemma translate_returns (hs : C.Serves lowest root s) (va : VirtAddr) :
    ∃ r, AddressSpace.translate ⟨root⟩ s.memory va = .ok r := by
  cases hva : va.isCanonical with
  | true => exact ⟨_, AddressSpace.translate_eq hs.describes hs.isRoot hva⟩
  | false =>
      rw [AddressSpace.translate, AddressSpace.find_of_not_canonical hva]
      exact ⟨.error (.invalidRequest .nonCanonical), rfl⟩

lemma sameAt (hs : C.Serves lowest root s) (hs' : C'.Serves lowest root s')
    (hsame : s'.memory.outline.resolve root va = s.memory.outline.resolve root va) :
    s.memory.SameAt root s'.memory va :=
  .of_resolve_eq hs.describes hs'.describes hs.isRoot hs'.isRoot hsame

lemma carry (hs : C.Serves lowest root s) (hcarries : C.Carries C' s s')
    (hs' : C'.Settled lowest s') : C'.Serves lowest root s' where
  toSettled := hs'
  isRoot := (hcarries.isRoot root).mpr hs.isRoot
  lending := hcarries.lending ▸ hs.lending
  borrowsOnce := hs.borrowsOnce.congr (hcarries.borrowed hs.lending)

/-- A state with the same tables serves as well, and lookups give the same. -/
lemma keeps (hs : C.Serves lowest root s) (hs' : C.Settled lowest s')
    (hkeeps : C.Keeps s.memory.outline s'.memory.outline) :
    C.Serves lowest root s' ∧ ∀ va, s.memory.SameAt root s'.memory va := by
  have hserves : C.Serves lowest root s' := ⟨hs', hs.isRoot, hs.lending,
    hs.borrowsOnce.congr fun _ _ => Borrows.keeps_iff hkeeps⟩
  exact ⟨hserves, fun va => hs.sameAt hserves
    (hs.describes.fits.resolve_congr hkeeps hs.isRoot)⟩

end Serves

/-- Operations may be made on the roots that are well-formed, and only on those. -/
lemma wellFormed_iff_serves : Space.WellFormed s root ↔ ∃ C : Chart,
    C.Serves False root s ∧ C.clean := by
  rw [Space.wellFormed_iff]
  constructor
  · rintro ⟨C, hs, hroot, hlending, honce⟩
    exact ⟨C, ⟨hs.toSettled, hroot, hlending, honce⟩, hs.clean⟩
  · rintro ⟨C, hs, hclean⟩
    exact ⟨C, ⟨hs.toSettled, hclean⟩, hs.isRoot, hs.lending, hs.borrowsOnce⟩

/-! ## Pages that are bound anew -/

/-- **One page was bound anew**: to an entry if it was not mapped, or to nothing if it was. -/
structure Rebound (C C' : Chart) (lowest : Prop) (root : Frame) (va : VirtAddr) (e? : Option Entry)
    (s s' : Store A) : Prop where
  evolves : C.Evolves C' root va s s'
  settled : C'.Settled lowest s'
  canonical : va.isCanonical = true
  rebinds : Rebinds s.memory.outline s'.memory.outline root va e?
  turns : (s.memory.outline.resolve root va).isSome = !e?.isSome

namespace Rebound

lemma serves (h : C.Rebound C' lowest root va e? s s') (hs : C.Serves lowest root s) :
    C'.Serves lowest root s' :=
  hs.carry h.evolves.toCarries h.settled

lemma resolve_eq (h : C.Rebound C' lowest root va e? s s') :
    s'.memory.outline.resolve root va = e?.map fun e => (e, 0) :=
  h.rebinds.here fun _ _ => rfl

/-- The addresses of a page that was mapped stand for those of its frame. -/
lemma lookup {e : Entry} {va' : VirtAddr} (h : C.Rebound C' lowest root va (some e) s s')
    (hs : C.Serves lowest root s) (hpresent : e.present = true) (hpage : va'.page = va.page) :
    AddressSpace.isMapped ⟨root⟩ s'.memory va' = .ok true ∧
      AddressSpace.translate ⟨root⟩ s'.memory va' = .ok (.ok
        { address := e.frame.join va'.offset, flags := e.flags, pageBytes := pageSize }) := by
  have hva' : va'.isCanonical = true := (Address.isCanonical_congr hpage).trans h.canonical
  have hs' := h.serves hs
  have hresolve : s'.memory.outline.resolve root va' = some (e, 0) :=
    h.rebinds.here ((Address.samePage_iff h.canonical hva').mpr hpage)
  rw [hs'.isMapped_eq hva', AddressSpace.translate_eq hs'.describes hs'.isRoot hva', hresolve]
  exact ⟨rfl, congrArg Except.ok (Entry.translate_of_present hpresent)⟩

/-- **All that is seen of it** is that the page is mapped now if it was not. -/
theorem flips (h : C.Rebound C' lowest root va e? s s') (hs : C.Serves lowest root s) :
    s.memory.Flips root va.page s'.memory where
  here {va'} hpage := by
    have hva' : va'.isCanonical = true := (Address.isCanonical_congr hpage).trans h.canonical
    have hsame : Address.SamePage va va' := (Address.samePage_iff h.canonical hva').mpr hpage
    refine ⟨!e?.isSome, ?_, ?_⟩
    · rw [hs.isMapped_eq hva', Outline.resolve_samePage hsame, h.turns]
    · rw [(h.serves hs).isMapped_eq hva', h.rebinds.here hsame, Option.isSome_map, Bool.not_not]
  elsewhere {va'} hpage := by
    cases hva' : va'.isCanonical with
    | false => exact .of_not_canonical hva'
    | true =>
        refine hs.sameAt (h.serves hs) (h.rebinds.elsewhere fun hsame => hpage ?_)
        exact (Address.samePage_iff h.canonical hva').mp hsame

/-- A page that is mapped was not mapped before, so that no other page is lost. -/
lemma grows {e : Entry} (h : C.Rebound C' lowest root va (some e) s s')
    (hs : C.Serves lowest root s) : s.memory.Grows root s'.memory := by
  intro va' hmapped
  by_cases hpage : va'.page = va.page
  · have hva' : va'.isCanonical = true := (Address.isCanonical_congr hpage).trans h.canonical
    rw [hs.isMapped_eq hva', Outline.resolve_samePage ((Address.samePage_iff h.canonical hva').mpr
      hpage), h.turns] at hmapped
    cases hmapped
  · rw [((h.flips hs).elsewhere hpage).isMapped, hmapped]

/-- A page that is mapped and unmapped stands for what it stood for. -/
lemma undone {e : Entry} (h : C.Rebound C' lowest root va (some e) s s')
    (h' : C'.Rebound C'' lowest root va none s' s'') (va' : VirtAddr) :
    s''.memory.outline.resolve root va' = s.memory.outline.resolve root va' := by
  by_cases hpage : Address.SamePage va va'
  · have hnone : s.memory.outline.resolve root va = none := by simpa using h.turns
    rw [h'.rebinds.here hpage, Outline.resolve_samePage hpage, hnone]
    rfl
  · rw [h'.rebinds.elsewhere hpage, h.rebinds.elsewhere hpage]

end Rebound

end Chart

/-! ## Operations -/

namespace AddressSpace

open Chart KernelMemory.Action

variable {A : Type} [FrameSource A] [LawfulSource A] {C : Chart} {s : Store A} {root : Frame}
  {va : VirtAddr} {pa : PhysAddr} {flags : Flags} {lowest : Prop}

/-- **Mapping a page** binds it anew, or changes nothing that matters. -/
theorem map_rebinds (hs : C.Serves lowest root s) :
    Ensures (map ⟨root⟩ va pa flags) noPanic s fun r s' => match r with
      | .error e => Refuses s.memory.outline root va pa e ∧ Restored False s s'
      | .ok () => ∃ C' e, C.Rebound C' lowest root va (some e) s s' ∧ e.present = true ∧
          e.frame = pa.page ∧ e.flags = flags.forPage := by
  have hroot : C.IsRoot (AddressSpace.mk root).root := hs.isRoot
  have hexcuse : C.lending → ∀ p, noPanic p := fun hlending => absurd hlending hs.lending
  have hends : Ensures (map ⟨root⟩ va pa flags) noPanic s _ :=
    map_ends hs.toSettled hroot (fun h : False => h.elim) hexcuse
  refine (hends.and (map_ensures hs.toSettled hroot (fun h : False => h.elim) hexcuse)).mono ?_
  rintro r s' ⟨hrefused, hend⟩
  rcases r with e | ⟨⟩
  · exact hrefused
  · obtain ⟨hva, hnone, C', hev, hs', hrest⟩ := hend
    obtain ⟨e, hpresent, hframe, hflags, hrewrites⟩ := hrest hs.lending
    have hrebinds := hrewrites.rebinds hs.lending hs.borrowsOnce
    rw [if_pos hpresent] at hrebinds
    exact ⟨C', e, ⟨hev, hs', hva, hrebinds, by rw [hnone]; rfl⟩, hpresent, hframe, hflags⟩

/-- **Unmapping a page** that is mapped by itself binds it to nothing; of any other nothing is
changed. -/
theorem unmap_rebinds (hs : C.Serves lowest root s) :
    Ensures (unmap ⟨root⟩ va) noPanic s fun r s' => match r with
      | .error _ => s' = s ∧ (va.isCanonical = true →
          ∀ e, s.memory.outline.resolve root va ≠ some (e, 0))
      | .ok f => ∃ C' e, C.Rebound C' lowest root va none s s' ∧
          s.memory.outline.resolve root va = some (e, 0) ∧ e.frame = f := by
  have hroot : C.IsRoot (AddressSpace.mk root).root := hs.isRoot
  refine (unmap_ensures hs.toSettled hroot fun hlending => absurd hlending hs.lending).mono
    fun r s' hend => ?_
  rcases r with err | f
  · obtain ⟨rfl, -, hunused⟩ := hend
    refine ⟨rfl, fun hva e hresolve => ?_⟩
    obtain ⟨path, hwalk, -, hpresent, -⟩ := walk_of_resolve hs.describes hroot hva hresolve
    rw [hunused path hwalk] at hpresent
    cases hpresent
  · obtain ⟨path, -, hva, hpresent, rfl, hway, hkeep, -⟩ := hend
    obtain ⟨C', hev, hs', hrewrites⟩ :=
      hkeep (hs.describes.fits.not_withdraws hs.isRoot hway.leads hs.lending)
    have hresolve := resolve_slot hway
    rw [if_pos hpresent] at hresolve
    have hrebinds := (hrewrites hs.lending).rebinds hs.lending hs.borrowsOnce
    exact ⟨C', _, ⟨hev, hs', hva, hrebinds, by rw [hresolve]; rfl⟩, hresolve, Entry.outline_frame⟩

/-- A page that is mapped is unmapped. -/
lemma run_unmap_of_resolve {e : Entry} (hs : C.Serves lowest root s)
    (hva : va.isCanonical = true) (hresolve : s.memory.outline.resolve root va = some (e, 0)) :
    ∃ s', (unmap ⟨root⟩ va).run s = .ok (.ok e.frame) s' := by
  have hrebinds : Ensures (unmap ⟨root⟩ va) noPanic s _ := unmap_rebinds hs
  obtain ⟨r, s', hrun, hend⟩ := hrebinds.returns
  rcases r with err | f
  · exact absurd hresolve (hend.2 hva e)
  · obtain ⟨C', e', -, hresolve', rfl⟩ := hend
    rw [hresolve] at hresolve'
    cases hresolve'
    exact ⟨s', hrun⟩

end AddressSpace

end KernelMemory
