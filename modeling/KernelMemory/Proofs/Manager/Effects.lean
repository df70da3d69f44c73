import KernelMemory.Proofs.Manager.Worlds
import KernelMemory.Proofs.Space.Besides

/-!
# What operations of a manager do

Every operation on a root changes the entries of some pages, one after the other, and tells the
machine of each as soon as it has changed.  What it does to the store and what it tells the machine
is put together from the single pages.

* `Invalidation` — a page that a machine is told to drop, with memory as it stands then.
* `Paced` — invalidations keep pace with memory: each follows the change of its own page.
* `Manager.Effect` — what an operation does; **`Effect.trans`** — effects follow each other.
* **`Manager.map_effect`**, **`Manager.unmap_effect`**, **`Manager.identityMap_effect`**,
  **`Manager.selfTest_effect`** — the operations.
-/

namespace KernelMemory

/-! ## Invalidations -/

/-- A page that a machine is told to drop, with memory as it stands then. -/
structure Invalidation where
  page : VirtPage
  memory : Memory

/-- What a machine makes of an invalidation. -/
def Invalidation.apply {P : Type} [PagingControl P] (machine : P) (i : Invalidation) : P :=
  PagingControl.invalidate (PagingControl.observe machine i.memory) i.page

/-- **Invalidations keep pace with memory**: from one to the next, nothing changes but the entry of
the page that is dropped next, and after the last one nothing changes. -/
inductive Paced (root : Frame) : Memory → List Invalidation → Memory → Prop
  | nil {m m' : Memory} : (∀ va, m.SameAt root m' va) → Paced root m [] m'
  | cons {m m' : Memory} {i : Invalidation} {l : List Invalidation} :
      m.Flips root i.page i.memory → Paced root i.memory l m' → Paced root m (i :: l) m'

namespace Paced

variable {root : Frame} {m m' m'' : Memory} {l l' : List Invalidation} {va : VirtAddr}

lemma of_same (hsame : ∀ va, m.SameAt root m' va) (h : Paced root m' l m'') :
    Paced root m l m'' := by
  cases h with
  | nil h => exact .nil fun va => (hsame va).trans (h va)
  | cons hflips h => exact .cons (hflips.of_same hsame) h

lemma trans (h : Paced root m l m') (h' : Paced root m' l' m'') :
    Paced root m (l ++ l') m'' := by
  induction h with
  | nil hsame => exact h'.of_same hsame
  | cons hflips _ ih => exact .cons hflips (ih h')

/-- **The last invalidation of a page** comes after its last change, if lookups of an address in it
have changed at all. -/
theorem last (h : Paced root m l m') :
    ((∀ i ∈ l, i.page ≠ va.page ∧ m.SameAt root i.memory va) ∧ m.SameAt root m' va) ∨
    ∃ before i after, l = before ++ i :: after ∧ i.page = va.page ∧
      (∀ j ∈ after, j.page ≠ va.page ∧ i.memory.SameAt root j.memory va) ∧
      i.memory.SameAt root m' va := by
  induction h with
  | nil hsame => exact .inl ⟨fun i hi => (by cases hi), hsame va⟩
  | @cons m m' i l hflips _ ih =>
      rcases ih with ⟨hafter, hsame⟩ | ⟨before, j, after, rfl, hrest⟩
      · by_cases hpage : i.page = va.page
        · exact .inr ⟨[], i, l, rfl, hpage, hafter, hsame⟩
        · have helse := hflips.elsewhere (Ne.symm hpage)
          refine .inl ⟨fun j hj => ?_, helse.trans hsame⟩
          rcases List.mem_cons.mp hj with rfl | hj
          · exact ⟨hpage, helse⟩
          · exact ⟨(hafter j hj).1, helse.trans (hafter j hj).2⟩
      · exact .inr ⟨i :: before, j, after, rfl, hrest⟩

/-- Where no page is dropped twice, a page is mapped in the end if it was not, and the other way
round, exactly if it is dropped. -/
lemma turns (h : Paced root m l m') (hnodup : (l.map Invalidation.page).Nodup) :
    (va.page ∈ l.map Invalidation.page → ∃ mapped,
      AddressSpace.isMapped ⟨root⟩ m va = .ok mapped ∧
        AddressSpace.isMapped ⟨root⟩ m' va = .ok !mapped) ∧
    (va.page ∉ l.map Invalidation.page → m.SameAt root m' va) := by
  induction h with
  | nil hsame => exact ⟨fun hin => (by cases hin), fun _ => hsame va⟩
  | @cons m m' i l hflips _ ih =>
      rw [List.map_cons, List.nodup_cons] at hnodup
      obtain ⟨hin, hnot⟩ := ih hnodup.2
      rw [List.map_cons, List.mem_cons]
      by_cases hpage : va.page = i.page
      · refine ⟨fun _ => ?_, fun hne => absurd (.inl hpage) hne⟩
        obtain ⟨mapped, hbefore, hafter⟩ := hflips.here hpage
        exact ⟨mapped, hbefore, (hnot (hpage ▸ hnodup.1)).isMapped.trans hafter⟩
      · have helse := hflips.elsewhere hpage
        rw [or_iff_right hpage]
        refine ⟨fun hmem => ?_, fun hmem => helse.trans (hnot hmem)⟩
        obtain ⟨mapped, hbefore, hafter⟩ := hin hmem
        exact ⟨mapped, helse.isMapped ▸ hbefore, hafter⟩

end Paced

/-! ## Effects -/

namespace Manager

open KernelMemory.Action Chart

variable {A P : Type} [FrameSource A] [LawfulSource A] [PagingControl P] {C C' C'' : Chart}
  {lowest exact : Prop} {root : Frame} {m m' m'' : Manager A P} {s' : Store A}
  {l l' : List Invalidation} {va : VirtAddr} {pa : PhysAddr} {flags : Flags}

/-- **What an operation on a root does**: tables come and go as a chart says, and the machine is
told of the pages that changed and of nothing else. -/
structure Effect (C C' : Chart) (lowest : Prop) (root : Frame) (m : Manager A P)
    (l : List Invalidation) (m' : Manager A P) : Prop where
  carries : C.Carries C' m.store m'.store
  serves : C'.Serves lowest root m'.store
  kernelRoot : m'.kernelRoot = m.kernelRoot
  machine : m'.machine = l.foldl Invalidation.apply m.machine
  paced : Paced root m.store.memory l m'.store.memory

namespace Effect

lemma trans (h : Effect C C' lowest root m l m') (h' : Effect C' C'' lowest root m' l' m'') :
    Effect C C'' lowest root m (l ++ l') m'' where
  carries := h.carries.trans h'.carries
  serves := h'.serves
  kernelRoot := h'.kernelRoot.trans h.kernelRoot
  machine := by rw [h'.machine, h.machine, List.foldl_append]
  paced := h.paced.trans h'.paced

/-- Nothing that matters has changed. -/
lemma of_restored (hs : C.Serves lowest root m.store) (h : Restored exact m.store s') :
    Effect C C lowest root m [] { m with store := s' } := by
  have hkeeps := (h.keepsTables hs.describes).outline
  obtain ⟨hs', hsame⟩ := hs.keeps (hs.toSettled.restored h) hkeeps
  exact ⟨.of_keeps hkeeps h.free, hs', rfl, rfl, .nil hsame⟩

lemma refl (hs : C.Serves lowest root m.store) : Effect C C lowest root m [] m :=
  of_restored hs (Restored.refl m.store : Restored False _ _)

/-- Something was noted. -/
lemma of_note (hs : C.Serves lowest root m.store) (event : Log.Event) :
    Effect C C lowest root m []
      { m with store := { m.store with log := m.store.log.push event } } := by
  obtain ⟨held, hheld, -⟩ := hs.describes.held
  have hnoted : Restored False m.store { m.store with log := m.store.log.push event } :=
    .of_eq hheld rfl rfl
  exact of_restored hs hnoted

/-- Without an invalidation nothing is seen. -/
lemma sameAt (h : Effect C C' lowest root m [] m') (va : VirtAddr) :
    m.store.memory.SameAt root m'.store.memory va := by
  cases h.paced with
  | nil hsame => exact hsame va

/-- A page was bound anew, and dropped after that. -/
lemma of_rebound {e? : Option Entry} (hs : C.Serves lowest root m.store)
    (h : C.Rebound C' lowest root va e? m.store s') :
    Effect C C' lowest root m [⟨va.page, s'.memory⟩] (forget { m with store := s' } va.page) where
  carries := h.evolves.toCarries
  serves := h.serves hs
  kernelRoot := rfl
  machine := rfl
  paced := .cons (h.flips hs) (.nil fun _ => .refl)

end Effect

/-! ## Single pages -/

/-- **Mapping a page** binds it anew and drops it after that, or changes nothing that matters. -/
theorem map_effect (hs : C.Serves lowest root m.store) :
    Ensures (map root va pa flags) noPanic m fun r m' => match r with
      | .error e => ∃ s', m' = { m with store := s' } ∧
          (AddressSpace.map ⟨root⟩ va pa flags).run m.store = .ok (.error e) s' ∧
          AddressSpace.Refuses m.store.memory.outline root va pa e ∧ Restored False m.store s'
      | .ok () => ∃ C' e, C.Rebound C' lowest root va (some e) m.store m'.store ∧
          e.present = true ∧ e.frame = pa.page ∧ e.flags = flags.forPage ∧
          Effect C C' lowest root m [⟨va.page, m'.store.memory⟩] m' := by
  refine (onStore_ensures ((AddressSpace.map_rebinds hs).and ensures_run)).bind ?_
  rintro r m₁ ⟨s₁, rfl, hend, hrun⟩
  rcases r with err | ⟨⟩
  · exact .pure ⟨s₁, rfl, hrun, hend⟩
  · obtain ⟨C', e, hrebound, hpresent, hframe, hflags⟩ := hend
    exact .bind_run (EStateM.run_modify ..)
      (.pure ⟨C', e, hrebound, hpresent, hframe, hflags, .of_rebound hs hrebound⟩)

/-- **Unmapping a page** that is mapped by itself binds it to nothing and drops it after that; of
any other nothing is changed. -/
theorem unmap_effect (hs : C.Serves lowest root m.store) :
    Ensures (unmap root va) noPanic m fun r m' => match r with
      | .error _ => m' = m ∧ (va.isCanonical = true →
          ∀ e, m.store.memory.outline.resolve root va ≠ some (e, 0))
      | .ok f => ∃ C' e, C.Rebound C' lowest root va none m.store m'.store ∧
          m.store.memory.outline.resolve root va = some (e, 0) ∧ e.frame = f ∧
          Effect C C' lowest root m [⟨va.page, m'.store.memory⟩] m' := by
  refine (onStore_ensures (AddressSpace.unmap_rebinds hs)).bind ?_
  rintro r m₁ ⟨s₁, rfl, hend⟩
  rcases r with err | f
  · obtain ⟨rfl, hunused⟩ := hend
    exact .pure ⟨rfl, hunused⟩
  · obtain ⟨C', e, hrebound, hresolve, hframe⟩ := hend
    exact .bind_run (EStateM.run_modify ..)
      (.pure ⟨C', e, hrebound, hresolve, hframe, .of_rebound hs hrebound⟩)

omit [FrameSource A] [LawfulSource A] [PagingControl P] in
/-- A lookup gives what it finds, and changes nothing. -/
lemma run_lookup {α : Type} {look : Memory → Except Panic α} {a : α}
    (h : look m.store.memory = .ok a) :
    (onStore (Store.lookup look) : Action (Manager A P) α).run m = .ok a m :=
  run_onStore (Store.run_lookup h)

omit [PagingControl P] in
lemma isMapped_effect (hs : C.Serves lowest root m.store) (va : VirtAddr) :
    Ensures (isMapped root va) noPanic m fun r m' => m' = m ∧
      AddressSpace.isMapped ⟨root⟩ m.store.memory va = .ok r := by
  obtain ⟨r, hr⟩ := hs.isMapped_returns va
  exact .of_run (run_lookup hr) ⟨rfl, hr⟩

omit [PagingControl P] in
lemma translate_effect (hs : C.Serves lowest root m.store) (va : VirtAddr) :
    Ensures (translate root va) noPanic m fun r m' => m' = m ∧
      AddressSpace.translate ⟨root⟩ m.store.memory va = .ok r := by
  obtain ⟨r, hr⟩ := hs.translate_returns va
  exact .of_run (run_lookup hr) ⟨rfl, hr⟩

/-! ## Ranges of pages -/

/-- An address of a range is in the page that is as far on. -/
lemma page_advance {kind : AddressKind} {a a' : Address kind} {k : Nat} {wraps : InvalidRequest}
    (h : advance a (k * pageSize) wraps = .ok a') : a'.page.number = a.page.number + k := by
  rw [advance] at h
  split at h
  case isTrue hlt =>
    cases h
    simp only [Address.page, Address.ofNat, UInt64.toNat_ofNat', pageSize] at hlt ⊢
    omega
  case isFalse => cases h

/-- **The ways in which page `k` of a range ends**: an address of it passes the last one, or the
page cannot be mapped, or it is mapped already, or it is mapped now. -/
inductive RangePage (C : Chart) (lowest : Prop) (va : VirtAddr) (pa : PhysAddr) (flags : Flags)
    (k : Nat) (m : Manager A P) : Except MapError Bool → Manager A P → Prop
  | virtualWraps {e : MapError} : advance va (k * pageSize) .virtualWraps = .error e →
      RangePage C lowest va pa flags k m (.error e) m
  | physicalWraps {va' : VirtAddr} {e : MapError} :
      advance va (k * pageSize) .virtualWraps = .ok va' →
      advance pa (k * pageSize) .physicalWraps = .error e →
      RangePage C lowest va pa flags k m (.error e) m
  | refused {va' : VirtAddr} {pa' : PhysAddr} {e : MapError} {s' : Store A} :
      advance va (k * pageSize) .virtualWraps = .ok va' →
      advance pa (k * pageSize) .physicalWraps = .ok pa' →
      (AddressSpace.map ⟨m.kernelRoot⟩ va' pa' flags).run m.store = .ok (.error e) s' →
      AddressSpace.Refuses m.store.memory.outline m.kernelRoot va' pa' e → e ≠ .alreadyMapped →
      Restored False m.store s' →
      RangePage C lowest va pa flags k m (.error e) { m with store := s' }
  | mapped {va' : VirtAddr} {pa' : PhysAddr} {s' : Store A} :
      advance va (k * pageSize) .virtualWraps = .ok va' →
      advance pa (k * pageSize) .physicalWraps = .ok pa' →
      AddressSpace.Refuses m.store.memory.outline m.kernelRoot va' pa' .alreadyMapped →
      Restored False m.store s' →
      RangePage C lowest va pa flags k m (.ok false) { m with store := s' }
  | fresh {va' : VirtAddr} {pa' : PhysAddr} {C' : Chart} {e : Entry} {m' : Manager A P} :
      advance va (k * pageSize) .virtualWraps = .ok va' →
      advance pa (k * pageSize) .physicalWraps = .ok pa' →
      C.Rebound C' lowest m.kernelRoot va' (some e) m.store m'.store → e.present = true →
      e.frame = pa'.page → e.flags = flags.forPage →
      Effect C C' lowest m.kernelRoot m [⟨va'.page, m'.store.memory⟩] m' →
      RangePage C lowest va pa flags k m (.ok true) m'

/-- **Mapping a page of a range** ends in one of these ways. -/
theorem mapRangePage_ends {k : Nat} (hs : C.Serves lowest m.kernelRoot m.store) (hk : k < 2 ^ 52) :
    Ensures (mapRangePage va pa flags k) noPanic m (RangePage C lowest va pa flags k m) := by
  have hlt : k * pageSize < 2 ^ 64 := by
    simp only [pageSize]
    omega
  have hmul : Checked.mul k pageSize = .ok (k * pageSize) := Checked.mul_eq_ok_iff.mpr ⟨hlt, rfl⟩
  refine .bind_run (run_ofExcept hmul) ?_
  cases hva : advance va (k * pageSize) .virtualWraps with
  | error e => exact .pure (.virtualWraps hva)
  | ok va' =>
      cases hpa : advance pa (k * pageSize) .physicalWraps with
      | error e => exact .pure (.physicalWraps hva hpa)
      | ok pa' =>
          refine .bind_run (EStateM.run_get _) ((map_effect hs).bind fun r m₁ hend => ?_)
          rcases r with err | ⟨⟩
          · obtain ⟨s₁, rfl, hrun, hrefuses, hrestored⟩ := hend
            cases err
            case alreadyMapped =>
              obtain ⟨held, hheld, -⟩ := (hrestored.describes hs.describes).held
              refine .bind_run (run_onStore Store.run_note) (.pure (.mapped hva hpa hrefuses ?_))
              exact hrestored.trans (.of_eq hheld rfl rfl)
            all_goals exact .pure (.refused hva hpa hrun hrefuses (by simp) hrestored)
          · obtain ⟨C', e, hrebound, hpresent, hframe, hflags, heffect⟩ := hend
            exact .pure (.fresh hva hpa hrebound hpresent hframe hflags heffect)

/-- A page of a range is dropped if it was not mapped before. -/
lemma RangePage.effect {k : Nat} {r : Except MapError Bool}
    (h : RangePage C lowest va pa flags k m r m') (hs : C.Serves lowest m.kernelRoot m.store) :
    ∃ C' l, Effect C C' lowest m.kernelRoot m l m' ∧
      m.store.memory.Grows m.kernelRoot m'.store.memory ∧
      (l = [] ∨ ∃ i, l = [i] ∧ i.page.number = va.page.number + k) := by
  have hkept : ∀ {s'}, Restored False m.store s' →
      ∃ C' l, Effect C C' lowest m.kernelRoot m l { m with store := s' } ∧
        m.store.memory.Grows m.kernelRoot s'.memory ∧
        (l = [] ∨ ∃ i : Invalidation, l = [i] ∧ i.page.number = va.page.number + k) := by
    intro s' hrestored
    have heffect := Effect.of_restored hs hrestored
    exact ⟨C, [], heffect, .of_same heffect.sameAt, .inl rfl⟩
  cases h with
  | virtualWraps => exact hkept (.refl _)
  | physicalWraps => exact hkept (.refl _)
  | refused _ _ _ _ _ hrestored => exact hkept hrestored
  | mapped _ _ _ hrestored => exact hkept hrestored
  | fresh hva _ hrebound _ _ _ heffect =>
      exact ⟨_, _, heffect, hrebound.grows hs, .inr ⟨_, rfl, page_advance hva⟩⟩

/-- **Mapping the pages of a range** drops those that were not mapped before, in ascending order,
wherever it stops. -/
theorem mapRangeFrom_effect {k fresh count : Nat} (hs : C.Serves lowest m.kernelRoot m.store)
    (hfresh : fresh ≤ k) (hk : k + count ≤ 2 ^ 52) :
    Ensures (mapRangeFrom va pa flags k fresh count) noPanic m fun _ m' => ∃ C' l,
      Effect C C' lowest m.kernelRoot m l m' ∧
      m.store.memory.Grows m.kernelRoot m'.store.memory ∧
      l.Pairwise (fun i j => i.page.number < j.page.number) ∧
      ∀ i ∈ l, va.page.number + k ≤ i.page.number := by
  induction count generalizing C m k fresh with
  | zero => exact .pure ⟨C, [], .refl hs, .refl, .nil, fun i hi => by cases hi⟩
  | succ count ih =>
      refine (mapRangePage_ends hs (by omega)).bind fun r m₁ hend => ?_
      obtain ⟨C₁, l₁, heffect, hgrows, hl₁⟩ := hend.effect hs
      have hascending : l₁.Pairwise fun i j => i.page.number < j.page.number := by
        rcases hl₁ with rfl | ⟨i, rfl, -⟩
        · exact .nil
        · exact List.pairwise_singleton _ i
      have hfrom : ∀ i ∈ l₁, i.page.number = va.page.number + k := by
        rcases hl₁ with rfl | ⟨i, rfl, hi⟩
        · exact fun i hi => by cases hi
        · exact fun j hj => List.mem_singleton.mp hj ▸ hi
      rcases r with err | isFresh
      · exact .pure ⟨C₁, l₁, heffect, hgrows, hascending, fun i hi => (hfrom i hi).ge⟩
      · have hle : fresh + isFresh.toNat ≤ k + 1 := by
          have := isFresh.toNat_le
          omega
        have hadd : Checked.add fresh isFresh.toNat = .ok (fresh + isFresh.toNat) :=
          Checked.add_eq_ok_iff.mpr ⟨by omega, rfl⟩
        have hs₁ : C₁.Serves lowest m₁.kernelRoot m₁.store := heffect.kernelRoot ▸ heffect.serves
        refine .bind_run (run_ofExcept hadd) ((ih hs₁ hle (by omega)).mono ?_)
        rintro r' m₂ ⟨C₂, l₂, heffect₂, hgrows₂, hascending₂, hfrom₂⟩
        rw [heffect.kernelRoot] at heffect₂ hgrows₂
        refine ⟨C₂, l₁ ++ l₂, heffect.trans heffect₂, hgrows.trans hgrows₂,
          List.pairwise_append.mpr ⟨hascending, hascending₂, fun i hi j hj => ?_⟩, fun i hi => ?_⟩
        · have := hfrom i hi
          have := hfrom₂ j hj
          omega
        · rcases List.mem_append.mp hi with hi | hi
          · exact (hfrom i hi).ge
          · have := hfrom₂ i hi
            omega

/-- **Mapping a range** drops the pages that are mapped now and were not before, in ascending order,
wherever it stops. -/
theorem identityMap_effect {size : UInt64} (hs : C.Serves lowest m.kernelRoot m.store) :
    Ensures (identityMap va pa size flags) noPanic m fun _ m' => ∃ C' l,
      Effect C C' lowest m.kernelRoot m l m' ∧
      (l.map Invalidation.page).Pairwise (fun p q => p.number < q.number) ∧
      ∀ va', va'.page ∈ l.map Invalidation.page ↔
        AddressSpace.isMapped ⟨m.kernelRoot⟩ m.store.memory va' = .ok false ∧
          AddressSpace.isMapped ⟨m.kernelRoot⟩ m'.store.memory va' = .ok true := by
  have hcount : 0 + size.toNat / pageSize ≤ 2 ^ 52 := by
    have := size.toNat_lt
    simp only [pageSize]
    omega
  refine (mapRangeFrom_effect hs (le_refl 0) hcount).mono ?_
  rintro r m' ⟨C', l, heffect, hgrows, hascending, -⟩
  have hpages : (l.map Invalidation.page).Pairwise fun p q => p.number < q.number :=
    List.pairwise_map.mpr hascending
  have hnodup : (l.map Invalidation.page).Nodup :=
    hpages.imp fun hlt heq => absurd (congrArg Page.number heq) (Nat.ne_of_lt hlt)
  refine ⟨C', l, heffect, hpages, fun va' => ?_⟩
  obtain ⟨hin, hnot⟩ : (va'.page ∈ l.map Invalidation.page → _) ∧ _ := heffect.paced.turns hnodup
  constructor
  · intro hmem
    obtain ⟨mapped, hbefore, hafter⟩ := hin hmem
    -- The page cannot have been mapped, because what is mapped stays mapped.
    cases mapped with
    | false => exact ⟨hbefore, hafter⟩
    | true =>
        rw [hgrows va' hbefore] at hafter
        cases hafter
  · rintro ⟨hbefore, hafter⟩
    by_contra hmem
    rw [(hnot hmem).isMapped, hbefore] at hafter
    cases hafter

/-! ## The self test -/

/-- **The ways in which the self test ends**, with its result and the pages that are dropped:
without a frame, with a page that cannot be mapped, or past its map. -/
inductive SelfTested (m : Manager A P) (va : VirtAddr) :
    Except MapError Unit → List VirtPage → Prop
  | noFrame {s : Store A} :
      (FrameSource.alloc : Action (Store A) _).run m.store = .ok none s →
      SelfTested m va (.error .outOfMemory) []
  | notMapped {frame : Frame} {s : Store A} {e : MapError} {m' : Manager A P} :
      (FrameSource.alloc : Action (Store A) _).run m.store = .ok (some frame) s →
      (map m.kernelRoot va frame.base selfTestFlags).run { m with store := s } =
        .ok (.error e) m' →
      SelfTested m va (.error e) []
  | mapped {frame : Frame} {s : Store A} {m' : Manager A P} :
      (FrameSource.alloc : Action (Store A) _).run m.store = .ok (some frame) s →
      (map m.kernelRoot va frame.base selfTestFlags).run { m with store := s } =
        .ok (.ok ()) m' →
      SelfTested m va
        (if va.offset = 0 then .ok () else .error (.invalidRequest .selfTestOtherFrame))
        [va.page, va.page]

/-- The address of a frame at an offset is the first one only if the offset is zero. -/
lemma join_eq_base {kind : AddressKind} {p : Page kind} {offset : Nat} (hlt : offset < pageSize) :
    p.join offset = p.base ↔ offset = 0 := by
  constructor
  · intro h
    have hnat := congrArg (fun a : Address kind => a.value.toNat) h
    simp only [Page.toNat_join, Page.toNat_base] at hnat
    rw [Nat.mod_eq_of_lt hlt] at hnat
    omega
  · rintro rfl
    rw [Page.join, Page.base, Nat.zero_mod, Nat.add_zero]

/-- **The self test of a page and a frame** leaves every address as it was.  Past its map it ends as
it should if the address is the first one of its page. -/
theorem exercise_effect {frame : Frame} (hs : C.Serves lowest m.kernelRoot m.store) :
    Ensures (exercise va frame) noPanic m fun r m' => ∃ C' l,
      Effect C C' lowest m.kernelRoot m l m' ∧
      (∀ va', m'.store.memory.outline.resolve m.kernelRoot va' =
        m.store.memory.outline.resolve m.kernelRoot va') ∧
      ∃ r' m₁, (map m.kernelRoot va frame.base selfTestFlags).run m = .ok r' m₁ ∧ match r' with
        | .error e => r = .error e ∧ l = []
        | .ok () => r = (if va.offset = 0 then .ok ()
              else .error (.invalidRequest .selfTestOtherFrame)) ∧
            l.map Invalidation.page = [va.page, va.page] := by
  refine .bind_run (EStateM.run_get m) ?_
  have hmapping : Ensures (map m.kernelRoot va frame.base selfTestFlags) noPanic m _ :=
    map_effect hs
  obtain ⟨r', m₁, hmap, hend⟩ := hmapping.returns
  refine .bind_run hmap ?_
  rcases r' with err | ⟨⟩
  · obtain ⟨s₁, rfl, -, -, hrestored⟩ := hend
    refine .pure ⟨C, [], .of_restored hs hrestored, fun va' => ?_, _, _, hmap, rfl, rfl⟩
    exact hs.describes.fits.resolve_congr (hrestored.keepsTables hs.describes).outline hs.isRoot
  · obtain ⟨C₁, e, hrebound, hpresent, hframe, -, heffect⟩ := hend
    have hs₁ := heffect.serves
    have htranslate : AddressSpace.translate ⟨m.kernelRoot⟩ m₁.store.memory va = .ok (.ok
        { address := frame.join va.offset, flags := e.flags, pageBytes := pageSize }) := by
      rw [(hrebound.lookup hs hpresent rfl).2, hframe, Address.page_base]
    refine .bind_run (run_lookup htranslate) ((unmap_effect hs₁).bind ?_)
    rintro r'' m₂ hend
    rcases r'' with err | unmapped
    · exact absurd hrebound.resolve_eq (hend.2 hrebound.canonical e)
    · obtain ⟨C₂, e', hrebound₂, hresolve, rfl, heffect₂⟩ := hend
      have he : e' = e := by
        have heq := hresolve.symm.trans hrebound.resolve_eq
        simpa using heq
      have hunmapped : e'.frame = frame := by rw [he, hframe, Address.page_base]
      have hboth := heffect.trans heffect₂
      have hundone := hrebound.undone hrebound₂
      have hjoin : frame.join va.offset = frame.base ↔ va.offset = 0 :=
        join_eq_base (Nat.mod_lt _ (by decide))
      dsimp only
      by_cases hoffset : va.offset = 0
      · have hfound : ¬ (frame.join va.offset ≠ frame.base ∨ e'.frame ≠ frame) :=
          not_or.mpr ⟨not_not.mpr (hjoin.mpr hoffset), not_not.mpr hunmapped⟩
        have hgone : AddressSpace.isMapped ⟨m.kernelRoot⟩ m₂.store.memory va = .ok false := by
          rw [hboth.serves.isMapped_eq hrebound.canonical, hrebound₂.resolve_eq]
          rfl
        have hnoted := hboth.trans (.of_note hboth.serves (.selfTestPassed va))
        rw [if_neg hfound, if_pos hoffset]
        exact .bind_run (run_lookup hgone) (.bind_run (run_onStore Store.run_note)
          (.pure ⟨C₂, _, hnoted, hundone, _, _, hmap, rfl, rfl⟩))
      · have hother : frame.join va.offset ≠ frame.base ∨ e'.frame ≠ frame :=
          .inl fun heq => hoffset (hjoin.mp heq)
        rw [if_pos hother, if_neg hoffset]
        exact .pure ⟨C₂, _, hboth, hundone, _, _, hmap, rfl, rfl⟩

/-- **The self test** leaves every address as it was, and no frame is lost. -/
theorem selfTest_effect (hs : C.Serves lowest m.kernelRoot m.store) :
    Ensures (selfTest va) noPanic m fun r m' => ∃ C' l,
      Effect C C' lowest m.kernelRoot m l m' ∧
      (∀ va', m'.store.memory.outline.resolve m.kernelRoot va' =
        m.store.memory.outline.resolve m.kernelRoot va') ∧
      SelfTested m va r (l.map Invalidation.page) := by
  obtain ⟨held, hheld, -⟩ := hs.describes.held
  obtain ⟨r, s₁, halloc⟩ := LawfulSource.alloc_returns hheld
  refine .bind_run (run_onStore halloc) ?_
  cases r with
  | none =>
      have hrestored : Restored False m.store s₁ := .of_alloc_none hheld halloc fun h => h.elim
      refine .pure ⟨C, [], .of_restored hs hrestored, fun va' => ?_, .noFrame halloc⟩
      exact hs.describes.fits.resolve_congr (hrestored.keepsTables hs.describes).outline hs.isRoot
  | some frame =>
      obtain ⟨hs₁, hframe, hnot, hfree, hsame⟩ := hs.toSettled.alloc_aside halloc
      have hkeeps := hsame.keepsOn.outline
      obtain ⟨hserves₁, hseen⟩ := hs.keeps hs₁.of_besides hkeeps
      -- The frame of the test is set aside while the page is mapped and unmapped.
      have hexercise := @exercise_effect A P _ (.besides A {frame}) _ C lowest
        { m with store := s₁ } va frame (hserves₁.besides hs₁)
      refine hexercise.bind ?_
      rintro result m₂ ⟨C', l, ⟨hcarries, hserves₂, hkernel, hmachine, hpaced⟩, hundone, hend⟩
      have hcarries := hcarries.of_besides
      have hplain₂ := hserves₂.of_besides
      obtain ⟨hs₂, -⟩ := hserves₂
      have hnot' : ¬ C'.IsTable frame ∧ frame ∉ freeFrames m₂.store := by
        have hiff := hcarries.conserved frame
        rw [hfree] at hiff
        simp only [hnot, Finset.notMem_erase, or_self, iff_false, not_or] at hiff
        exact hiff
      obtain ⟨s₃, hrun, hs₃, hfree₃, hsame₃⟩ := Settled.free_aside hs₂ hnot'.1
      obtain ⟨hserves₃, hseen₃⟩ := hplain₂.keeps hs₃ hsame₃.keepsOn.outline
      have hconserved : ∀ f, C'.IsTable f ∨ f ∈ freeFrames s₃ ↔
          C.IsTable f ∨ f ∈ freeFrames m.store := by
        intro f
        have hiff := hcarries.conserved f
        rw [hfree, Finset.mem_erase] at hiff
        rw [hfree₃, Finset.mem_insert]
        rcases eq_or_ne f frame with rfl | hne
        · simp [hframe]
        · simpa [hne] using hiff
      have heffect : Effect C C' lowest m.kernelRoot m l { m₂ with store := s₃ } :=
        ⟨hcarries.between hsame hsame₃ hconserved, hserves₃, hkernel, hmachine, by
          simpa using (hpaced.of_same hseen).trans (.nil hseen₃)⟩
      refine .bind_run (run_onStore hrun) (.pure ⟨C', l, heffect, fun va' => ?_, ?_⟩)
      · exact (hplain₂.describes.fits.resolve_congr hsame₃.keepsOn.outline hplain₂.isRoot).trans
          ((hundone va').trans (hs.describes.fits.resolve_congr hkeeps hs.isRoot))
      · obtain ⟨r', m₁, hmap, hcase⟩ := hend
        rcases r' with err | ⟨⟩
        · obtain ⟨rfl, rfl⟩ := hcase
          exact .notMapped halloc hmap
        · obtain ⟨rfl, hpages⟩ := hcase
          rw [hpages]
          exact .mapped halloc hmap

end Manager

end KernelMemory
