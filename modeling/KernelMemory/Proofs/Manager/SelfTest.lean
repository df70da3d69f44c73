import KernelMemory.Proofs.Manager.Responses
import KernelMemory.Proofs.Space.Inverse

/-!
# The self test

The self test takes a frame, maps a page to it, looks the page up, unmaps it and gives the frame
back.  Each step has an error return of its own.  None of them leaves a trace, because the steps
before it have changed nothing or are undone.

The test compares what the lookup gives for the address with the first address of its frame.  So it
reports that it read back another frame whenever the address is not the first one of its page,
although the frame was the right one.

* **`Manager.exercise_restored`** — whatever its outcome, the page is as it was.
* **`Manager.selfTest_verdict`** — what the self test gives, and that it restores the state.
* `Manager.Attained` — the managers that calls on roots of their own lead to.
* **`Manager.selfTest_exact`** — the self test passes exactly if the page is not mapped, there are
  frames for it and the address is the first one of its page.
-/

namespace KernelMemory.Manager

open KernelMemory.Action Chart LawfulSource

variable {A P : Type} {m m' : Manager A P} {root : Frame} {va : VirtAddr} {pa : PhysAddr}
  {flags : Flags}

/-! ## Lookups -/

/-- A lookup changes nothing. -/
lemma lookup_ensures {α : Type} {look : Memory → Except Panic α} :
    Ensures (onStore (Store.lookup look) : Action (Manager A P) α) anyPanic m
      fun _ m' => m' = m := by
  have hstore : Ensures (Store.lookup look : Action (Store A) α) anyPanic m.store
      fun _ s' => s' = m.store :=
    .bind_run (EStateM.run_get _) ((ofExcept_ensures fun _ _ => trivial).mono fun _ _ h => h.2)
  refine (onStore_ensures hstore).mono ?_
  rintro _ _ ⟨s', rfl, rfl⟩
  rfl

variable [FrameSource A] [LawfulSource A] [PagingControl P] {C : Chart} {exact : Prop}
  {frame : Frame}

/-! ## No trace -/

/-- **A page that is mapped can be unmapped, and then nothing has changed**; one that cannot be
mapped has changed nothing. -/
theorem map_undone (hs : C.Serves True root m.store) (hexact : exact → RestoringSource A) :
    Ensures (map root va pa flags) noPanic m fun r m₁ => match r with
      | .error _ => Restored exact m.store m₁.store
      | .ok () => Ensures (unmap root va) noPanic m₁ fun r m₂ =>
          r = .ok pa.page ∧ Restored exact m.store m₂.store := by
  have hroot : C.IsRoot (AddressSpace.mk root).root := hs.isRoot
  have hexcuse : C.lending → ∀ p, noPanic p := fun hlending => absurd hlending hs.lending
  refine (onStore_ensures ((AddressSpace.map_ends hs.toSettled hroot hexact hexcuse).and
    (AddressSpace.map_unmap_ensures hs.toSettled hroot hexact hexcuse))).bind ?_
  rintro r m₁ ⟨s₁, rfl, hend, hundone⟩
  rcases r with e | ⟨⟩
  · exact .pure hend.2
  · refine .bind_run (EStateM.run_modify ..) (.pure ?_)
    refine (onStore_ensures (hundone rfl)).bind ?_
    rintro r m₂ ⟨s₂, rfl, rfl, hrestored⟩
    exact .bind_run (EStateM.run_modify ..) (.pure ⟨rfl, hrestored⟩)

/-- **The self test of a page and a frame leaves no trace**, whatever its outcome. -/
theorem exercise_restored (hs : C.Serves True m.kernelRoot m.store)
    (hexact : exact → RestoringSource A) :
    Ensures (exercise va frame) anyPanic m fun _ m' => Restored exact m.store m'.store := by
  refine .bind_run (EStateM.run_get m) ?_
  have hmaps : Ensures (map m.kernelRoot va frame.base selfTestFlags) noPanic m _ :=
    (map_undone hs hexact).and (map_effect hs)
  obtain ⟨r, m₁, hmap, hundone, hend⟩ := hmaps.returns
  refine .bind_run hmap ?_
  rcases r with e | ⟨⟩
  · exact .pure hundone
  · obtain ⟨C₁, e, hrebound, hpresent, -⟩ := hend
    -- The lookup cannot fail, so that the page is unmapped in any case.
    have htranslate := (hrebound.lookup hs hpresent rfl).2
    refine .bind_run (run_lookup htranslate) ?_
    obtain ⟨_, m₂, hunmap, rfl, hrestored⟩ := hundone.returns
    refine .bind_run hunmap ?_
    dsimp only
    split
    · exact .pure hrestored
    · refine lookup_ensures.bind ?_
      rintro mapped _ rfl
      split
      · exact .pure hrestored
      · obtain ⟨held, hheld, -⟩ := (hrestored.describes hs.describes).held
        exact .bind_run (run_onStore Store.run_note)
          (.pure (hrestored.trans (.of_eq hheld rfl rfl)))

/-- **The self test leaves no trace**, whatever its outcome. -/
theorem selfTest_restored (hs : C.Serves True m.kernelRoot m.store)
    (hexact : exact → RestoringSource A) :
    Ensures (selfTest va) anyPanic m fun _ m' => Restored exact m.store m'.store := by
  obtain ⟨held, hheld, -⟩ := hs.describes.held
  obtain ⟨r, s₁, halloc⟩ := LawfulSource.alloc_returns hheld
  refine .bind_run (run_onStore halloc) ?_
  cases r with
  | none => exact .pure (.of_alloc_none hheld halloc hexact)
  | some frame =>
      obtain ⟨hs₁, -, -, -, hsame⟩ := hs.toSettled.alloc_aside halloc
      obtain ⟨hserves₁, -⟩ := hs.keeps hs₁.of_besides hsame.keepsOn.outline
      have hexercise := @exercise_restored A P { m with store := s₁ } va _ _ _ C exact frame
        hserves₁ hexact
      refine hexercise.bind ?_
      intro result m₂ hrestored
      obtain ⟨s₃, hfree, hrestored⟩ := hrestored.alloc_free hheld halloc hexact
      exact .bind_run (run_onStore hfree) (.pure hrestored)

/-! ## The verdict -/

/-- What mapping a page gives. -/
lemma map_result [GenerousSource A] (hs : C.Serves True root m.store) :
    Ensures (map root va pa flags) anyPanic m fun r _ =>
      r = if 2 ^ physicalAddressBits ≤ pa.value.toNat then .error (.invalidRequest .beyondPhysical)
        else if va.isCanonical = false then .error (.invalidRequest .nonCanonical)
        else if (m.store.memory.outline.resolve root va).isSome then .error .alreadyMapped
        else if (freeFrames m.store).card < m.store.memory.outline.missing root va then
          .error .outOfMemory
        else .ok () := by
  refine (onStore_ensures (AddressSpace.map_room hs)).bind ?_
  rintro r m₁ ⟨s₁, rfl, hr⟩
  rcases r with e | ⟨⟩
  · exact .pure hr
  · exact .bind_run (EStateM.run_modify ..) (.pure hr)

/-- What the self test gives, by what the address stands for and by the frames that are free. -/
def verdict (m : Manager A P) (va : VirtAddr) : Except MapError Unit :=
  if freeFrames m.store = ∅ then .error .outOfMemory
  else if va.isCanonical = false then .error (.invalidRequest .nonCanonical)
  else if (m.store.memory.outline.resolve m.kernelRoot va).isSome then .error .alreadyMapped
  else if (freeFrames m.store).card < 1 + m.store.memory.outline.missing m.kernelRoot va then
    .error .outOfMemory
  else if va.offset = 0 then .ok ()
  else .error (.invalidRequest .selfTestOtherFrame)

lemma SelfTested.eq_verdict [GenerousSource A] {r : Except MapError Unit} {pages : List VirtPage}
    (h : SelfTested m va r pages) (hs : C.Serves True m.kernelRoot m.store) : r = m.verdict va := by
  obtain ⟨held, hheld, -⟩ := hs.describes.held
  -- What mapping gives once a frame has been taken.
  have hmaps : ∀ {frame s₁ r m₁},
      (FrameSource.alloc : Action (Store A) _).run m.store = .ok (some frame) s₁ →
      (map m.kernelRoot va frame.base selfTestFlags).run { m with store := s₁ } = .ok r m₁ →
      freeFrames m.store ≠ ∅ ∧
      r = if va.isCanonical = false then .error (.invalidRequest .nonCanonical)
        else if (m.store.memory.outline.resolve m.kernelRoot va).isSome then .error .alreadyMapped
        else if (freeFrames m.store).card < 1 + m.store.memory.outline.missing m.kernelRoot va then
          .error .outOfMemory
        else .ok () := by
    intro frame s₁ r m₁ halloc hmap
    obtain ⟨hs₁, hframe, -, hfree, hsame⟩ := hs.toSettled.alloc_aside halloc
    have hkeeps := hsame.keepsOn.outline
    obtain ⟨hserves₁, -⟩ := hs.keeps hs₁.of_besides hkeeps
    have hresolve : s₁.memory.outline.resolve m.kernelRoot va = _ :=
      hs.describes.fits.resolve_congr hkeeps hs.isRoot
    have hmissing : s₁.memory.outline.missing m.kernelRoot va = _ :=
      hs.describes.fits.missing_congr hkeeps hs.isRoot
    have hcard : (freeFrames s₁).card + 1 = (freeFrames m.store).card := by
      rw [hfree, Finset.card_erase_add_one hframe]
    have hbase : ¬ 2 ^ physicalAddressBits ≤ frame.base.value.toNat := by
      have hnumber := LawfulSource.number_lt hheld hframe
      simp only [Page.toNat_base, physicalAddressBits, pageSize]
      omega
    have hr := (map_result (m := { m with store := s₁ }) hserves₁).of_ok hmap
    rw [if_neg hbase] at hr
    simp only [hresolve, hmissing] at hr
    refine ⟨Finset.ne_empty_of_mem hframe, hr.trans ?_⟩
    congr 3
    exact propext ⟨fun hlt => by omega, fun hlt => by omega⟩
  cases h with
  | noFrame halloc => rw [verdict, if_pos (GenerousSource.free_eq_empty hheld halloc)]
  | notMapped halloc hmap =>
      obtain ⟨hfree, hr⟩ := hmaps halloc hmap
      rw [verdict, if_neg hfree, hr]
      split_ifs at hr ⊢ <;> simp_all
  | mapped halloc hmap =>
      obtain ⟨hfree, hr⟩ := hmaps halloc hmap
      rw [verdict, if_neg hfree]
      split_ifs at hr ⊢ <;> simp_all

/-- There is something to test at an address: no page is mapped there, and there is a frame for the
page and one for each table that is missing on its way. -/
def SelfTestable (m : Manager A P) (va : VirtAddr) : Prop :=
  va.isCanonical = true ∧ AddressSpace.isMapped ⟨m.kernelRoot⟩ m.store.memory va = .ok false ∧
    1 + m.store.memory.outline.missing m.kernelRoot va ≤ (freeFrames m.store).card

omit [PagingControl P] in
/-- The verdict of a self test, in terms of what a caller can find out beforehand. -/
lemma verdict_iff (hs : C.Serves True m.kernelRoot m.store) (va : VirtAddr) :
    (m.verdict va = .ok () ↔ SelfTestable m va ∧ va.offset = 0) ∧
    (m.verdict va = .error (.invalidRequest .selfTestOtherFrame) ↔
      SelfTestable m va ∧ va.offset ≠ 0) ∧
    m.verdict va ≠ .error (.invalidRequest .selfTestStillMapped) := by
  have htestable : SelfTestable m va ↔ freeFrames m.store ≠ ∅ ∧ va.isCanonical = true ∧
      (m.store.memory.outline.resolve m.kernelRoot va).isSome = false ∧
      1 + m.store.memory.outline.missing m.kernelRoot va ≤ (freeFrames m.store).card := by
    rw [SelfTestable]
    constructor
    · rintro ⟨hva, hmapped, hroom⟩
      rw [hs.isMapped_eq hva, Except.ok.injEq] at hmapped
      refine ⟨?_, hva, hmapped, hroom⟩
      rw [← Finset.nonempty_iff_ne_empty, ← Finset.card_pos]
      omega
    · rintro ⟨-, hva, hnone, hroom⟩
      exact ⟨hva, by rw [hs.isMapped_eq hva, hnone], hroom⟩
  rw [htestable, verdict]
  split_ifs <;> simp_all

/-- **The self test** always returns, gives its verdict, and leaves no trace. -/
theorem selfTest_verdict [GenerousSource A] (hs : C.Serves True m.kernelRoot m.store)
    (va : VirtAddr) (hexact : exact → RestoringSource A) :
    Ensures (selfTest va) noPanic m fun r m' =>
      r = m.verdict va ∧ Restored exact m.store m'.store := by
  refine ((selfTest_effect hs).and (selfTest_restored hs hexact)).mono ?_
  rintro r m' ⟨⟨_, _, -, -, htested⟩, hrestored⟩
  exact ⟨htested.eq_verdict hs, hrestored⟩

/-! ## The managers that calls lead to -/

/-- **The managers that calls on roots of their own lead to**, with the roots that were made: new
roots, operations on these, switches between them, turning paging on, and starting anew on a
machine. -/
inductive Attained : Finset Frame → Manager A P → Prop
  | start {m : Manager A P} {held : Finset Frame} : Holds m.store held → Attained ∅ m
  | boot {m : Manager A P} {roots : Finset Frame} (machine : P) : Attained roots m →
      Attained roots (Manager.start machine m.store)
  | create {m m' : Manager A P} {roots : Finset Frame} {root : Frame} : Attained roots m →
      createRoot.run m = .ok (.ok root) m' → Attained (insert root roots) m'
  | refused {m m' : Manager A P} {roots : Finset Frame} {e : MapError} : Attained roots m →
      createRoot.run m = .ok (.error e) m' → Attained roots m'
  | operate {m m' : Manager A P} {roots : Finset Frame} {root : Frame} {op : Operation}
      {reply : op.Reply} : Attained roots m → root ∈ roots → (op.OnKernel → m.kernelRoot = root) →
      (op.run root).run m = .ok reply m' → Attained roots m'
  | switch {m m' : Manager A P} {roots : Finset Frame} {root : Frame} : Attained roots m →
      root ∈ roots → (Manager.switch root).run m = .ok () m' → Attained roots m'
  | enablePaging {m m' : Manager A P} {roots : Finset Frame} {root : Frame}
      {r : Except MapError Unit} : Attained roots m → root ∈ roots →
      (Manager.enablePaging root).run m = .ok r m' → Attained roots m'

/-- The tables of some roots are the kernel's own, and none of them that is owned is empty. -/
structure Private (C : Chart) (roots : Finset Frame) (s : Store A) : Prop
    extends C.Settled True s where
  clean : C.clean
  tidy : C.tidy
  lending : ¬ C.lending
  isRoot {root : Frame} : root ∈ roots → C.IsRoot root

namespace Private

variable {roots : Finset Frame} {s s' : Store A} {C' : Chart}

lemma serves (h : Private C roots s) (hroot : root ∈ roots) : C.Serves True root s :=
  ⟨h.toSettled, h.isRoot hroot, h.lending, h.describes.fits.borrowsOnce h.tidy h.lending⟩

lemma withStore (h : Private C roots s) (hs' : C.Settled True s') : Private C roots s' :=
  ⟨hs', h.clean, h.tidy, h.lending, h.isRoot⟩

lemma kin (h : Private C roots s) (hkin : C.Kin C') (hs' : C'.Settled True s') :
    Private C' roots s' where
  toSettled := hs'
  clean := hkin.clean ▸ h.clean
  tidy := hkin.tidy ▸ h.tidy
  lending := hkin.lending ▸ h.lending
  isRoot hroot := (hkin.isRoot _).mpr (h.isRoot hroot)

omit [PagingControl P] in
lemma alongside (h : Private C roots m.store) (halong : Alongside m m') :
    Private C roots m'.store :=
  h.withStore (h.toSettled.of_eq halong.memory halong.source)

/-- What is restored is untouched. -/
lemma tablesKept (h : Private C roots s) (hroot : root ∈ roots)
    (hrestored : Restored exact s s') : Space.TablesKept s s' root :=
  Space.tablesKept_of_restored ⟨h.toSettled.mono fun _ => trivial, h.clean⟩ (h.isRoot hroot)
    hrestored

end Private

/-- **No owned table is empty** in such a manager. -/
theorem Attained.isPrivate {roots : Finset Frame} (hm : Attained roots m) :
    ∃ C : Chart, Private C roots m.store := by
  induction hm with
  | start hheld =>
      exact ⟨empty False True, settled_empty hheld, trivial, trivial, id,
        fun hroot => absurd hroot (Finset.notMem_empty _)⟩
  | boot machine _ ih =>
      obtain ⟨C, hC⟩ := ih
      exact ⟨C, hC.withStore (hC.toSettled.of_eq rfl rfl)⟩
  | @create m m' roots root _ hrun ih =>
      obtain ⟨C, hC⟩ := ih
      have hcreate : Ensures createRoot noPanic m fun r m' => ∀ root, r = .ok root →
          C.height root = none ∧ (C.add root rootHeight).Settled True m'.store := by
        refine (onStore_ensures (AddressSpace.create_ensures hC.toSettled)).bind ?_
        rintro r m₁ ⟨s₁, rfl, hend⟩
        rcases r with e | space
        · exact .pure fun root hr => by cases hr
        · refine .pure fun root hr => ?_
          cases hr
          exact ⟨hend.1, hend.2.1⟩
      obtain ⟨hnone, hs'⟩ := hcreate.of_ok hrun root rfl
      refine ⟨_, hs', hC.clean, hC.tidy, hC.lending, fun hroot => ?_⟩
      rcases Finset.mem_insert.mp hroot with rfl | hroot
      · exact height_add_self
      · exact height_add_of_some hnone (hC.isRoot hroot)
  | @refused m m' roots e _ hrun ih =>
      obtain ⟨C, hC⟩ := ih
      have hcreate : Ensures createRoot noPanic m fun r m' => ∀ e, r = .error e →
          Restored False m.store m'.store := by
        refine (onStore_ensures (AddressSpace.create_ensures hC.toSettled)).bind ?_
        rintro r m₁ ⟨s₁, rfl, hend⟩
        rcases r with e | space
        · exact .pure fun _ _ => hend.2
        · exact .pure fun e hr => by cases hr
      exact ⟨C, hC.withStore (hC.toSettled.restored (hcreate.of_ok hrun e rfl))⟩
  | operate _ hroot hkernel hrun ih =>
      obtain ⟨C, hC⟩ := ih
      obtain ⟨C', l, heffect, -⟩ :=
        (Operation.effect _ (hC.serves hroot) hkernel).of_ok hrun
      exact ⟨C', hC.kin heffect.carries.toKin heffect.serves.toSettled⟩
  | switch _ _ hrun ih =>
      obtain ⟨C, hC⟩ := ih
      exact ⟨C, hC.alongside (switch_alongside.of_ok hrun)⟩
  | enablePaging _ _ hrun ih =>
      obtain ⟨C, hC⟩ := ih
      exact ⟨C, hC.alongside (enablePaging_alongside.of_ok hrun)⟩

/-- **The verdict of the self test is exact but for the offset of its address, and the test leaves
no trace.**  It always returns.  It passes exactly if no page is mapped at the address, there is a
frame for the page and for each missing table, and the address is the first one of its page; for
any other address of such a page it says that it read back another frame.  The page is never still
mapped afterwards.  Whatever it says, the tables of all roots are as they were, word for word, the
same frames are free and held, and so are the source and its books, if giving a frame back undoes
handing it out. -/
theorem selfTest_exact [GenerousSource A] {roots : Finset Frame} (hm : Attained roots m)
    (hkernel : m.kernelRoot ∈ roots) (va : VirtAddr) :
    ∃ r m', (selfTest va).run m = .ok r m' ∧
      (r = .ok () ↔ SelfTestable m va ∧ va.offset = 0) ∧
      (r = .error (.invalidRequest .selfTestOtherFrame) ↔ SelfTestable m va ∧ va.offset ≠ 0) ∧
      r ≠ .error (.invalidRequest .selfTestStillMapped) ∧
      (∀ root ∈ roots, Space.TablesKept m.store m'.store root) ∧
      freeFrames m'.store = freeFrames m.store ∧
      (∀ held, Holds m.store held → Holds m'.store held) ∧
      (RestoringSource A → SameBooks m.store m'.store) := by
  obtain ⟨C, hC⟩ := hm.isPrivate
  have hs := hC.serves hkernel
  obtain ⟨_, m', hrun, rfl, hrestored⟩ :=
    (selfTest_verdict hs va fun h : RestoringSource A => h).returns
  obtain ⟨hpasses, hother, hstill⟩ := verdict_iff hs va
  exact ⟨_, m', hrun, hpasses, hother, hstill, fun _ hroot => hC.tablesKept hroot hrestored,
    hrestored.free, fun _ => hrestored.held, hrestored.same⟩

/-- A manager over seven frames that was started on a root of its own can test every page. -/
lemma selfTestable_started : ∃ m : Manager Pool Recorder,
    Attained {.ofNumber 1} m ∧ m.kernelRoot = .ofNumber 1 ∧
      ∀ va, va.isCanonical = true → SelfTestable m va := by
  have hheld : Holds (Pool.sample 7) ∅ := Pool.holds_sample (le_refl 7)
  obtain ⟨s₀, hcreate⟩ :
      ∃ s₀, AddressSpace.create.run (Pool.sample 7) = .ok (.ok ⟨.ofNumber 1⟩) s₀ := ⟨_, rfl⟩
  have hcreated : Ensures AddressSpace.create noPanic (Pool.sample 7) _ :=
    AddressSpace.create_settled False True True hheld
  obtain ⟨hs₀, hblank, hroot, hfree⟩ := hcreated.of_ok hcreate _ rfl
  have hcreateRoot : createRoot.run System.sample.manager =
      .ok (.ok (.ofNumber 1)) { System.sample.manager with store := s₀ } :=
    (run_bind (run_onStore (m := System.sample.manager) hcreate)).trans rfl
  have hstart : Attained ∅ System.sample.manager := .start hheld
  have hmade := hstart.create hcreateRoot
  rw [insert_empty_eq] at hmade
  refine ⟨_, hmade.boot { root := .ofNumber 1 }, rfl, fun va hva => ⟨hva, ?_, ?_⟩⟩
  · have hmapped : AddressSpace.isMapped ⟨.ofNumber 1⟩ s₀.memory va = _ :=
      AddressSpace.isMapped_eq hs₀.describes (isRoot_single.mpr rfl) hva
    rw [Outline.resolve, hblank, Outline.follow_absent] at hmapped
    exact hmapped
  · have hmissing : s₀.memory.outline.missing (.ofNumber 1) va ≤ 3 := Outline.lacks_le
    have hcard : (freeFrames s₀).card = 6 := by
      rw [hfree, Finset.card_erase_of_mem hroot]
      rfl
    change 1 + s₀.memory.outline.missing (.ofNumber 1) va ≤ (freeFrames s₀).card
    omega

/-- The self test passes at the first address of a page. -/
theorem selfTest_exact_sample : ∃ m m' : Manager Pool Recorder,
    Attained {.ofNumber 1} m ∧ m.kernelRoot = .ofNumber 1 ∧
      (selfTest ⟨0x1000⟩).run m = .ok (.ok ()) m' ∧ SameBooks m.store m'.store := by
  obtain ⟨m, hm, hkernel, htestable⟩ := selfTestable_started
  have hroot : m.kernelRoot ∈ ({.ofNumber 1} : Finset Frame) := by
    rw [hkernel]
    exact Finset.mem_singleton_self _
  obtain ⟨r, m', hrun, hpasses, -, -, -, -, -, hsame⟩ := selfTest_exact hm hroot ⟨0x1000⟩
  obtain rfl := hpasses.mpr ⟨htestable _ (by decide), by decide⟩
  exact ⟨m, m', hm, hkernel, hrun, hsame inferInstance⟩

/-- **The self test fails at any other address of the page**, and says that it read back another
frame. -/
theorem selfTest_not_exact : ∃ m m' : Manager Pool Recorder,
    Attained {.ofNumber 1} m ∧ m.kernelRoot = .ofNumber 1 ∧ SelfTestable m ⟨0x1234⟩ ∧
      (selfTest ⟨0x1234⟩).run m = .ok (.error (.invalidRequest .selfTestOtherFrame)) m' := by
  obtain ⟨m, hm, hkernel, htestable⟩ := selfTestable_started
  have hva : SelfTestable m ⟨0x1234⟩ := htestable _ (by decide)
  obtain ⟨C, hC⟩ := hm.isPrivate
  have hs : C.Serves True m.kernelRoot m.store := hC.serves (by simp [hkernel])
  obtain ⟨_, m', hrun, rfl, -⟩ :=
    (selfTest_verdict hs ⟨0x1234⟩ fun h : False => h.elim).returns
  rw [(verdict_iff hs _).2.1.mpr ⟨hva, by decide⟩] at hrun
  exact ⟨m, m', hm, hkernel, hva, hrun⟩

end KernelMemory.Manager
