import KernelMemory.Proofs.Manager.Worlds
import KernelMemory.Proofs.Space.Grounds
import KernelMemory.Proofs.Space.Solitary

/-!
# Tables that several roots link

The tables behind a shared entry belong to one root, and its count says nothing of the links of the
others.  So unmapping the last page behind the entry through the owner gives the table back while
the others still link it, and nothing else does such harm.

* `World.not_withdraws_of_beside` — a page that is not the last one in its table can be unmapped.
* `Manager.Sharing` — the active root shares a page of its kernel half with a new one.
* **`World.Sound.call`** — any other call keeps the world sound.
* **`World.safe_iff`** — all worlds of a run are safe if no call of the run withdraws a table, and
  only then.
-/

namespace KernelMemory

open KernelMemory.Action

/-! ## Which calls withdraw a table -/

namespace Chart

variable {C : Chart} {o : Outline} {n : Slot → Nat} {root f : Frame} {va : VirtAddr} {h : Nat}
  {holders : List Slot}

/-- A release from a slot whose count is one withdraws a table if all holders own their tables and
count one child, and the table that the root links is linked from elsewhere too. -/
lemma withdraws_one_iff (hl : o.Leads root va holders f h) (hh : h < rootHeight) :
    C.Withdraws o n 1 holders ↔ (∀ x ∈ holders, (o x).owned = true ∧ n x = 1) ∧
      ∃ t, t ≠ ⟨root, va.index rootHeight⟩ ∧ C.Links o t (o ⟨root, va.index rootHeight⟩).frame := by
  induction holders generalizing f h with
  | nil =>
      obtain ⟨-, rfl⟩ := hl.of_nil
      exact absurd hh (lt_irrefl _)
  | cons x above ih =>
      cases above with
      | nil =>
          obtain rfl := List.mem_singleton.mp (hl.root_mem hh)
          rw [Withdraws, List.forall_mem_singleton, and_assoc]
      | cons y rest =>
          have hlt : h + 1 < rootHeight := by
            have := hl.uncons.1.uncons.1.height_le
            omega
          rw [Withdraws, ih hl.uncons.1 hlt, List.forall_mem_cons (a := x), and_assoc, and_assoc]

/-- The other link of a table that a root owns stands in the same place of another root. -/
lemma Fits.exists_links_iff (hfit : C.Fits o) {i : Index} (hl : C.Links o ⟨root, i⟩ f)
    (howned : (o ⟨root, i⟩).owned = true) :
    (∃ t, t ≠ ⟨root, i⟩ ∧ C.Links o t f) ↔
      ∃ other, C.IsRoot other ∧ other ≠ root ∧ (o ⟨other, i⟩).isTable = true ∧
        (o ⟨other, i⟩).frame = f := by
  constructor
  · rintro ⟨t, hne, ht⟩
    obtain ⟨-, ⟨-, hother⟩, -, hindex⟩ := (hfit.sole hl howned ht).resolve_left hne
    have ht' : t = ⟨t.table, i⟩ := Slot.ext rfl hindex
    refine ⟨t.table, hother, fun heq => hne (heq ▸ ht'), ?_, ?_⟩
    · rw [← ht']
      exact ht.isTable
    · rw [← ht']
      exact ht.frame
  · rintro ⟨other, hother, hne, htable, hframe⟩
    exact ⟨⟨other, i⟩, fun heq => hne (congrArg Slot.table heq), ⟨2, hother⟩, htable, hframe⟩

end Chart

namespace Manager

variable {A P : Type} [FrameSource A] [LawfulSource A]

lemma World.not_safe_of_links {w : World A P} {t : Slot} (ht : t.table ∈ w.roots)
    (htable : (w.manager.store.memory.entry t).isTable = true)
    (hfree : (w.manager.store.memory.entry t).frame ∈ freeFrames w.manager.store) : ¬ w.Safe :=
  fun hsafe => hsafe.notFree ht (.down (h := 2) (i := t.index) .root htable) hfree

variable [PagingControl P] {C : Chart} {m : Manager A P} {roots : Finset Frame} {root : Frame}
  {va : VirtAddr}

namespace World

/-- **Unmapping withdraws a table** if the way that it goes says so on the chart. -/
theorem withdraws_unmap_iff {path : Path} (hw : Sound C ⟨m, roots⟩)
    (hwalk : AddressSpace.walk ⟨root⟩ m.store.memory va = .ok (.ok path))
    (hpresent : (m.store.memory.entry path.slot).present = true)
    (hway : C.Way m.store.memory.outline root va 0 path) :
    World.Withdraws ⟨m, roots⟩ (.unmap root va) ↔
      C.Withdraws m.store.memory.outline m.store.memory.live 1 path.holders := by
  have hfit := hw.sound.describes.fits
  have hslot := hfit.links_of_mem_holders hway.isRoot hway.leads
    (hway.leads.root_mem (by decide))
  have hother : (∀ x ∈ path.holders, (m.store.memory.outline x).owned = true) →
      ((∃ t, t ≠ ⟨root, va.index rootHeight⟩ ∧ C.Links m.store.memory.outline t
          (m.store.memory.outline ⟨root, va.index rootHeight⟩).frame) ↔
        ∃ other, C.IsRoot other ∧ other ≠ root ∧
          (m.store.memory.outline ⟨other, va.index rootHeight⟩).isTable = true ∧
          (m.store.memory.outline ⟨other, va.index rootHeight⟩).frame =
            (m.store.memory.outline ⟨root, va.index rootHeight⟩).frame) := fun howned =>
    hfit.exists_links_iff hslot.1 (howned _ (hway.leads.root_mem (by decide)))
  rw [Chart.withdraws_one_iff hway.leads (by decide)]
  simp only [Memory.outline_apply, Entry.outline_owned, Entry.outline_isTable,
    Entry.outline_frame] at hother ⊢
  constructor
  · rintro ⟨⟨path', hwalk', -, hholders⟩, other, hmem, hne, htable, hframe⟩
    rw [hwalk] at hwalk'
    cases hwalk'
    refine ⟨hholders, (hother fun x hx => (hholders x hx).1).mpr ?_⟩
    exact ⟨other, (hw.isRoot other).mpr hmem, hne, htable, hframe⟩
  · rintro ⟨hholders, ht⟩
    obtain ⟨other, hmem, hne, htable, hframe⟩ := (hother fun x hx => (hholders x hx).1).mp ht
    exact ⟨⟨path, hwalk, hpresent, hholders⟩, other, (hw.isRoot other).mp hmem, hne, htable, hframe⟩

omit [PagingControl P] in
/-- Unmapping a page withdraws nothing while another page of its table is mapped. -/
lemma not_withdraws_of_beside {w : World A P} {va' : VirtAddr} (hd : C.Describes w.manager.store)
    (hroot : C.IsRoot root) (hlending : ¬ C.lending) (hva : va.isCanonical = true)
    (htable : Address.SameTable va va') (hne : va'.index 0 ≠ va.index 0)
    (hmapped : (w.manager.store.memory.outline.resolve root va').isSome = true) :
    ¬ w.Withdraws (.unmap root va) := by
  rintro ⟨⟨path, hwalk, hpresent, hholders⟩, -⟩
  have hisRoot : C.IsRoot (AddressSpace.mk root).root := hroot
  obtain ⟨result, hfind, hway⟩ := AddressSpace.find_eq hd hisRoot hva
  rw [AddressSpace.find_of_walk hwalk] at hfind
  cases hfind
  have hpage : Space.Solitary C root va path w.manager.store.memory := ⟨hway, hpresent, hholders⟩
  rw [hpage.resolve_beside hd hlending htable hne] at hmapped
  cases hmapped

/-- **In a sound world no table that can be reached is free.** -/
theorem Sound.safe {w : World A P} (hw : Sound C w) : Safe w := by
  have hd := hw.sound.describes
  have hisTable : ∀ {root t h}, root ∈ w.roots → w.manager.store.memory.Reaches root h t →
      C.IsTable t := fun hroot hr =>
    ⟨_, hd.fits.height_of_reaches ((hw.isRoot _).mpr hroot) hr⟩
  constructor
  case notFree => exact fun hroot hr => hd.notFree (hisTable hroot hr)
  case notNext =>
    intro root t h s hroot hr halloc
    obtain ⟨held, hheld, -⟩ := hd.held
    exact hd.notFree (hisTable hroot hr) (LawfulSource.alloc_some hheld halloc).1

/-- A new manager has a sound world. -/
lemma Starts.sound {w : World A P} (hstarts : Starts w) : ∃ C, Sound C w := by
  obtain @⟨s, s₀, held, space, machine, hheld, hcreate, hactive⟩ := hstarts
  have hend : Ensures AddressSpace.create noPanic s _ := AddressSpace.create_sound True True hheld
  obtain ⟨hs, -⟩ := hend.of_ok hcreate space rfl
  refine ⟨_, hs.of_eq rfl rfl, fun f => ?_, trivial, ?_, ?_⟩
  · rw [Chart.isRoot_single, Finset.mem_singleton]
  · exact Finset.mem_singleton.mpr hactive
  · exact Finset.mem_singleton.mpr hactive

end World

open World

variable [LawfulPaging P]

/-- Unmapping a page keeps the world sound, unless it withdraws a table: then the world that comes
of it is not safe. -/
lemma unmap_ensures (hw : Sound C ⟨m, roots⟩) (hroot : root ∈ roots) (va : VirtAddr) :
    Ensures (unmap root va : Action (Manager A P) _) anyPanic m fun _ m' =>
      (¬ World.Withdraws ⟨m, roots⟩ (.unmap root va) → ∃ C', Sound C' ⟨m', roots⟩) ∧
        (World.Withdraws ⟨m, roots⟩ (.unmap root va) → ¬ World.Safe ⟨m', roots⟩) := by
  have hisRoot : C.IsRoot (AddressSpace.mk root).root := (hw.isRoot root).mpr hroot
  refine (onStore_ensures (AddressSpace.unmap_ensures hw.sound.toSettled hisRoot
    fun _ _ => trivial)).bind ?_
  rintro r m₁ ⟨s₁, rfl, hend⟩
  rcases r with e | f
  · obtain ⟨rfl, -, habsent⟩ := hend
    refine .pure ⟨fun _ => ⟨C, hw⟩, ?_⟩
    rintro ⟨⟨path, hwalk, hpresent, -⟩, -⟩
    rw [habsent path hwalk] at hpresent
    cases hpresent
  · obtain ⟨path, hwalk, -, hpresent, -, hway, hkeep, hfreed⟩ := hend
    have hiff := withdraws_unmap_iff hw hwalk hpresent hway
    refine .bind_run (EStateM.run_modify ..) (.pure ⟨fun hno => ?_, fun hyes => ?_⟩)
    · obtain ⟨C', hev, hs', -⟩ := hkeep fun hwd => hno (hiff.mpr hwd)
      exact ⟨C', (hw.withStore hev.toKin hs').forget va.page⟩
    · obtain ⟨t, ht, htable, hfree⟩ := hfreed (hiff.mp hyes)
      exact not_safe_of_links ((hw.isRoot _).mp ht) htable hfree

/-! ## A page that is shared -/

section

variable {C C' : Chart} {m m₁ m₂ : Manager Pool P} {f : Frame} {pa : PhysAddr} {flags : Flags}
  {rest : List Frame} {path : Path} {s' : Store Pool}

omit [LawfulPaging P] in
/-- A root that shares the kernel half is made of the topmost frame. -/
lemma run_createKernelRoot (hw : World.Sound C ⟨m, roots⟩)
    (hfree : m.store.source.free = f :: rest) :
    ∃ m', (createKernelRoot : Action (Manager Pool P) _).run m = .ok (.ok f) m' ∧
      m'.store.source = { free := rest, outstanding := m.store.source.outstanding + 1 } ∧
      m'.store.memory.window = m.store.memory.window ∧
      (∀ t : Slot, t.table ≠ f → m'.store.memory.entry t = m.store.memory.entry t) ∧
      ∀ i, m'.store.memory.entry ⟨f, i⟩ = if i ∈ AddressSpace.kernelHalf then
        (m.store.memory.entry ⟨m.activeRoot, i⟩).shared else .absent := by
  have hd := hw.sound.describes
  have hf : f ∈ freeFrames m.store := List.mem_toFinset.mpr (hfree ▸ List.mem_cons_self ..)
  have hactive := (hw.isRoot _).mpr hw.active
  have hne : m.activeRoot ≠ f := fun heq => hd.notFree ⟨_, heq ▸ hactive⟩ hf
  have hcreate := Space.run_create (hd.fresh hf).2.2.1 hfree
  have hend : Ensures AddressSpace.create noPanic m.store _ :=
    AddressSpace.create_ensures hw.sound.toSettled
  obtain ⟨hnone, hs₁, -⟩ := hend.of_ok hcreate
  have hshare : Ensures (AddressSpace.shareKernelHalf ⟨f⟩ m.activeRoot) noPanic _ _ :=
    AddressSpace.shareKernelHalf_ensures hs₁ Chart.height_add_self
      (Chart.height_add_of_some hnone hactive) hne fun _ _ => .inl hw.lending
  obtain ⟨_, s₂, hrun, -, hshares, hsource⟩ := hshare.returns
  refine ⟨{ m with store := s₂ }, ?_, hsource, hshares.window, fun t ht => ?_, fun i => ?_⟩
  · rw [createKernelRoot, run_bind (run_onStore hcreate)]
    simp only []
    rw [run_bind (EStateM.run_get _), run_bind (run_onStore hrun)]
    rfl
  · rw [hshares.elsewhere fun heq => absurd heq ht, Memory.entry_clear, if_neg ht.symm]
  · split
    case isTrue hi => rw [hshares.here hi, Memory.entry_clear, if_neg hne.symm]
    case isFalse hi =>
      rw [hshares.elsewhere fun _ => hi, Memory.entry_clear, if_pos rfl]

/-- **The active root shares a page of its kernel half**: it maps the page in an empty region, and
the frame that is on top of the pool then becomes a root. -/
structure Sharing (C C' : Chart) (va : VirtAddr) (pa : PhysAddr) (flags : Flags)
    (m : Manager Pool P) (path : Path) (f : Frame) (m₁ m₂ : Manager Pool P) : Prop where
  map : (Manager.map m.activeRoot va pa flags).run m = .ok (.ok ()) m₁
  create : createKernelRoot.run m₁ = .ok (.ok f) m₂
  settles : Space.Settles C m.activeRoot va pa m.store C' path m₁.store
  top : ∃ rest, m₁.store.source.free = f :: rest ∧
    m₂.store.source = { free := rest, outstanding := m₁.store.source.outstanding + 1 }
  window : m₂.store.memory.window = m₁.store.memory.window
  /-- The new root has copies of the entries of the active one. -/
  copies (i : Index) : m₂.store.memory.entry ⟨f, i⟩ = if i ∈ AddressSpace.kernelHalf then
    (m₁.store.memory.entry ⟨m.activeRoot, i⟩).shared else .absent
  elsewhere {t : Slot} : t.table ≠ f → m₂.store.memory.entry t = m₁.store.memory.entry t

omit [LawfulPaging P] in
/-- Nothing changes for the page in the active root. -/
lemma Sharing.solitary (h : Sharing C C' va pa flags m path f m₁ m₂) :
    C'.Sound m₂.store ∧ ¬ C'.IsTable f ∧ f ∉ freeFrames m₂.store ∧
      Space.Solitary C' m.activeRoot va path m₂.store.memory := by
  obtain ⟨rest, hstack, hsource⟩ := h.top
  obtain ⟨hs, hnotTable, hnotFree⟩ := Space.sound_beside h.settles.sound hstack hsource h.window
    fun t => h.elsewhere
  refine ⟨hs, hnotTable, hnotFree, h.settles.congr h.settles.sound.describes fun t ht => ?_⟩
  exact h.elsewhere fun heq => hnotTable (heq ▸ ht)

/-- **A page can be shared** if its region is empty and there are frames for its tables and for
another root. -/
theorem exists_sharing (flags : Flags) (hw : Sound C' ⟨m, roots⟩) (hs : C.Sound m.store)
    (hlending : ¬ C.lending) (hroot : C.IsRoot m.activeRoot)
    (hunused : (m.store.memory.entry ⟨m.activeRoot, va.index rootHeight⟩).present = false)
    (hva : va.isCanonical = true) (hpa : pa.value.toNat < 2 ^ physicalAddressBits)
    (hfree : m.store.source.free.drop rootHeight = f :: rest) :
    ∃ C' path m₁ m₂, Sharing C C' va pa flags m path f m₁ m₂ := by
  have hlength : rootHeight ≤ m.store.source.free.length := by
    have hdrop := congrArg List.length hfree
    rw [List.length_drop, List.length_cons] at hdrop
    omega
  obtain ⟨path, C₁, s₁, hmap, hsettles⟩ :=
    Space.map_solitary flags hs hlending hroot hva hpa hunused hlength
  obtain ⟨m₁, hrun₁, rfl, hactive⟩ := run_map hmap
  obtain ⟨C₂, hw₁⟩ := (map_keeps hw hw.active va pa flags).of_ok hrun₁
  have hstack : m₁.store.source.free = f :: rest := hsettles.free.trans hfree
  obtain ⟨m₂, hrun₂, hsource, hwindow, helsewhere, hcopies⟩ := run_createKernelRoot hw₁ hstack
  rw [hactive] at hcopies
  exact ⟨C₁, path, m₁, m₂, hrun₁, hrun₂, hsettles, ⟨rest, hstack, hsource⟩, hwindow, hcopies,
    fun {t} => helsewhere t⟩

/-- On seven frames the first page of the kernel half is shared with the root in frame 5. -/
theorem exists_sharing_sample : ∃ C' path m₁ m₂, Sharing (Chart.single False True (.ofNumber 1)) C'
    ⟨0xffff800000000000⟩ ⟨0x5000⟩ ⟨2⟩ World.sample.manager path (.ofNumber 5) m₁ m₂ := by
  obtain ⟨C, hw⟩ := World.starts_sample.sound
  obtain ⟨hs, hblank⟩ := World.sound_sample
  refine exists_sharing ⟨2⟩ hw hs id (Chart.isRoot_single.mpr rfl) ?_ (by decide) (by decide) rfl
  rw [← Entry.outline_present, ← Memory.outline_apply]
  exact congrArg Entry.present (hblank _)

end

namespace World

/-- **One call** keeps the world sound, unless it withdraws a table: then the world that comes of it
is not safe. -/
theorem Sound.call {w : World A P} {call : Call} (hw : Sound C w) (hon : call.On w.roots) :
    Ensures call.run anyPanic w.manager fun made m' =>
      (¬ w.Withdraws call → ∃ C', Sound C' ⟨m', joined w.roots made⟩) ∧
        (w.Withdraws call → ¬ Safe ⟨m', joined w.roots made⟩) := by
  cases call with
  | createRoot => exact (createRoot_keeps hw).bind fun r m' hw' => .pure ⟨fun _ => hw', False.elim⟩
  | createKernelRoot =>
      exact (createKernelRoot_keeps hw).bind fun r m' hw' => .pure ⟨fun _ => hw', False.elim⟩
  | switch root =>
      have hswitch : Ensures (Manager.switch root) anyPanic w.manager fun _ m' =>
          Sound C ⟨m', w.roots⟩ :=
        (note_keeps hw).bind fun _ m₁ hw₁ => loadRoot_keeps hw₁ hon
      exact hswitch.bind fun _ m' hw' => .pure ⟨fun _ => ⟨C, hw'⟩, False.elim⟩
  | enablePaging root =>
      exact (enablePaging_keeps hw hon).discard.bind fun _ m' hw' =>
        .pure ⟨fun _ => ⟨C, hw'⟩, False.elim⟩
  | map root va pa flags =>
      exact (map_keeps hw hon va pa flags).discard.bind fun _ m' hw' =>
        .pure ⟨fun _ => hw', False.elim⟩
  | unmap root va =>
      exact (unmap_ensures hw hon va).discard.bind fun _ m' hw' => .pure hw'
  | identityMap va pa size flags =>
      exact (mapRangeFrom_keeps hw va pa flags 0 0 (size.toNat / pageSize)).discard.bind
        fun _ m' hw' => .pure ⟨fun _ => hw', False.elim⟩

/-- **One step** keeps the world sound, unless it withdraws a table: then it ends in a world that is
not safe. -/
theorem Sound.step {w w' : World A P} {call : Call} (hw : Sound C w) (hstep : Step w call w') :
    (¬ w.Withdraws call → ∃ C', Sound C' w') ∧ (w.Withdraws call → ¬ w'.Safe) := by
  obtain ⟨made, hmade, hroots⟩ := hstep.run
  obtain ⟨hkeep, hbreak⟩ := (hw.call hstep.on).of_ok hmade
  rw [← hroots] at hkeep hbreak
  exact ⟨hkeep, hbreak⟩

/-- **A world in which no table was withdrawn**, on a run that started with a manager on a new root.
-/
def Intact (w : World A P) : Prop :=
  ∃ w₀ steps, Starts w₀ ∧ Run w₀ steps w ∧ ∀ p ∈ steps, ¬ p.1.Withdraws p.2

/-- Such a world is sound. -/
lemma Intact.sound {w : World A P} (hw : w.Intact) : ∃ C, Sound C w := by
  obtain ⟨w₀, steps, hstarts, hrun, hkeep⟩ := hw
  have hsound := hstarts.sound
  clear hstarts
  induction hrun with
  | nil => exact hsound
  | cons hstep _ ih =>
      obtain ⟨hkeep, hrest⟩ := List.forall_mem_cons.mp hkeep
      obtain ⟨C, hw⟩ := hsound
      exact ih hrest ((hw.step hstep).1 hkeep)

/-- **All worlds of a run are safe if no call withdraws a table, and only then.**  The run starts
with a manager on a new root and makes any calls on that root and on those that it makes, in any
order; the worlds are those between its calls. -/
theorem safe_iff {w₀ w : World A P} {steps : List (World A P × Call)} (hstarts : Starts w₀)
    (hrun : Run w₀ steps w) :
    (∀ p ∈ steps, Safe p.1) ∧ Safe w ↔ ∀ p ∈ steps, ¬ p.1.Withdraws p.2 := by
  have hsound := hstarts.sound
  clear hstarts
  induction hrun with
  | nil w =>
      obtain ⟨C, hw⟩ := hsound
      exact ⟨fun _ p hp => (by cases hp), fun _ => ⟨fun p hp => (by cases hp), hw.safe⟩⟩
  | @cons w w₁ w₂ call steps hstep hrun ih =>
      obtain ⟨C, hw⟩ := hsound
      obtain ⟨hkeep, hbreak⟩ := hw.step hstep
      rw [List.forall_mem_cons, List.forall_mem_cons, and_assoc]
      by_cases hwd : w.Withdraws call
      · refine ⟨fun ⟨_, hsteps, hsafe⟩ => absurd ?_ (hbreak hwd), fun hno => absurd hwd hno.1⟩
        cases hrun with
        | nil => exact hsafe
        | cons => exact hsteps _ (List.mem_cons_self ..)
      · have hrest := ih (hkeep hwd)
        exact ⟨fun hsteps => ⟨hwd, hrest.mp hsteps.2⟩, fun hsteps => ⟨hw.safe, hrest.mpr hsteps.2⟩⟩

/-- A page of the kernel half is shared, and unmapped once there is another one in its table. -/
theorem safe_iff_sample : ∃ (steps : List (World Pool Recorder × Call)) (w : World Pool Recorder),
    Starts .sample ∧ Run .sample steps w ∧
      steps.map Prod.snd = [.map (.ofNumber 1) ⟨0xffff800000000000⟩ ⟨0x5000⟩ ⟨2⟩, .createKernelRoot,
        .map (.ofNumber 1) ⟨0xffff800000001000⟩ ⟨0x6000⟩ ⟨2⟩,
        .unmap (.ofNumber 1) ⟨0xffff800000000000⟩] ∧
      w.roots = {.ofNumber 5, .ofNumber 1} ∧ (∀ p ∈ steps, Safe p.1) ∧ Safe w := by
  obtain ⟨C, path, m₁, m₂, hshared⟩ := exists_sharing_sample
  obtain ⟨hsound, -, -, hsolitary⟩ := hshared.solitary
  have hpage : Space.Solitary C (.ofNumber 1) _ path m₂.store.memory := hsolitary
  have hlending : ¬ C.lending := hshared.settles.kin.lending ▸ id
  have htidy : C.tidy := hshared.settles.kin.tidy ▸ trivial
  have hs₂ : C.Serves False (.ofNumber 1) m₂.store :=
    ⟨hsound.toSettled, hpage.way.isRoot, hlending, hsound.describes.fits.borrowsOnce htidy hlending⟩
  have hbeside : Address.SameTable ⟨0xffff800000000000⟩ ⟨0xffff800000001000⟩ := by decide
  obtain ⟨C₃, e, s₃, hmap, hrebound, -⟩ := AddressSpace.run_map_beside hs₂ htidy
    ⟨0xffff800000001000⟩ ⟨0x6000⟩ ⟨2⟩ (by decide) (by decide)
    (hpage.resolve_beside hs₂.describes hlending hbeside (by decide))
    (by rw [hpage.resolve_eq]; rfl) (by decide)
  obtain ⟨m₃, hrun₃, rfl, -⟩ := run_map hmap
  have hs₃ := hrebound.serves hs₂
  obtain ⟨s₄, hunmap⟩ : ∃ s₄, (AddressSpace.unmap ⟨.ofNumber 1⟩ ⟨0xffff800000000000⟩).run
      m₃.store = .ok (.ok (m₂.store.memory.entry path.slot).outline.frame) s₄ := by
    refine AddressSpace.run_unmap_of_resolve hs₃ (by decide) ?_
    rw [hrebound.rebinds.elsewhere (by decide), hpage.resolve_eq]
  obtain ⟨m₄, hrun₄, -⟩ := run_unmap hunmap
  have hroot : Page.ofNumber 1 ∈ ({.ofNumber 5, .ofNumber 1} : Finset Frame) := by decide
  have hstep₁ : Step .sample (.map (.ofNumber 1) ⟨0xffff800000000000⟩ ⟨0x5000⟩ ⟨2⟩)
      ⟨m₁, {.ofNumber 1}⟩ :=
    ⟨Finset.mem_singleton_self _, none, run_bind (run_discard hshared.map), rfl⟩
  have hstep₂ : Step ⟨m₁, {.ofNumber 1}⟩ .createKernelRoot ⟨m₂, {.ofNumber 5, .ofNumber 1}⟩ :=
    ⟨trivial, some (.ofNumber 5), run_bind hshared.create, rfl⟩
  have hstep₃ : Step ⟨m₂, {.ofNumber 5, .ofNumber 1}⟩
      (.map (.ofNumber 1) ⟨0xffff800000001000⟩ ⟨0x6000⟩ ⟨2⟩) ⟨m₃, {.ofNumber 5, .ofNumber 1}⟩ :=
    ⟨hroot, none, run_bind (run_discard hrun₃), rfl⟩
  have hstep₄ : Step ⟨m₃, {.ofNumber 5, .ofNumber 1}⟩ (.unmap (.ofNumber 1) ⟨0xffff800000000000⟩)
      ⟨m₄, {.ofNumber 5, .ofNumber 1}⟩ :=
    ⟨hroot, none, run_bind (run_discard hrun₄), rfl⟩
  have hrun := Run.cons hstep₁ (.cons hstep₂ (.cons hstep₃ (.cons hstep₄ (.nil _))))
  refine ⟨_, _, starts_sample, hrun, rfl, rfl, (safe_iff starts_sample hrun).mpr ?_⟩
  have hkeep : ¬ World.Withdraws ⟨m₃, {.ofNumber 5, .ofNumber 1}⟩
      (.unmap (.ofNumber 1) ⟨0xffff800000000000⟩) :=
    not_withdraws_of_beside hs₃.describes hs₃.isRoot hs₃.lending (by decide) hbeside (by decide)
      (by rw [hrebound.resolve_eq]; rfl)
  simp only [List.forall_mem_cons]
  exact ⟨id, id, id, hkeep, fun p hp => by cases hp⟩

end World

end Manager

end KernelMemory
