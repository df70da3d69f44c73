import KernelMemory.Proofs.Manager.Worlds
import KernelMemory.Proofs.Space.KernelHalf

/-!
# Worlds with one kernel half

A manager that is started on the tables of a bootloader owns none of them.  The roots that it makes
borrow the kernel half of the active root, and so do all roots from then on.  The calls that map and
unmap below the entries of that half own the tables they make, which every root reaches.

* `Call.Within` — the calls in question.
* **`World.Booted`** — a chart of such a world, which every such call keeps.
* **`Booted.translate_eq`** — all roots agree on the kernel half.
* **`Booted.in_use`** — a frame that was handed out is a root, or a table with an entry.
-/

namespace KernelMemory.Manager

open KernelMemory.Action

variable {A P : Type} {C C' : Chart} {roots start : Finset Frame} {root source : Frame}
  {va : VirtAddr} {tables : Frame → Prop} {used : Index → Prop} {excuse : Panic → Prop}

/-! ## Calls below the entries that are in use -/

/-- The address may be used: in the kernel half, only addresses below entries that are in use are.
-/
def Reuses (used : Index → Prop) (va : VirtAddr) : Prop :=
  va.isCanonical = true → va.InKernelHalf → used (va.index rootHeight)

namespace Call

/-- The call makes a root with the kernel half of the active one, makes a root active, or maps or
unmaps a page at an address that may be used. -/
def Within (used : Index → Prop) : Call → Prop
  | createKernelRoot => True
  | switch _ => True
  | map _ va _ _ => Reuses used va
  | unmap _ va => Reuses used va
  | _ => False

/-- The call maps or unmaps a page at an address under a root. -/
def Targets (root : Frame) (va : VirtAddr) : Call → Prop
  | map root' va' _ _ => root' = root ∧ va' = va
  | unmap root' va' => root' = root ∧ va' = va
  | _ => False

end Call

/-- The machine does not load the root of a call. -/
def Refused [PagingControl P] (m : Manager A P) (call : Call) (p : Panic) : Prop :=
  ∃ root, call = .switch root ∧ PagingControl.loadRoot m.machine root = .error p

/-- **Other roots do not notice** what happens to the lower half of a root. -/
def Unnoticed (m m' : Manager A P) (roots : Finset Frame) (root : Frame) (va : VirtAddr) : Prop :=
  ¬ va.InKernelHalf → ∀ other ∈ roots, other ≠ root → ∀ va',
    AddressSpace.translate ⟨other⟩ m'.store.memory va' =
      AddressSpace.translate ⟨other⟩ m.store.memory va'

/-! ## The chart of a world -/

variable [FrameSource A] [LawfulSource A] [PagingControl P] {m : Manager A P} {s' : Store A}

/-- **A chart of a world that was started on foreign tables**, and with it all frames that were free
then. -/
structure World.Booted (C : Chart) (tables : Frame → Prop) (used : Index → Prop)
    (start : Finset Frame) (w : World A P) : Prop where
  settled : C.Settled True w.manager.store
  isRoot (f : Frame) : C.IsRoot f ↔ f ∈ w.roots
  foreign (f : Frame) : C.foreign f ↔ tables f
  lending : ¬ C.lending
  oneHalf : C.OneHalf w.manager.store.memory.outline used
  conserved (f : Frame) : C.IsTable f ∨ f ∈ freeFrames w.manager.store ↔ tables f ∨ f ∈ start
  active : w.manager.activeRoot ∈ w.roots

namespace World.Booted

/-- An operation on an address that may be used has changed the store. -/
lemma withStore (hw : Booted C tables used start ⟨m, roots⟩)
    (hev : C.Evolves C' root va m.store s') (hs : C'.Settled True s')
    (hva : va.InKernelHalf → used (va.index rootHeight)) :
    Booted C' tables used start ⟨{ m with store := s' }, roots⟩ where
  settled := hs
  isRoot f := (hev.isRoot f).trans (hw.isRoot f)
  foreign f := by
    rw [hev.foreign]
    exact hw.foreign f
  lending := hev.lending ▸ hw.lending
  oneHalf := hw.oneHalf.evolves hw.lending hev hva
  conserved f := (hev.conserved f).trans (hw.conserved f)
  active := hw.active

/-- Everything that matters in the store is as it was. -/
lemma restored {exact : Prop} (hw : Booted C tables used start ⟨m, roots⟩)
    (h : Restored exact m.store s') :
    Booted C tables used start ⟨{ m with store := s' }, roots⟩ := by
  have hev : C.Evolves C m.kernelRoot default m.store s' := h.evolves hw.settled.describes
  exact hw.withStore hev (hw.settled.restored h) fun hva =>
    absurd hva Address.not_inKernelHalf_default

lemma withMachine (hw : Booted C tables used start ⟨m, roots⟩) {machine : P}
    (hactive : PagingControl.activeRoot machine ∈ roots) :
    Booted C tables used start ⟨{ m with machine }, roots⟩ :=
  { hw with active := hactive }

lemma forget [LawfulPaging P] (hw : Booted C tables used start ⟨m, roots⟩) (page : VirtPage) :
    Booted C tables used start ⟨m.forget page, roots⟩ := by
  have hactive : (m.forget page).activeRoot ∈ roots := by
    rw [activeRoot_forget]
    exact hw.active
  exact hw.withMachine hactive

/-- **The entry for a page was replaced**, and the machine has dropped what it remembered of it. -/
theorem rewritten [LawfulPaging P] {e : Entry} (hw : Booted C tables used start ⟨m, roots⟩)
    (hva : va.InKernelHalf → used (va.index rootHeight)) (hev : C.Evolves C' root va m.store s')
    (hs : C'.Settled True s')
    (hrewrites : C.Rewrites m.store.memory.outline s'.memory.outline root va e) :
    let m' := Manager.forget { m with store := s' } va.page
    (∃ C', Booted C' tables used start ⟨m', roots⟩) ∧ Unnoticed m m' roots root va := by
  refine ⟨⟨C', (hw.withStore hev hs hva).forget va.page⟩, fun hlower other hother hne va' => ?_⟩
  have hother := (hw.isRoot other).mpr hother
  exact AddressSpace.translate_congr hw.settled.describes hs.describes hother
    ((hev.isRoot other).mpr hother)
    (hw.oneHalf.resolve_of_rewrites hw.lending hrewrites hlower hother hne)

/-- **A new root joins the others.** -/
theorem join (hw : Booted C tables used start ⟨m, roots⟩) (hnone : C.height root = none)
    (hs : (C.add root rootHeight).Settled True s') (hsource : C.IsRoot source)
    (hcopied : C.Copied m.store.memory.outline root source s'.memory.outline)
    (hfree : root ∈ freeFrames m.store) (hfree' : freeFrames s' = (freeFrames m.store).erase root) :
    Booted (C.add root rootHeight) tables used start
      ⟨{ m with store := s' }, insert root roots⟩ where
  settled := hs
  isRoot f := by
    rw [Finset.mem_insert, ← hw.isRoot f]
    exact Chart.isRoot_add
  foreign := hw.foreign
  lending := hw.lending
  oneHalf := hw.oneHalf.join hcopied hnone hsource
  conserved f := (Chart.isTable_add_or_mem hfree hfree').trans (hw.conserved f)
  active := Finset.mem_insert_of_mem hw.active

/-! ### What it says -/

variable {w : World A P} {f : Frame} {h : Nat}

/-- **All roots agree on an address of the kernel half.** -/
theorem translate_eq (hw : Booted C tables used start w) (hcanonical : va.isCanonical = true)
    (hva : va.InKernelHalf) : ∃ answer, ∀ root ∈ w.roots,
      AddressSpace.translate ⟨root⟩ w.manager.store.memory va = .ok answer := by
  have hd := hw.settled.describes
  have hactive := (hw.isRoot _).mpr hw.active
  obtain ⟨answer, hanswer⟩ : ∃ answer,
      AddressSpace.translate ⟨w.manager.activeRoot⟩ w.manager.store.memory va = .ok answer :=
    ⟨_, AddressSpace.translate_eq hd hactive hcanonical⟩
  refine ⟨answer, fun root hroot => ?_⟩
  have hisRoot := (hw.isRoot root).mpr hroot
  rw [← hanswer]
  exact AddressSpace.translate_congr hd hd hactive hisRoot
    (hw.oneHalf.resolve_eq hva hactive hisRoot)

lemma height_of_reaches (hw : Booted C tables used start w) (hroot : root ∈ w.roots)
    (hr : w.manager.store.memory.Reaches root h f) : C.height f = some h :=
  hw.settled.describes.fits.height_of_reaches ((hw.isRoot root).mpr hroot) hr

/-- A frame that was free at first and is not any more is a table. -/
lemma isTable_of_start (hw : Booted C tables used start w) (hf : f ∈ start)
    (hfree : f ∉ freeFrames w.manager.store) : C.IsTable f :=
  ((hw.conserved f).mpr (.inr hf)).resolve_right hfree

/-- **A table of the kernel's has an entry**, unless it is a root. -/
theorem exists_present (hw : Booted C tables used start w) (hf : C.IsTable f) (hours : ¬ tables f)
    (hroot : f ∉ w.roots) : ∃ i, (w.manager.store.memory.entry ⟨f, i⟩).present = true := by
  have hd := hw.settled.describes
  rcases hw.oneHalf.rooted f hf with hisRoot | hforeign | ⟨x, hx, howned⟩
  · exact absurd ((hw.isRoot f).mp hisRoot) hroot
  · exact absurd ((hw.foreign f).mp hforeign) hours
  · obtain ⟨h, hf⟩ := hf
    obtain ⟨i, hi⟩ :=
      Chart.Fits.exists_present hd.counted hw.settled.busy hw.lending hx howned hf
    exact ⟨i, by simpa using hi⟩

/-- **A frame that was free at first and is not any more** is a root, or a table with an entry that
can be reached from a root. -/
theorem in_use (hw : Booted C tables used start w) (hf : f ∈ start)
    (hfree : f ∉ freeFrames w.manager.store) (hours : ¬ tables f) : f ∈ w.roots ∨
      ∃ root ∈ w.roots, ∃ h < rootHeight, w.manager.store.memory.Reaches root h f ∧
        ∃ i, (w.manager.store.memory.entry ⟨f, i⟩).present = true := by
  have hd := hw.settled.describes
  by_cases hroot : f ∈ w.roots
  · exact .inl hroot
  · have htable := hw.isTable_of_start hf hfree
    obtain ⟨i, hi⟩ := hw.exists_present htable hours hroot
    obtain ⟨h, hheight⟩ := htable
    obtain ⟨root, va, holders, hisRoot, hl⟩ :=
      hd.fits.exists_leads (fun g hg => hw.oneHalf.linked hg) hheight
    refine .inr ⟨root, (hw.isRoot root).mp hisRoot, h, ?_, hl.reaches, i, hi⟩
    refine lt_of_le_of_ne hl.height_le fun heq => hroot ((hw.isRoot f).mp ?_)
    rw [Chart.IsRoot, hheight, heq]

end World.Booted

/-! ## One call -/

open World

/-- **Making a root** with the kernel half of the active one. -/
theorem createKernelRoot_booted (hw : Booted C tables used start ⟨m, roots⟩) :
    Ensures (createKernelRoot : Action (Manager A P) _) excuse m fun r m' =>
      (∃ C', Booted C' tables used start ⟨m', joined roots r.toOption⟩) ∧
        ∀ root, r = .ok root → ¬ C.IsTable root := by
  refine (onStore_ensures (AddressSpace.create_ensures hw.settled)).bind ?_
  rintro r m₁ ⟨s₁, rfl, hend⟩
  rcases r with e | space
  · exact .pure ⟨⟨C, hw.restored hend.2⟩, fun _ hr => by cases hr⟩
  · have hnone : C.height space.root = none := hend.1
    have hs₁ : (C.add space.root rootHeight).Settled True s₁ := hend.2.1
    obtain ⟨hsame, hblank, hfree, hfree₁⟩ := hend.2.2
    have hactive : C.IsRoot m.activeRoot := (hw.isRoot _).mpr hw.active
    have hshare : Ensures (space.shareKernelHalf m.activeRoot) excuse s₁ _ :=
      AddressSpace.shareKernelHalf_copies hw.oneHalf hnone hactive hs₁ hsame hblank
    refine .bind_run (EStateM.run_get _) ((onStore_ensures hshare).bind ?_)
    rintro _ m₂ ⟨s₂, rfl, hs₂, hcopied, hfree₂⟩
    refine .pure ⟨⟨_, hw.join hnone hs₂ hactive hcopied hfree (hfree₂.trans hfree₁)⟩, ?_⟩
    rintro root hr ⟨h, hf⟩
    cases hr
    rw [hnone] at hf
    cases hf

lemma switch_booted [LawfulPaging P] (hw : Booted C tables used start ⟨m, roots⟩)
    (hroot : root ∈ roots) :
    Ensures (switch root : Action (Manager A P) _) (Refused m (.switch root)) m fun _ m' =>
      Booted C tables used start ⟨m', roots⟩ := by
  obtain ⟨held, hheld, -⟩ := hw.settled.describes.held
  have hnote : Restored False m.store
      { m.store with log := m.store.log.push (.rootSwitched root) } := .of_eq hheld rfl rfl
  refine .bind_run (run_onStore Store.run_note) ?_
  rw [Ensures, run_loadRoot]
  cases hload : PagingControl.loadRoot m.machine root with
  | error p => exact ⟨root, rfl, hload⟩
  | ok machine =>
      refine (hw.restored hnote).withMachine ?_
      rwa [LawfulPaging.activeRoot_loadRoot hload]

variable [LawfulPaging P]

/-! ### Mapping and unmapping -/

lemma map_booted (hw : Booted C tables used start ⟨m, roots⟩) (hroot : root ∈ roots)
    (hva : Reuses used va) (pa : PhysAddr) (flags : Flags) :
    Ensures (map root va pa flags : Action (Manager A P) _) excuse m fun _ m' =>
      (∃ C', Booted C' tables used start ⟨m', roots⟩) ∧ Unnoticed m m' roots root va := by
  have hd := hw.settled.describes
  have hisRoot : C.IsRoot (AddressSpace.mk root).root := (hw.isRoot root).mpr hroot
  refine (onStore_ensures (AddressSpace.map_ensures hw.settled hisRoot (fun h : False => h.elim)
    fun h => absurd h hw.lending)).bind ?_
  rintro r m₁ ⟨s₁, rfl, hend⟩
  rcases r with e | ⟨⟩
  · refine .pure ⟨⟨C, hw.restored hend⟩, fun _ other hother _ va' => ?_⟩
    have hother := (hw.isRoot other).mpr hother
    exact AddressSpace.translate_congr hd (hend.describes hd) hother hother
      (hd.fits.resolve_congr (hend.keepsTables hd).outline hother)
  · obtain ⟨hcanonical, -, C', hev, hs', hrewrites⟩ := hend
    obtain ⟨e, -, -, -, hrewrites⟩ := hrewrites hw.lending
    exact .bind_run (EStateM.run_modify ..)
      (.pure (hw.rewritten (hva hcanonical) hev hs' hrewrites))

lemma unmap_booted (hw : Booted C tables used start ⟨m, roots⟩) (hroot : root ∈ roots)
    (hva : Reuses used va) :
    Ensures (unmap root va : Action (Manager A P) _) excuse m fun _ m' =>
      (∃ C', Booted C' tables used start ⟨m', roots⟩) ∧ Unnoticed m m' roots root va := by
  have hd := hw.settled.describes
  have hisRoot : C.IsRoot (AddressSpace.mk root).root := (hw.isRoot root).mpr hroot
  refine (onStore_ensures (AddressSpace.unmap_ensures hw.settled hisRoot
    fun h => absurd h hw.lending)).bind ?_
  rintro r m₁ ⟨s₁, rfl, hend⟩
  rcases r with e | f
  -- A failed call has changed nothing, and no root lends its tables, so that none is withdrawn.
  · obtain ⟨rfl, -⟩ := hend
    exact .pure ⟨⟨C, hw⟩, fun _ other _ _ va' => rfl⟩
  · obtain ⟨path, -, hcanonical, -, -, hway, hkeep, -⟩ := hend
    obtain ⟨C', hev, hs', hrewrites⟩ :=
      hkeep (hd.fits.not_withdraws hisRoot hway.leads hw.lending)
    exact .bind_run (EStateM.run_modify ..)
      (.pure (hw.rewritten (hva hcanonical) hev hs' (hrewrites hw.lending)))

/-- **One call** leads to a world with a chart, unless the machine refuses to load a root.  A root
that it makes is no table of before, and what it does to a lower half no other root notices. -/
theorem World.Booted.call {w : World A P} {call : Call} (hw : Booted C tables used start w)
    (hon : call.On w.roots) (hcall : call.Within used) :
    Ensures call.run (Refused w.manager call) w.manager fun made m' =>
      (∃ C', Booted C' tables used start ⟨m', joined w.roots made⟩) ∧
        (∀ root, made = some root → ¬ C.IsTable root) ∧
        ∀ root va, call.Targets root va → Unnoticed w.manager m' w.roots root va := by
  cases call with
  | createKernelRoot =>
      refine (createKernelRoot_booted hw).bind fun r m' ⟨hw', hnew⟩ => .pure ⟨hw', ?_, ?_⟩
      · rcases r with e | root
        · exact fun _ hr => by cases hr
        · exact fun _ hr => hnew _ (congrArg _ (Option.some.inj hr))
      · exact fun root va htargets => htargets.elim
  | switch root =>
      refine (switch_booted hw hon).bind fun _ m' hw' => .pure ⟨⟨C, hw'⟩, ?_, ?_⟩
      · exact fun _ hr => by cases hr
      · exact fun root va htargets => htargets.elim
  | map root va pa flags =>
      refine (map_booted hw hon hcall pa flags).discard.bind fun _ m' ⟨hw', hunnoticed⟩ =>
        .pure ⟨hw', ?_, ?_⟩
      · exact fun _ hr => by cases hr
      · rintro root' va' ⟨rfl, rfl⟩
        exact hunnoticed
  | unmap root va =>
      refine (unmap_booted hw hon hcall).discard.bind fun _ m' ⟨hw', hunnoticed⟩ =>
        .pure ⟨hw', ?_, ?_⟩
      · exact fun _ hr => by cases hr
      · rintro root' va' ⟨rfl, rfl⟩
        exact hunnoticed
  | createRoot => exact hcall.elim
  | enablePaging root => exact hcall.elim
  | identityMap va pa size flags => exact hcall.elim

/-- **A run of such calls** leads to a world with a chart. -/
theorem World.Booted.run {w₀ w : World A P} {steps : List (World A P × Call)}
    (hw : Booted C tables used start w₀) (hrun : Run w₀ steps w)
    (hcalls : ∀ p ∈ steps, p.2.Within used) : ∃ C', Booted C' tables used start w := by
  induction hrun generalizing C with
  | nil w => exact ⟨C, hw⟩
  | @cons w w₁ w₂ call steps hstep hrun ih =>
      obtain ⟨hcall, hrest⟩ := List.forall_mem_cons.mp hcalls
      obtain ⟨made, hmade, hroots⟩ := hstep.run
      obtain ⟨⟨C₁, hw₁⟩, -⟩ := (hw.call hstep.on hcall).of_ok hmade
      rw [← hroots] at hw₁
      exact ih hw₁ hrest

end KernelMemory.Manager
