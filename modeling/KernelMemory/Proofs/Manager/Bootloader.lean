import KernelMemory.Proofs.Manager.KernelHalf
import KernelMemory.Proofs.Manager.Recorded

/-!
# Tables of a bootloader

A bootloader leaves a root and tables below it that the source of frames knows nothing of.  The
kernel does not own them, makes roots that link them, and makes tables of its own below them.

* `BootTables` — tables as a bootloader leaves them: a tree without an owned link.
* `World.Together` — all roots agree on the kernel half, the bootloader's tables stay with the
  bootloader, and all others that are not in use have been given back.
* **`World.kernelHalf_run`** — so it is in every state that a run of calls reaches, and no call on
  the lower half of a root is noticed in another.
-/

namespace KernelMemory

variable {A P : Type} [FrameSource A] [LawfulSource A] {s : Store A} {boot f : Frame} {h : Nat}
  {x : Slot} {held : Finset Frame}

/-- **Tables as a bootloader leaves them**: a tree below a root, without an owned link, that the
source of frames knows nothing of.  In the kernel half, the root has nothing but links. -/
structure BootTables (s : Store A) (boot : Frame) : Prop where
  /-- What the root has in its kernel half are links. -/
  upper {i : Index} : kernelHalfStart ≤ i.val → (s.memory.entry ⟨boot, i⟩).present = true →
    (s.memory.entry ⟨boot, i⟩).isTable = true
  /-- No link is owned. -/
  unowned {h : Nat} {x : Slot} : s.memory.Reaches boot (h + 1) x.table →
    (s.memory.entry x).isTable = true → (s.memory.entry x).owned = false
  /-- No table is linked from two slots. -/
  once {h k : Nat} {x y : Slot} : s.memory.Reaches boot (h + 1) x.table →
    s.memory.Reaches boot (k + 1) y.table → (s.memory.entry x).isTable = true →
    (s.memory.entry y).isTable = true → (s.memory.entry y).frame = (s.memory.entry x).frame → y = x
  /-- No slot links the root. -/
  notRoot {h : Nat} {x : Slot} : s.memory.Reaches boot (h + 1) x.table →
    (s.memory.entry x).isTable = true → (s.memory.entry x).frame ≠ boot
  /-- All tables can be used. -/
  shown {h : Nat} {t : Frame} : s.memory.Reaches boot h t → s.memory.Shows t
  /-- No table is free. -/
  notFree {h : Nat} {t : Frame} : s.memory.Reaches boot h t → t ∉ freeFrames s
  /-- No table holds the books of the source. -/
  notBooks {h : Nat} {t : Frame} : s.memory.Reaches boot h t → ¬ Books s.source t

/-- The frame holds a table below a root. -/
def Memory.Below (m : Memory) (root f : Frame) : Prop :=
  ∃ h, m.Reaches root h f

namespace BootTables

lemma height_unique (hb : BootTables s boot) {k : Nat} (hr : s.memory.Reaches boot h f)
    (hk : s.memory.Reaches boot k f) : k = h := by
  induction hr generalizing k with
  | root =>
      rcases hk.eq_root_or_linked with ⟨rfl, -⟩ | ⟨y, hy, htable, hframe⟩
      · rfl
      · exact absurd hframe (hb.notRoot hy htable)
  | @down h t i ht htable ih =>
      rcases hk.eq_root_or_linked with ⟨-, hroot⟩ | ⟨y, hy, htable', hframe⟩
      · exact absurd hroot (hb.notRoot (x := ⟨t, i⟩) ht htable)
      · obtain rfl := hb.once (x := ⟨t, i⟩) ht hy htable htable' hframe
        exact Nat.succ.inj (ih hy)

/-- **The chart of a bootloader's tables**: all of them are foreign. -/
noncomputable def chart (m : Memory) (boot : Frame) : Chart :=
  { Space.chartOf m boot with foreign := m.Below boot, clean := False }

lemma height_chart (hb : BootTables s boot) (hr : s.memory.Reaches boot h f) :
    (chart s.memory boot).height f = some h :=
  Space.height_of_reaches (fun hk => hb.height_unique hr hk) hr

lemma isTable_chart (hb : BootTables s boot) :
    (chart s.memory boot).IsTable f ↔ s.memory.Below boot f :=
  ⟨fun ⟨h, hf⟩ => ⟨h, Space.reaches_of_height hf⟩, fun ⟨h, hr⟩ => ⟨h, hb.height_chart hr⟩⟩

lemma isRoot_chart (hb : BootTables s boot) : (chart s.memory boot).IsRoot f ↔ f = boot := by
  constructor
  · intro hf
    rcases (Space.reaches_of_height hf).eq_root_or_linked with ⟨-, rfl⟩ | ⟨x, hx, -⟩
    · rfl
    · exact absurd hx.height_le (by decide)
  · rintro rfl
    exact hb.height_chart .root

/-- A link of the chart is one of a table that can be reached, and nobody owns it. -/
lemma links_chart (hb : BootTables s boot) :
    (chart s.memory boot).Links s.memory.outline x f ↔
      (∃ h, s.memory.Reaches boot (h + 1) x.table) ∧ (s.memory.entry x).isTable = true ∧
        (s.memory.entry x).frame = f := by
  constructor
  · rintro ⟨⟨h, hx⟩, htable, hframe⟩
    exact ⟨⟨h, Space.reaches_of_height hx⟩, by simpa using htable, by simpa using hframe⟩
  · rintro ⟨⟨h, hr⟩, htable, hframe⟩
    exact ⟨⟨h, hb.height_chart hr⟩, by simpa using htable, by simpa using hframe⟩

lemma not_owned (hb : BootTables s boot)
    (hl : (chart s.memory boot).Links s.memory.outline x f) :
    (s.memory.outline x).owned ≠ true := by
  obtain ⟨⟨h, hr⟩, htable, -⟩ := hb.links_chart.mp hl
  simpa using hb.unowned hr htable

lemma fits (hb : BootTables s boot) : (chart s.memory boot).Fits s.memory.outline := by
  constructor
  case height_le => exact fun hf => (Space.reaches_of_height hf).height_le
  case child =>
    intro x f h hl hx
    obtain ⟨-, htable, rfl⟩ := hb.links_chart.mp hl
    exact hb.height_chart (.down (i := x.index) (Space.reaches_of_height hx) htable)
  case sole => exact fun hl ho => absurd ho (hb.not_owned hl)
  case known => exact fun hf => hb.isTable_chart.mpr hf
  case ours => exact fun hl ho => absurd ho (hb.not_owned hl)
  case unused => exact fun hclean => hclean.elim
  case inner => exact fun htidy => htidy.elim
  case leaf => exact fun htidy => htidy.elim

/-- **It describes the state**, in which no table is the kernel's. -/
theorem settled (hb : BootTables s boot) (hheld : Holds s held) :
    (chart s.memory boot).Settled True s where
  describes := {
    fits := hb.fits
    counted := fun _ _ hl howned => absurd howned (hb.not_owned hl)
    shown := fun hf => hb.shown (hb.isTable_chart.mp hf).choose_spec
    notFree := fun hf => hb.notFree (hb.isTable_chart.mp hf).choose_spec
    notBooks := fun hf => hb.notBooks (hb.isTable_chart.mp hf).choose_spec
    held := ⟨held, hheld, fun _ hf hours => absurd (hb.isTable_chart.mp hf) hours⟩ }
  busy := fun _ _ _ hl howned => absurd howned (hb.not_owned hl)

lemma oneHalf (hb : BootTables s boot) : (chart s.memory boot).OneHalf s.memory.outline
    fun i => (s.memory.entry ⟨boot, i⟩).present = true where
  borrowed {i} hi hused := by
    refine ⟨(s.memory.entry ⟨boot, i⟩).frame, fun root hroot => ?_⟩
    obtain rfl := hb.isRoot_chart.mp hroot
    have hl := hb.links_chart.mpr ⟨⟨2, .root⟩, hb.upper hi hused, rfl⟩
    exact ⟨hl, eq_false_of_ne_true (hb.not_owned hl)⟩
  unused {i root} _ hunused hroot := by
    obtain rfl := hb.isRoot_chart.mp hroot
    simpa using hunused
  apart x y f hx hy := by
    obtain ⟨⟨h, hr⟩, htable, hframe⟩ := hb.links_chart.mp hx.1
    obtain ⟨⟨k, hr'⟩, htable', hframe'⟩ := hb.links_chart.mp hy.1
    exact .inl (hb.once hr hr' htable htable' (hframe'.trans hframe.symm))
  rooted f hf := .inr (.inl (hb.isTable_chart.mp hf))
  known {f} hf := by
    obtain ⟨h, hr⟩ := hf
    rcases hr.eq_root_or_linked with ⟨rfl, rfl⟩ | ⟨x, hx, htable, hframe⟩
    · exact .inl (hb.isRoot_chart.mpr rfl)
    · have hl := hb.links_chart.mpr ⟨⟨h, hx⟩, htable, hframe⟩
      exact .inr ⟨x, hl, eq_false_of_ne_true (hb.not_owned hl)⟩

open Manager in
/-- **A manager that is started on a bootloader's root** has a world with a chart. -/
theorem booted [PagingControl P] {machine : P} (hb : BootTables s boot) (hheld : Holds s held)
    (hactive : PagingControl.activeRoot machine = boot) :
    World.Booted (chart s.memory boot) (s.memory.Below boot)
      (fun i => (s.memory.entry ⟨boot, i⟩).present = true) (freeFrames s)
      ⟨Manager.start machine s, {boot}⟩ := by
  have hstore : World.Booted (chart s.memory boot) (s.memory.Below boot)
      (fun i => (s.memory.entry ⟨boot, i⟩).present = true) (freeFrames s)
      ⟨⟨s, machine, PagingControl.activeRoot machine, false⟩, {boot}⟩ := by
    refine ⟨hb.settled hheld, fun f => ?_, fun f => Iff.rfl, id, hb.oneHalf, fun f => ?_, ?_⟩
    · rw [Finset.mem_singleton]
      exact hb.isRoot_chart
    · rw [hb.isTable_chart]
    · exact Finset.mem_singleton.mpr hactive
  have hstart : Restored False s (Manager.start machine s).store := .of_eq hheld rfl rfl
  exact hstore.restored hstart

/-! ### A bootloader with two tables -/

/-- The link of a root to its only table. -/
def sampleLink : Entry :=
  .ofWord 0x2003

/-- A root that links a table at the start of its kernel half, and five free frames. -/
def sample : Store Pool where
  memory := Memory.setEntry { window := { offset := 4096, frames? := some 8 } }
    ⟨.ofNumber 1, 256⟩ sampleLink
  source := { free := (List.range 5).map fun k => .ofNumber (3 + k) }

theorem entry_sample :
    sample.memory.entry x = if ⟨.ofNumber 1, 256⟩ = x then sampleLink else .absent := by
  have hblank : Memory.entry { window := { offset := 4096, frames? := some 8 } } x = .absent := by
    rw [Memory.entry, Memory.word_blank]
    decide
  rw [sample, Memory.entry_setEntry, hblank]

theorem isTable_sample :
    (sample.memory.entry x).isTable = true ↔ x = ⟨.ofNumber 1, 256⟩ := by
  rw [entry_sample]
  split
  · rename_i heq
    exact ⟨fun _ => heq.symm, fun _ => rfl⟩
  · rename_i hne
    exact ⟨fun h => (by cases h), fun heq => absurd heq.symm hne⟩

theorem reaches_sample (hr : sample.memory.Reaches (.ofNumber 1) h f) :
    h = 3 ∧ f = .ofNumber 1 ∨ h = 2 ∧ f = .ofNumber 2 := by
  induction hr with
  | root => exact .inl ⟨rfl, rfl⟩
  | @down h t i _ htable ih =>
      have heq := isTable_sample.mp htable
      have ht : t = .ofNumber 1 := (Slot.mk.inj heq).1
      rw [entry_sample, if_pos heq.symm]
      rcases ih with ⟨hh, -⟩ | ⟨-, ht'⟩
      · exact .inr ⟨Nat.succ.inj hh, by decide⟩
      · rw [ht] at ht'
        exact absurd ht' (by decide)

theorem holds_sample : Holds sample ∅ := by
  have hp : Pool.ofRange 3 5 = .ok sample.source := rfl
  refine Pool.holds_ofRange hp (by decide) fun k hk => Memory.shows_of_lt (n := 8) rfl ?_
  rw [Page.number_ofNumber (by omega)]
  omega

theorem bootTables_sample : BootTables sample (.ofNumber 1) := by
  have hframes : ∀ {h f}, sample.memory.Reaches (.ofNumber 1) h f →
      f = .ofNumber 1 ∨ f = .ofNumber 2 := fun hr => (reaches_sample hr).imp And.right And.right
  constructor
  case upper =>
    intro i _ hpresent
    rw [isTable_sample]
    rw [entry_sample] at hpresent
    split at hpresent
    · rename_i heq
      exact heq.symm
    · cases hpresent
  case unowned =>
    intro h x _ htable
    rw [isTable_sample.mp htable, entry_sample, if_pos rfl]
    rfl
  case once =>
    intro h k x y _ _ htable htable' _
    rw [isTable_sample.mp htable, isTable_sample.mp htable']
  case notRoot =>
    intro h x _ htable
    rw [isTable_sample.mp htable, entry_sample, if_pos rfl]
    decide
  case shown =>
    intro h t hr
    have hlt : t.number < 8 := by
      rcases hframes hr with rfl | rfl
      · decide
      · decide
    exact Memory.shows_of_lt (n := 8) rfl hlt
  case notFree =>
    intro h t hr
    rcases hframes hr with rfl | rfl
    · decide
    · decide
  case notBooks => exact fun _ => id

end BootTables

namespace Manager

variable [PagingControl P] {start : Finset Frame} {root : Frame} {va : VirtAddr}
  {tables : Frame → Prop} {used : Index → Prop}

/-! ## Runs -/

namespace World

/-- **All roots agree on the kernel half**, and the frames are where they should be, by what a
ledger says of them. -/
structure Together (tables : Frame → Prop) (w : World (Ledger A start) P) : Prop where
  /-- An address of the kernel half stands for the same under all roots. -/
  agree {va : VirtAddr} : va.isCanonical = true → va.InKernelHalf → ∃ answer, ∀ root ∈ w.roots,
    AddressSpace.translate ⟨root⟩ w.manager.store.memory va = .ok answer
  /-- The given tables were neither handed out nor given back. -/
  aside {f : Frame} : tables f →
    f ∉ w.manager.store.source.given ∧ f ∉ w.manager.store.source.returned
  /-- What was handed out and did not come back are roots, and tables with an entry that can be
  reached, each once. -/
  outstanding : ∃ kept : Finset Frame, (w.manager.store.source.given : Multiset Frame) =
    w.manager.store.source.returned + kept.val ∧ ∀ f ∈ kept, f ∈ w.roots ∨
      ∃ root ∈ w.roots, ∃ h < rootHeight, w.manager.store.memory.Reaches root h f ∧
        ∃ i, (w.manager.store.memory.entry ⟨f, i⟩).present = true

/-- **What a call does not do**: what happens to the lower half of a root is not noticed in another,
and no table without an entry is left. -/
structure Careful (tables : Frame → Prop) (w : World A P) (call : Call) (w' : World A P) :
    Prop where
  /-- Other roots do not notice what happens to the lower half of a root. -/
  unnoticed {root : Frame} {va : VirtAddr} : call.Targets root va →
    Unnoticed w.manager w'.manager w.roots root va
  /-- A table below any root that has no entry any more is free, whatever root the call was on. -/
  returned {root t : Frame} {h : Nat} : root ∈ w.roots →
    w.manager.store.memory.Reaches root h t → h < rootHeight → ¬ tables t →
    (∀ i, (w'.manager.store.memory.entry ⟨t, i⟩).present = false) →
    t ∈ freeFrames w'.manager.store

lemma Booted.together {C : Chart} {w : World (Ledger A start) P}
    (hw : Booted C tables used start w) (hnot : ∀ f ∈ start, ¬ tables f) :
    w.Together tables := by
  obtain ⟨held, hheld, -⟩ := hw.settled.describes.held
  have horder := Ledger.inOrder hheld
  refine ⟨hw.translate_eq, fun {f} hf => ?_, start \ freeFrames w.manager.store, ?_, fun f hf => ?_⟩
  · exact ⟨fun hgiven => hnot f (horder.given hgiven) hf,
      fun hreturned => hnot f (horder.returned hreturned) hf⟩
  · exact horder.given_eq
  · obtain ⟨hstart, hfree⟩ := Finset.mem_sdiff.mp hf
    exact hw.in_use hstart hfree (hnot f hstart)

variable [LawfulPaging P]

lemma Booted.careful {C : Chart} {w w' : World A P} {call : Call}
    (hw : Booted C tables used start w) (hcall : call.Within used)
    (hstep : Step w call w') : Careful tables w call w' := by
  obtain ⟨made, hmade, hroots⟩ := hstep.run
  obtain ⟨⟨C', hw'⟩, hnew, hunnoticed⟩ := (hw.call hstep.on hcall).of_ok hmade
  refine ⟨hunnoticed _ _, fun {root t h} hroot hr hlt hours hnone => ?_⟩
  have hheight := hw.height_of_reaches hroot hr
  -- If it were not free, it would still be a table of the kernel's, and have an entry.
  by_contra hfree
  have hstart := ((hw.conserved t).mp (.inl ⟨h, hheight⟩)).resolve_left hours
  have htable := hw'.isTable_of_start hstart hfree
  -- A root that the call has made was no table before.
  have hnotRoot : t ∉ joined w.roots made := by
    intro hmem
    have hisRoot : t ∈ w.roots := by
      cases made with
      | none => exact hmem
      | some new =>
          refine (Finset.mem_insert.mp hmem).resolve_left fun heq => ?_
          exact hnew new rfl (heq ▸ ⟨h, hheight⟩)
    have heq := ((hw.isRoot t).mpr hisRoot).symm.trans hheight
    exact (Nat.ne_of_gt hlt) (Option.some.inj heq)
  obtain ⟨i, hi⟩ := hw'.exists_present htable hours hnotRoot
  simp [hnone i] at hi

/-- **A run that starts with a bootloader's tables** and keeps to addresses that the bootloader has
tables for leaves all roots together, in any order of making roots, making them active, mapping and
unmapping.  A ledger that is kept beside the run bears witness of the frames. -/
theorem kernelHalf_run {machine : P} {w : World A P} {steps : List (World A P × Call)}
    (hheld : Holds s held) (hb : BootTables s boot)
    (hactive : PagingControl.activeRoot machine = boot)
    (hrun : Run ⟨Manager.start machine s, {boot}⟩ steps w)
    (hcalls : ∀ p ∈ steps, p.2.Within fun i => (s.memory.entry ⟨boot, i⟩).present = true) :
    ∃ lsteps, ∃ l : World (Ledger A (freeFrames s)) P,
      Run ⟨Manager.start machine (Ledger.opened s), {boot}⟩ lsteps l ∧
      plainSteps lsteps = steps ∧ l.plain = w ∧ l.Together (s.memory.Below boot) ∧
      ∀ call, call.On w.roots →
        (call.Within fun i => (s.memory.entry ⟨boot, i⟩).present = true) →
        ((∃ w', Step w call w') ∨ ∃ p, Refused w.manager call p) ∧
          ∀ w', Step w call w' → Careful (s.memory.Below boot) w call w' := by
  have hplain : World.plain ⟨Manager.start machine (Ledger.opened s), {boot}⟩ =
      ⟨Manager.start machine s, {boot}⟩ := rfl
  obtain ⟨lsteps, l, hlrun, hsteps, hl⟩ := hrun.lift hplain
  refine ⟨lsteps, l, hlrun, hsteps, hl, ?_, fun call hon hcall => ?_⟩
  · have hlcalls : ∀ p ∈ lsteps, p.2.Within fun i => (s.memory.entry ⟨boot, i⟩).present = true := by
      intro p hp
      refine hcalls (p.1.plain, p.2) (hsteps ▸ ?_)
      exact List.mem_map_of_mem hp
    have hbl : BootTables (Ledger.opened s) boot :=
      ⟨hb.upper, hb.unowned, hb.once, hb.notRoot, hb.shown, hb.notFree, hb.notBooks⟩
    obtain ⟨C, hw⟩ := (hbl.booted (Ledger.holds_opened hheld) hactive).run hlrun hlcalls
    exact hw.together fun f hf ⟨h, hr⟩ => hb.notFree hr hf
  · obtain ⟨C, hw⟩ := (hb.booted hheld hactive).run hrun hcalls
    refine ⟨(hw.call hon hcall).returns_or.imp_left ?_, fun w' hstep => hw.careful hcall hstep⟩
    rintro ⟨made, m', hrun', -⟩
    exact ⟨⟨m', joined w.roots made⟩, hon, made, hrun', rfl⟩

/-- A second root is made, and a page of the kernel half is mapped through the first one. -/
theorem kernelHalf_run_sample :
    ∃ (steps : List (World Pool Recorder × Call))
      (l : World (Ledger Pool (freeFrames BootTables.sample)) Recorder),
      Run ⟨Manager.start { root := .ofNumber 1 } BootTables.sample, {.ofNumber 1}⟩ steps l.plain ∧
      steps.map Prod.snd =
        [.createKernelRoot, .map (.ofNumber 1) ⟨0xffff800000000000⟩ ⟨0x5000⟩ ⟨2⟩] ∧
      l.Together (BootTables.sample.memory.Below (.ofNumber 1)) := by
  have hheld := BootTables.holds_sample
  have hb := BootTables.bootTables_sample
  have hactive : PagingControl.activeRoot ({ root := .ofNumber 1 } : Recorder) = .ofNumber 1 := rfl
  have hva : Call.Within (fun i => (BootTables.sample.memory.entry ⟨.ofNumber 1, i⟩).present = true)
      (.map (.ofNumber 1) ⟨0xffff800000000000⟩ ⟨0x5000⟩ ⟨2⟩) := by
    intro _ _
    rw [BootTables.entry_sample, if_pos (by decide)]
    rfl
  obtain ⟨-, -, -, -, -, -, hfirst⟩ := kernelHalf_run hheld hb hactive (.nil _) (by simp)
  obtain ⟨w₁, hstep₁⟩ := (hfirst .createKernelRoot trivial trivial).1.resolve_right
    fun ⟨_, _, hcall, _⟩ => by cases hcall
  have hroot : .ofNumber 1 ∈ w₁.roots := by
    obtain ⟨made, -, hroots⟩ := hstep₁.run
    rw [hroots]
    cases made with
    | none => exact Finset.mem_singleton_self _
    | some root => exact Finset.mem_insert_of_mem (Finset.mem_singleton_self _)
  obtain ⟨-, -, -, -, -, -, hsecond⟩ := kernelHalf_run hheld hb hactive
    (.cons hstep₁ (.nil w₁)) (List.forall_mem_singleton.mpr trivial)
  obtain ⟨w₂, hstep₂⟩ := (hsecond (.map (.ofNumber 1) ⟨0xffff800000000000⟩ ⟨0x5000⟩ ⟨2⟩) hroot
    hva).1.resolve_right fun ⟨_, _, hcall, _⟩ => by cases hcall
  obtain ⟨-, l, -, -, rfl, htogether, -⟩ := kernelHalf_run hheld hb hactive
    (.cons hstep₁ (.cons hstep₂ (.nil w₂)))
    (List.forall_mem_cons.mpr ⟨trivial, List.forall_mem_singleton.mpr hva⟩)
  exact ⟨_, l, .cons hstep₁ (.cons hstep₂ (.nil _)), rfl, htogether⟩

end World

end Manager

end KernelMemory
