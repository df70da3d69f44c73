import KernelMemory.Proofs.Manager.Operations
import KernelMemory.Proofs.Space.Room

/-!
# Invalidations over a run

What the machine remembers of a page is stale once the page has changed, until the machine is told
to drop it.  In any run of calls on a manager, and for any machine, a call tells the machine to drop
exactly the pages whose entry it has changed, in the order in which it changed them, and each before
the next one changes.

* `Manager.Request` — a call, on roots or on a root; `Manager.Run` — a run of calls.
* `Manager.Event.Obeys` — what a call tells the machine.
* **`Manager.operate_obeys`** — an operation on a well-formed root returns, obeys and leaves the
  root well-formed.
* **`Manager.run_invalidates`** — every call of every run obeys.
-/

namespace KernelMemory

/-- **Invalidations cover the changes** of a root: a page of which lookups give something else than
before was dropped, and lookups have given the same ever since. -/
def Memory.Covered (root : Frame) (m : Memory) (l : List Invalidation) (m' : Memory) : Prop :=
  ∀ va, ¬ m.SameAt root m' va → ∃ before i after, l = before ++ i :: after ∧ i.page = va.page ∧
    (∀ j ∈ after, j.page ≠ va.page ∧ i.memory.SameAt root j.memory va) ∧
    i.memory.SameAt root m' va

lemma Paced.covered {root : Frame} {m m' : Memory} {l : List Invalidation}
    (h : Paced root m l m') : m.Covered root l m' :=
  fun _ hchanged => h.last.resolve_left fun hsame => hchanged hsame.2

/-- The stand-in for a machine keeps a record of the pages. -/
lemma Recorder.invalidated_foldl (r : Recorder) (l : List Invalidation) :
    (l.foldl Invalidation.apply r).invalidated = r.invalidated ++ l.map Invalidation.page := by
  induction l generalizing r with
  | nil => simp
  | cons i l ih =>
      rw [List.foldl_cons, ih, List.map_cons]
      simp [Invalidation.apply, PagingControl.invalidate, PagingControl.observe]

namespace Manager

open KernelMemory.Action Chart

variable {A P : Type}

/-! ## Calls -/

/-- A call on a manager. -/
inductive Request where
  | operate (root : Frame) (op : Operation)
  | createRoot
  | createKernelRoot
  | switch (root : Frame)
  | enablePaging (root : Frame)

namespace Request

/-- What a call gives. -/
def Reply : Request → Type
  | operate _ op => op.Reply
  | createRoot => Except MapError Frame
  | createKernelRoot => Except MapError Frame
  | switch _ => Unit
  | enablePaging _ => Except MapError Unit

/-- Makes a call. -/
def run [FrameSource A] [PagingControl P] :
    (request : Request) → Action (Manager A P) request.Reply
  | operate root op => op.run root
  | createRoot => Manager.createRoot
  | createKernelRoot => Manager.createKernelRoot
  | switch root => Manager.switch root
  | enablePaging root => Manager.enablePaging root

/-- An operation is made on a well-formed root. -/
def Ready [FrameSource A] [LawfulSource A] (m : Manager A P) : Request → Prop
  | operate root op => Space.WellFormed m.store root ∧ (op.OnKernel → m.kernelRoot = root)
  | _ => True

end Request

/-- A call that was made, with the manager before it and after. -/
structure Event (A P : Type) where
  before : Manager A P
  request : Request
  reply : request.Reply
  after : Manager A P

/-- **A run of calls** on well-formed roots. -/
inductive Run [FrameSource A] [LawfulSource A] [PagingControl P] :
    Manager A P → List (Event A P) → Manager A P → Prop
  | nil (m : Manager A P) : Run m [] m
  | cons {m m₁ m' : Manager A P} {request : Request} {reply : request.Reply}
      {events : List (Event A P)} :
      request.Ready m → request.run.run m = .ok reply m₁ → Run m₁ events m' →
      Run m (⟨m, request, reply, m₁⟩ :: events) m'

/-- **What a call tells the machine.**  An operation has it drop pages, one after the other: they
are those that the operation has changed, and each is dropped after its own change.  The other calls
have it drop nothing. -/
def Event.Obeys [FrameSource A] [PagingControl P] : Event A P → Prop
  | ⟨m, .operate root op, reply, m'⟩ => ∃ l : List Invalidation,
      m'.machine = l.foldl Invalidation.apply m.machine ∧
      op.Drops root m reply m' (l.map Invalidation.page) ∧
      Paced root m.store.memory l m'.store.memory ∧
      m.store.memory.Covered root l m'.store.memory
  | ⟨m, .createRoot, _, m'⟩ => m'.machine = m.machine
  | ⟨m, .createKernelRoot, _, m'⟩ => m'.machine = m.machine
  | ⟨m, .switch root, _, m'⟩ => PagingControl.loadRoot m.machine root = .ok m'.machine
  | ⟨m, .enablePaging _, .error _, m'⟩ => m'.machine = m.machine
  | ⟨m, .enablePaging root, .ok _, m'⟩ => ∃ machine,
      PagingControl.loadRoot m.machine root = .ok machine ∧
        m'.machine = PagingControl.enable machine

variable {m m' : Manager A P} {root : Frame}

/-! ## Calls that leave pages alone -/

/-- What is done to the store is not told the machine. -/
lemma machine_onStore {α : Type} {act : Action (Store A) α} :
    Ensures (onStore act : Action (Manager A P) α) anyPanic m fun _ m' =>
      m'.machine = m.machine :=
  (onStore_ensures ensures_run).mono fun _ _ ⟨_, h, _⟩ => h ▸ rfl

lemma machine_createRoot [FrameSource A] :
    Ensures (createRoot : Action (Manager A P) _) anyPanic m fun _ m' =>
      m'.machine = m.machine :=
  machine_onStore.bind fun _ _ h => .pure h

variable [PagingControl P]

lemma machine_createKernelRoot [FrameSource A] :
    Ensures (createKernelRoot : Action (Manager A P) _) anyPanic m fun _ m' =>
      m'.machine = m.machine := by
  refine machine_onStore.bind fun r m₁ h => ?_
  rcases r with e | space
  · exact .pure h
  · exact .bind_run (EStateM.run_get _) (machine_onStore.bind fun _ m₂ h' => .pure (h'.trans h))

lemma machine_loadRoot :
    Ensures (loadRoot root : Action (Manager A P) _) anyPanic m fun _ m' =>
      PagingControl.loadRoot m.machine root = .ok m'.machine := by
  rw [Ensures, run_loadRoot]
  cases PagingControl.loadRoot m.machine root with
  | error p => trivial
  | ok machine => rfl

lemma machine_switch :
    Ensures (switch root : Action (Manager A P) _) anyPanic m fun _ m' =>
      PagingControl.loadRoot m.machine root = .ok m'.machine :=
  machine_onStore.bind fun _ _ h => h ▸ machine_loadRoot

lemma machine_enablePaging :
    Ensures (enablePaging root : Action (Manager A P) _) anyPanic m fun r m' => match r with
      | .error _ => m'.machine = m.machine
      | .ok _ => ∃ machine, PagingControl.loadRoot m.machine root = .ok machine ∧
          m'.machine = PagingControl.enable machine := by
  refine .bind_run (EStateM.run_get m) ?_
  split
  · exact .pure rfl
  · refine machine_loadRoot.bind fun _ m₁ h => .bind_run (EStateM.run_modify ..) ?_
    exact machine_onStore.bind fun _ m₂ h' => .pure ⟨m₁.machine, h, h'⟩

/-! ## Every call -/

variable [FrameSource A] [LawfulSource A]

/-- **An operation on a well-formed root** returns, tells the machine what it should, and leaves the
root well-formed. -/
theorem operate_obeys {op : Operation} (hready : (Request.operate root op).Ready m) :
    ∃ reply m', (op.run root).run m = .ok reply m' ∧
      Event.Obeys ⟨m, .operate root op, reply, m'⟩ ∧ Space.WellFormed m'.store root ∧
      m'.kernelRoot = m.kernelRoot := by
  obtain ⟨hwell, hroot⟩ := hready
  obtain ⟨C, hs, hclean⟩ := wellFormed_iff_serves.mp hwell
  obtain ⟨reply, m', hrun, C', l, heffect, hdrops⟩ := (op.effect hs hroot).returns
  refine ⟨reply, m', hrun, ⟨l, heffect.machine, hdrops, heffect.paced, heffect.paced.covered⟩, ?_,
    heffect.kernelRoot⟩
  exact wellFormed_iff_serves.mpr ⟨C', heffect.serves, heffect.carries.clean ▸ hclean⟩

/-- One call obeys. -/
lemma call_obeys {request : Request} {reply : request.Reply} (hready : request.Ready m)
    (hrun : request.run.run m = .ok reply m') : Event.Obeys ⟨m, request, reply, m'⟩ := by
  cases request with
  | operate root op =>
      obtain ⟨reply', m'', hrun', hobeys, -⟩ := operate_obeys hready
      have heq : EStateM.Result.ok reply' m'' = .ok reply m' := hrun'.symm.trans hrun
      cases heq
      exact hobeys
  | createRoot => exact machine_createRoot.of_ok hrun
  | createKernelRoot => exact machine_createKernelRoot.of_ok hrun
  | switch root => exact machine_switch.of_ok hrun
  | enablePaging root =>
      have hend := machine_enablePaging.of_ok hrun
      rcases reply with err | ⟨⟩
      · exact hend
      · exact hend

/-- **In every run of calls on well-formed roots, every call drops exactly the pages that it has
changed**, in the order in which it changed them and each after its change. -/
theorem run_invalidates {events : List (Event A P)} (hrun : Run m events m') :
    ∀ e ∈ events, e.Obeys := by
  induction hrun with
  | nil m => exact fun e he => by cases he
  | cons hready hcall _ ih => exact List.forall_mem_cons.mpr ⟨call_obeys hready hcall, ih⟩

/-- The stand-in for a machine has on record what an operation has dropped. -/
lemma Event.Obeys.invalidated {A : Type} [FrameSource A] {m m' : Manager A Recorder}
    {root : Frame} {op : Operation} {reply : op.Reply}
    (h : Event.Obeys ⟨m, .operate root op, reply, m'⟩) :
    ∃ pages, op.Drops root m reply m' pages ∧
      m'.machine.invalidated = m.machine.invalidated ++ pages := by
  obtain ⟨l, hmachine, hdrops, -⟩ := h
  exact ⟨_, hdrops, hmachine ▸ m.machine.invalidated_foldl l⟩

/-- Operations may be made on the root of the sample. -/
theorem World.serves_sample :
    (single False True (.ofNumber 1)).Serves False (.ofNumber 1) World.sample.manager.store := by
  obtain ⟨hsound, -⟩ := World.sound_sample
  exact ⟨hsound.toSettled, isRoot_single.mpr rfl, id,
    hsound.describes.fits.borrowsOnce trivial id⟩

theorem wellFormed_sample : Space.WellFormed World.sample.manager.store (.ofNumber 1) :=
  wellFormed_iff_serves.mpr ⟨_, World.serves_sample, World.sound_sample.1.clean⟩

/-- Two pages of one table are mapped, and the first one is unmapped. -/
theorem run_invalidates_sample : ∃ (events : List (Event Pool Recorder))
    (m' : Manager Pool Recorder), Run World.sample.manager events m' ∧
      events.map Event.request = [.operate (.ofNumber 1) (.map ⟨0x1000⟩ ⟨0x5000⟩ ⟨2⟩),
        .operate (.ofNumber 1) (.map ⟨0x2000⟩ ⟨0x6000⟩ ⟨2⟩),
        .operate (.ofNumber 1) (.unmap ⟨0x1000⟩)] ∧
      (∀ e ∈ events, e.Obeys) ∧ m'.machine.invalidated =
        [Address.page ⟨0x1000⟩, Address.page ⟨0x2000⟩, Address.page ⟨0x1000⟩] := by
  obtain ⟨hsound, hblank⟩ := World.sound_sample
  have hs₀ := World.serves_sample
  have hnone : ∀ va, World.sample.manager.store.memory.outline.resolve (.ofNumber 1) va = none :=
    fun va => by rw [Outline.resolve, hblank, Outline.follow_absent]
  have hcard : rootHeight ≤ (freeFrames World.sample.manager.store).card := by decide
  obtain ⟨C₁, e₁, s₁, hmap₁, h₁, -⟩ := AddressSpace.run_map_of_room hs₀ ⟨0x1000⟩ ⟨0x5000⟩ ⟨2⟩
    (by decide) (by decide) (hnone _) (Outline.lacks_le.trans hcard)
  obtain ⟨m₁, hrun₁, rfl, -⟩ := run_map hmap₁
  have hs₁ := h₁.serves hs₀
  obtain ⟨C₂, e₂, s₂, hmap₂, h₂, -⟩ := AddressSpace.run_map_beside hs₁
    (h₁.evolves.tidy ▸ trivial) ⟨0x2000⟩ ⟨0x6000⟩ ⟨2⟩ (by decide) (by decide)
    ((h₁.rebinds.elsewhere (by decide)).trans (hnone _)) (by rw [h₁.resolve_eq]; rfl) (by decide)
  obtain ⟨m₂, hrun₂, rfl, -⟩ := run_map hmap₂
  have hs₂ := h₂.serves hs₁
  obtain ⟨s₃, hunmap⟩ : ∃ s₃, (AddressSpace.unmap ⟨.ofNumber 1⟩ ⟨0x1000⟩).run m₂.store =
      .ok (.ok e₁.frame) s₃ :=
    AddressSpace.run_unmap_of_resolve hs₂ (by decide)
      ((h₂.rebinds.elsewhere (by decide)).trans h₁.resolve_eq)
  obtain ⟨m₃, hrun₃, -⟩ := run_unmap hunmap
  have hclean₁ : C₁.clean := h₁.evolves.clean ▸ hsound.clean
  have hclean₂ : C₂.clean := h₂.evolves.clean ▸ hclean₁
  have hready : ∀ {C : Chart} {m : Manager Pool Recorder} {op : Operation},
      C.Serves False (.ofNumber 1) m.store → C.clean → ¬ op.OnKernel →
        (Request.operate (.ofNumber 1) op).Ready m := fun hs hclean hop =>
    ⟨wellFormed_iff_serves.mpr ⟨_, hs, hclean⟩, fun h => absurd h hop⟩
  have hrun : Run World.sample.manager
      [⟨World.sample.manager, .operate _ (.map ⟨0x1000⟩ ⟨0x5000⟩ ⟨2⟩),
          (.ok () : Except MapError Unit), m₁⟩,
        ⟨m₁, .operate _ (.map ⟨0x2000⟩ ⟨0x6000⟩ ⟨2⟩), (.ok () : Except MapError Unit), m₂⟩,
        ⟨m₂, .operate _ (.unmap ⟨0x1000⟩), (.ok e₁.frame : Except MapError Frame), m₃⟩] m₃ :=
    .cons (hready hs₀ hsound.clean id) hrun₁ (.cons (hready hs₁ hclean₁ id) hrun₂
      (.cons (hready hs₂ hclean₂ id) hrun₃ (.nil m₃)))
  have hobeys := run_invalidates hrun
  simp only [List.forall_mem_cons] at hobeys
  obtain ⟨hobeys₁, hobeys₂, hobeys₃, -⟩ := hobeys
  obtain ⟨_, rfl, hrecord₁⟩ := hobeys₁.invalidated
  obtain ⟨_, rfl, hrecord₂⟩ := hobeys₂.invalidated
  obtain ⟨_, rfl, hrecord₃⟩ := hobeys₃.invalidated
  refine ⟨_, m₃, hrun, rfl, run_invalidates hrun, ?_⟩
  rw [hrecord₃, hrecord₂, hrecord₁]
  rfl

end Manager

end KernelMemory
