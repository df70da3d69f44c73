import KernelMemory.Manager
import KernelMemory.Proofs.Frames.Pool
import KernelMemory.Proofs.Paging.Lawful
import KernelMemory.Proofs.Space.Orderly
import KernelMemory.Proofs.Space.Sharing

/-!
# Roots of one manager

A manager makes roots, some of which share the kernel half of another, and maps and unmaps pages
through any of them.  The tables behind a shared entry are owned by one root and linked by several.

* `Manager.World` — a manager and the roots that have been made; `World.Run` — a run of calls.
* `World.Safe` — no table that can be reached from a root is free.
* `World.Withdraws` — a call takes the last page from below an entry whose table another root links.
* **`World.Sound`** — a chart of all tables of a world, which every other call keeps.
-/

namespace KernelMemory.Manager

open KernelMemory.Action

variable {A P : Type} {C : Chart} {roots : Finset Frame} {root source : Frame} {va : VirtAddr}

/-! ## Calls and runs -/

/-- A call that may change the roots or what they map. -/
inductive Call where
  | createRoot
  | createKernelRoot
  | switch (root : Frame)
  | enablePaging (root : Frame)
  | map (root : Frame) (va : VirtAddr) (pa : PhysAddr) (flags : Flags)
  | unmap (root : Frame) (va : VirtAddr)
  | identityMap (va : VirtAddr) (pa : PhysAddr) (size : UInt64) (flags : Flags)

namespace Call

/-- The roots that a call names are among the given ones. -/
def On (roots : Finset Frame) : Call → Prop
  | switch root => root ∈ roots
  | enablePaging root => root ∈ roots
  | map root _ _ _ => root ∈ roots
  | unmap root _ => root ∈ roots
  | _ => True

/-- Makes a call, and gives the root that it has made. -/
def run [FrameSource A] [PagingControl P] : Call → Action (Manager A P) (Option Frame)
  | createRoot => return (← Manager.createRoot).toOption
  | createKernelRoot => return (← Manager.createKernelRoot).toOption
  | switch root => do
    Manager.switch root
    return none
  | enablePaging root => do
    discard (Manager.enablePaging root)
    return none
  | map root va pa flags => do
    discard (Manager.map root va pa flags)
    return none
  | unmap root va => do
    discard (Manager.unmap root va)
    return none
  | identityMap va pa size flags => do
    discard (Manager.identityMap va pa size flags)
    return none

end Call

/-- A manager, and the roots that it was started with or has made. -/
structure World (A P : Type) where
  manager : Manager A P
  roots : Finset Frame

/-- The roots with one that was made, if there is one. -/
def joined (roots : Finset Frame) : Option Frame → Finset Frame
  | none => roots
  | some root => insert root roots

namespace World

/-- A call on roots of the world leads to another world. -/
structure Step [FrameSource A] [PagingControl P] (w : World A P) (call : Call) (w' : World A P) :
    Prop where
  on : call.On w.roots
  run : ∃ made, call.run.run w.manager = .ok made w'.manager ∧ w'.roots = joined w.roots made

/-- A run of calls, each with the world in which it was made. -/
inductive Run [FrameSource A] [PagingControl P] :
    World A P → List (World A P × Call) → World A P → Prop
  | nil (w : World A P) : Run w [] w
  | cons {w w' w'' : World A P} {call : Call} {steps : List (World A P × Call)} :
      Step w call w' → Run w' steps w'' → Run w ((w, call) :: steps) w''

/-- A manager was started on a machine whose active root is a new one. -/
inductive Starts [FrameSource A] [LawfulSource A] [PagingControl P] : World A P → Prop
  | intro {s s₀ : Store A} {held : Finset Frame} {space : AddressSpace} {machine : P} :
      Holds s held → AddressSpace.create.run s = .ok (.ok space) s₀ →
      PagingControl.activeRoot machine = space.root →
      Starts { manager := Manager.start machine s₀, roots := {space.root} }

/-- A manager on the first of seven free frames. -/
def sample : World Pool Recorder where
  manager := start { root := .ofNumber 1 }
    { memory := (Pool.sample 7).memory.clear (.ofNumber 1)
      source := { free := (Pool.sample 7).source.free.tail, outstanding := 1 }
      log := #[.spaceCreated (.ofNumber 1)] }
  roots := {.ofNumber 1}

theorem starts_sample : Starts sample := by
  have hheld : Holds (Pool.sample 7) ∅ := Pool.holds_sample (by decide)
  have hcreate : AddressSpace.create.run (Pool.sample 7) = .ok (.ok ⟨.ofNumber 1⟩) _ := rfl
  exact .intro hheld hcreate rfl

/-- Its root is an address space of its own, with nothing in it. -/
theorem sound_sample : (Chart.single False True (.ofNumber 1)).Sound sample.manager.store ∧
    sample.manager.store.memory.outline.Blank (.ofNumber 1) := by
  have hheld : Holds (Pool.sample 7) ∅ := Pool.holds_sample (by decide)
  have hcreate : AddressSpace.create.run (Pool.sample 7) = .ok (.ok ⟨.ofNumber 1⟩) _ := rfl
  have hend : Ensures AddressSpace.create noPanic (Pool.sample 7) _ :=
    AddressSpace.create_sound False True hheld
  obtain ⟨hs, hblank⟩ := hend.of_ok hcreate _ rfl
  exact ⟨hs.of_eq rfl rfl, hblank⟩

/-- **No table that can be reached from a root is free**, and none is handed out next. -/
structure Safe [FrameSource A] [LawfulSource A] (w : World A P) : Prop where
  /-- No table is free. -/
  notFree {root t : Frame} {h : Nat} : root ∈ w.roots →
    w.manager.store.memory.Reaches root h t → t ∉ freeFrames w.manager.store
  /-- No table is handed out. -/
  notNext {root t : Frame} {h : Nat} {s : Store A} : root ∈ w.roots →
    w.manager.store.memory.Reaches root h t →
    (FrameSource.alloc : Action (Store A) _).run w.manager.store ≠ .ok (some t) s

/-- **A call withdraws a table**: it unmaps the last page below an entry of the root, and another
root links the table behind the entry. -/
def Withdraws (w : World A P) : Call → Prop
  | .unmap root va =>
    let m := w.manager.store.memory
    let i := va.index rootHeight
    (∃ path, AddressSpace.walk ⟨root⟩ m va = .ok (.ok path) ∧ (m.entry path.slot).present = true ∧
      ∀ x ∈ path.holders, (m.entry x).owned = true ∧ m.live x = 1) ∧
    ∃ other ∈ w.roots, other ≠ root ∧ (m.entry ⟨other, i⟩).isTable = true ∧
      (m.entry ⟨other, i⟩).frame = (m.entry ⟨root, i⟩).frame
  | _ => False

/-- **A chart of all tables of a world.**  Any root may lend the tables of its kernel half. -/
structure Sound [FrameSource A] [LawfulSource A] [PagingControl P] (C : Chart) (w : World A P) :
    Prop where
  sound : C.Sound w.manager.store
  isRoot (f : Frame) : C.IsRoot f ↔ f ∈ w.roots
  lending : C.lending
  active : w.manager.activeRoot ∈ w.roots
  kernel : w.manager.kernelRoot ∈ w.roots

end World

/-! ## Parts of a manager -/

lemma run_loadRoot [PagingControl P] {m : Manager A P} :
    (loadRoot root : Action (Manager A P) _).run m =
      match PagingControl.loadRoot m.machine root with
      | .ok machine => .ok () { m with machine }
      | .error p => .error p m := rfl

lemma activeRoot_forget [PagingControl P] [LawfulPaging P] (m : Manager A P) (page : VirtPage) :
    (m.forget page).activeRoot = m.activeRoot := by
  rw [activeRoot, forget, LawfulPaging.activeRoot_invalidate, LawfulPaging.activeRoot_observe,
    activeRoot]

lemma run_onStore {α : Type} {act : Action (Store A) α} {a : α} {s' : Store A} {m : Manager A P}
    (h : act.run m.store = .ok a s') :
    (onStore act : Action (Manager A P) α).run m = .ok a { m with store := s' } :=
  run_within h

lemma onStore_ensures {α : Type} {act : Action (Store A) α} {excuse : Panic → Prop}
    {post : α → Store A → Prop} {m : Manager A P} (h : Ensures act excuse m.store post) :
    Ensures (onStore act) excuse m fun a m' => ∃ s', m' = { m with store := s' } ∧ post a s' :=
  Ensures.within h

/-- A page that is mapped is invalidated too. -/
lemma run_map [FrameSource A] [PagingControl P] [LawfulPaging P] {m : Manager A P} {s' : Store A}
    {pa : PhysAddr} {flags : Flags}
    (hrun : (AddressSpace.map ⟨root⟩ va pa flags).run m.store = .ok (.ok ()) s') :
    ∃ m', (map root va pa flags : Action (Manager A P) _).run m = .ok (.ok ()) m' ∧
      m'.store = s' ∧ m'.activeRoot = m.activeRoot := by
  refine ⟨forget { m with store := s' } va.page, ?_, rfl, activeRoot_forget _ va.page⟩
  rw [map, run_bind (run_onStore hrun)]
  rfl

/-- A page that is unmapped is invalidated too. -/
lemma run_unmap [FrameSource A] [PagingControl P] {m : Manager A P} {s' : Store A} {f : Frame}
    (hrun : (AddressSpace.unmap ⟨root⟩ va).run m.store = .ok (.ok f) s') :
    ∃ m', (unmap root va : Action (Manager A P) _).run m = .ok (.ok f) m' ∧ m'.store = s' := by
  refine ⟨forget { m with store := s' } va.page, ?_, rfl⟩
  rw [unmap, run_bind (run_onStore hrun)]
  rfl

section

variable [FrameSource A] [LawfulSource A] [PagingControl P] {m : Manager A P} {C' : Chart}
  {s' : Store A}

namespace World.Sound

/-- The store may change as long as the roots stay. -/
lemma withStore (hw : Sound C ⟨m, roots⟩) (hkin : C.Kin C') (hs : C'.Settled False s') :
    Sound C' ⟨{ m with store := s' }, roots⟩ where
  sound := hw.sound.evolve hkin hs
  isRoot f := (hkin.isRoot f).trans (hw.isRoot f)
  lending := hkin.lending ▸ hw.lending
  active := hw.active
  kernel := hw.kernel

/-- The machine may change as long as its active root is one of the roots. -/
lemma withMachine (hw : Sound C ⟨m, roots⟩) {machine : P}
    (hactive : PagingControl.activeRoot machine ∈ roots) :
    Sound C ⟨{ m with machine }, roots⟩ where
  sound := hw.sound
  isRoot := hw.isRoot
  lending := hw.lending
  active := hactive
  kernel := hw.kernel

lemma forget [LawfulPaging P] (hw : Sound C ⟨m, roots⟩) (page : VirtPage) :
    Sound C ⟨m.forget page, roots⟩ := by
  have hactive : (m.forget page).activeRoot ∈ roots := by
    rw [activeRoot_forget]
    exact hw.active
  exact hw.withMachine hactive

/-- A new root joins the others. -/
lemma newRoot (hw : Sound C ⟨m, roots⟩) (hs : (C.add root rootHeight).Settled False s') :
    Sound (C.add root rootHeight) ⟨{ m with store := s' }, insert root roots⟩ where
  sound := ⟨hs, hw.sound.clean⟩
  isRoot f := by
    rw [Finset.mem_insert, ← hw.isRoot f]
    exact Chart.isRoot_add
  lending := hw.lending
  active := Finset.mem_insert_of_mem hw.active
  kernel := Finset.mem_insert_of_mem hw.kernel

end World.Sound

/-! ## One call -/

open World

lemma note_keeps (hw : Sound C ⟨m, roots⟩) {event : Log.Event} :
    Ensures (onStore (Store.note event) : Action (Manager A P) _) anyPanic m fun _ m' =>
      Sound C ⟨m', roots⟩ :=
  .of_run rfl (hw.withStore (.refl C) (hw.sound.toSettled.of_eq rfl rfl))

/-- Making a root keeps the world sound. -/
lemma createRoot_keeps (hw : Sound C ⟨m, roots⟩) :
    Ensures (createRoot : Action (Manager A P) _) anyPanic m fun r m' =>
      ∃ C', Sound C' ⟨m', joined roots r.toOption⟩ := by
  refine (onStore_ensures (AddressSpace.create_ensures hw.sound.toSettled)).bind ?_
  rintro r m' ⟨s', rfl, hend⟩
  refine .pure ?_
  rcases r with e | space
  · exact ⟨C, hw.withStore (.refl C) (hw.sound.toSettled.restored hend.2)⟩
  · exact ⟨_, hw.newRoot hend.2.1⟩

/-- Making a root that shares the kernel half of the active one keeps the world sound. -/
lemma createKernelRoot_keeps (hw : Sound C ⟨m, roots⟩) :
    Ensures (createKernelRoot : Action (Manager A P) _) anyPanic m fun r m' =>
      ∃ C', Sound C' ⟨m', joined roots r.toOption⟩ := by
  refine (onStore_ensures (AddressSpace.create_ensures hw.sound.toSettled)).bind ?_
  rintro r m' ⟨s', rfl, hend⟩
  rcases r with e | space
  · exact .pure ⟨C, hw.withStore (.refl C) (hw.sound.toSettled.restored hend.2)⟩
  · have hnone : C.height space.root = none := hend.1
    have hs' : (C.add space.root rootHeight).Settled False s' := hend.2.1
    have hw' := hw.newRoot hs'
    have hsource : (C.add space.root rootHeight).IsRoot m.activeRoot :=
      (hw'.isRoot _).mpr hw'.active
    have hne : m.activeRoot ≠ space.root := by
      intro heq
      have hroot := (hw.isRoot _).mpr hw.active
      rw [show World.manager ⟨m, roots⟩ = m from rfl, heq, Chart.IsRoot, hnone] at hroot
      cases hroot
    refine .bind_run (EStateM.run_get _) ((onStore_ensures (AddressSpace.shareKernelHalf_ensures hs'
      Chart.height_add_self hsource hne fun _ _ => .inl hw'.lending)).bind ?_)
    rintro _ m'' ⟨s'', rfl, hs'', -, -⟩
    exact .pure ⟨_, hw'.withStore (.refl _) hs''⟩

/-- Making a root active keeps the world sound. -/
lemma loadRoot_keeps [LawfulPaging P] (hw : Sound C ⟨m, roots⟩) (hroot : root ∈ roots) :
    Ensures (loadRoot root : Action (Manager A P) _) anyPanic m fun _ m' =>
      Sound C ⟨m', roots⟩ := by
  rw [Ensures, run_loadRoot]
  cases hload : PagingControl.loadRoot m.machine root with
  | error p => trivial
  | ok machine => exact hw.withMachine (by rwa [LawfulPaging.activeRoot_loadRoot hload])

/-- Turning paging on keeps the world sound. -/
lemma enablePaging_keeps [LawfulPaging P] (hw : Sound C ⟨m, roots⟩) (hroot : root ∈ roots) :
    Ensures (enablePaging root : Action (Manager A P) _) anyPanic m fun _ m' =>
      Sound C ⟨m', roots⟩ := by
  refine .bind_run (EStateM.run_get m) ?_
  split
  · exact .pure hw
  · refine (loadRoot_keeps hw hroot).bind fun _ m₁ hw₁ => ?_
    refine .bind_run (EStateM.run_modify ..) ?_
    have hw₂ : Sound C ⟨{ m₁ with
        machine := PagingControl.enable m₁.machine, pagingEnabled := true, kernelRoot := root },
        roots⟩ := by
      refine ⟨hw₁.sound, hw₁.isRoot, hw₁.lending, ?_, hroot⟩
      rw [activeRoot, LawfulPaging.activeRoot_enable]
      exact hw₁.active
    exact (note_keeps hw₂).bind fun _ m₃ hw₃ => .pure hw₃

/-- Mapping a page keeps the world sound. -/
lemma map_keeps [LawfulPaging P] (hw : Sound C ⟨m, roots⟩) (hroot : root ∈ roots)
    (va : VirtAddr) (pa : PhysAddr) (flags : Flags) :
    Ensures (map root va pa flags : Action (Manager A P) _) anyPanic m fun _ m' =>
      ∃ C', Sound C' ⟨m', roots⟩ := by
  have hisRoot : C.IsRoot (AddressSpace.mk root).root := (hw.isRoot root).mpr hroot
  refine (onStore_ensures (AddressSpace.map_ensures hw.sound.toSettled hisRoot
    (fun h : False => h.elim) fun _ _ => trivial)).bind ?_
  rintro r m₁ ⟨s₁, rfl, hend⟩
  rcases r with e | ⟨⟩
  · exact .pure ⟨C, hw.withStore (.refl C) (hw.sound.toSettled.restored hend)⟩
  · obtain ⟨-, -, C', hev, hs', -⟩ := hend
    refine .bind_run (EStateM.run_modify ..) (.pure ⟨C', ?_⟩)
    exact (hw.withStore hev.toKin hs').forget va.page

/-- Mapping a page of a range keeps the world sound. -/
lemma mapRangePage_keeps [LawfulPaging P] (hw : Sound C ⟨m, roots⟩) (va : VirtAddr)
    (pa : PhysAddr) (flags : Flags) (k : Nat) :
    Ensures (mapRangePage va pa flags k : Action (Manager A P) _) anyPanic m fun _ m' =>
      ∃ C', Sound C' ⟨m', roots⟩ := by
  refine (ofExcept_ensures fun _ _ => trivial).bind ?_
  rintro distance _ ⟨-, rfl⟩
  rcases advance va distance .virtualWraps with e | va'
  · exact .pure ⟨C, hw⟩
  · rcases advance pa distance .physicalWraps with e | pa'
    · exact .pure ⟨C, hw⟩
    · refine .bind_run (EStateM.run_get _) ((map_keeps hw hw.kernel va' pa' flags).bind ?_)
      rintro r m₁ ⟨C', hw'⟩
      rcases r with e | ⟨⟩
      · cases e
        case alreadyMapped => exact (note_keeps hw').bind fun _ m₂ hw₂ => .pure ⟨C', hw₂⟩
        all_goals exact .pure ⟨C', hw'⟩
      · exact .pure ⟨C', hw'⟩

/-- Mapping a range keeps the world sound, wherever it stops. -/
lemma mapRangeFrom_keeps [LawfulPaging P] (hw : Sound C ⟨m, roots⟩) (va : VirtAddr)
    (pa : PhysAddr) (flags : Flags) (k fresh count : Nat) :
    Ensures (mapRangeFrom va pa flags k fresh count : Action (Manager A P) _) anyPanic m fun _ m' =>
      ∃ C', Sound C' ⟨m', roots⟩ := by
  induction count generalizing C m k fresh with
  | zero => exact .pure ⟨C, hw⟩
  | succ count ih =>
      refine (mapRangePage_keeps hw va pa flags k).bind ?_
      rintro r m₁ ⟨C₁, hw₁⟩
      rcases r with e | isFresh
      · exact .pure ⟨C₁, hw₁⟩
      · refine (ofExcept_ensures fun _ _ => trivial).bind ?_
        rintro sum _ ⟨-, rfl⟩
        exact ih hw₁ (k + 1) sum

end

end KernelMemory.Manager
