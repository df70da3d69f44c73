import KernelMemory.Proofs.Manager.Conservation
import KernelMemory.Proofs.Manager.Invalidation

/-!
# No operation panics

Counts of children stay in their fields, frames are named by entries that have room for them, and
what a manager gives back to its source the source has lent.  So no check fails whatever a manager
is asked for on the roots that it made itself, wherever addresses and sizes lie and whatever the
flags say.

* `System.Run` — the systems that calls, switches between roots and turning paging on lead to.
* **`System.Sound.run`** — they are sound.
* `System.Responds`, `System.Steady` — every operation returns; on every run over a store it does.
* **`System.steady`** — over a pool, an installed bitmap and a bitmap that was never installed.
-/

namespace KernelMemory

namespace Manager

open KernelMemory.Action

variable {A P : Type} [PagingControl P] {m : Manager A P} {root : Frame}

/-- Another manager of the same memory and source. -/
structure Alongside (m m' : Manager A P) : Prop where
  source : m'.store.source = m.store.source
  memory : m'.store.memory = m.store.memory

omit [PagingControl P] in
lemma note_alongside (event : Log.Event) :
    Ensures (onStore (Store.note event)) anyPanic m fun _ m' => Alongside m m' :=
  .of_run rfl ⟨rfl, rfl⟩

lemma loadRoot_alongside : Ensures (loadRoot root) anyPanic m fun _ m' => Alongside m m' := by
  rw [Ensures, run_loadRoot]
  cases PagingControl.loadRoot m.machine root with
  | error p => trivial
  | ok machine => exact ⟨rfl, rfl⟩

lemma switch_alongside : Ensures (switch root) anyPanic m fun _ m' => Alongside m m' := by
  refine (note_alongside _).bind fun _ m₁ h₁ => loadRoot_alongside.mono fun _ m₂ h₂ => ?_
  exact ⟨h₂.source.trans h₁.source, h₂.memory.trans h₁.memory⟩

lemma enablePaging_alongside :
    Ensures (enablePaging root) anyPanic m fun _ m' => Alongside m m' := by
  refine .bind_run (EStateM.run_get m) ?_
  split
  · exact .pure ⟨rfl, rfl⟩
  · refine loadRoot_alongside.bind fun _ m₁ h₁ => .bind_run (EStateM.run_modify ..) ?_
    refine (note_alongside _).bind fun _ m₂ h₂ => .pure ?_
    exact ⟨h₂.source.trans h₁.source, h₂.memory.trans h₁.memory⟩

end Manager

namespace System

open KernelMemory.Action LawfulSource

variable {A P : Type}

/-! ## Runs -/

/-- **The systems that a run leads to**: permitted calls, switches between the roots that were made
and turning paging on through one of them, in any order. -/
inductive Run [FrameSource A] [PagingControl P] (w₀ : System A P) : System A P → Prop
  | start : Run w₀ w₀
  | call {w w' : System A P} {call : Call P} : Run w₀ w → call.Permitted w →
      call.run.run w = .ok () w' → Run w₀ w'
  | switch {w : System A P} {m : Manager A P} {root : Frame} : Run w₀ w → root ∈ w.roots →
      (Manager.switch root).run w.manager = .ok () m → Run w₀ { w with manager := m }
  | enablePaging {w : System A P} {m : Manager A P} {root : Frame} {r : Except MapError Unit} :
      Run w₀ w → root ∈ w.roots → (Manager.enablePaging root).run w.manager = .ok r m →
      Run w₀ { w with manager := m }

/-- **Every operation returns** that is made on a root of the system. -/
def Responds [FrameSource A] [PagingControl P] (w : System A P) : Prop :=
  ∀ (root : Frame) (op : Manager.Operation), root ∈ w.roots →
    (op.OnKernel → w.manager.kernelRoot = root) →
    ∃ reply m', (op.run root).run w.manager = .ok reply m'

/-- **On every run over a store every operation returns**, for any machine. -/
def Steady [FrameSource A] (s : Store A) : Prop :=
  ∀ (P : Type) [PagingControl P] (m : Manager A P), m.store = s →
    ∀ w, Run { manager := m } w → w.Responds

/-! ## Sound systems -/

section

variable [FrameSource A] [LawfulSource A] [PagingControl P] {C : Chart} {start : Finset Frame}
  {w w₀ : System A P}

namespace Sound

/-- **Runs lead to sound systems.** -/
theorem run [UsableSource A] (hw₀ : Sound C start w₀) (h : Run w₀ w) :
    ∃ C', Sound C' start w := by
  induction h with
  | start => exact ⟨C, hw₀⟩
  | call _ hcall hrun ih =>
      obtain ⟨C', hw⟩ := ih
      exact (hw.call hcall).of_ok hrun
  | switch _ _ hrun ih =>
      obtain ⟨C', hw⟩ := ih
      have halong := Manager.switch_alongside.of_ok hrun
      exact ⟨C', hw.withManager halong.source halong.memory⟩
  | enablePaging _ _ hrun ih =>
      obtain ⟨C', hw⟩ := ih
      have halong := Manager.enablePaging_alongside.of_ok hrun
      exact ⟨C', hw.withManager halong.source halong.memory⟩

/-- **In a sound system every operation returns.** -/
theorem responds (hw : Sound C start w) : w.Responds := by
  intro root op hroot hkernel
  obtain ⟨reply, m', hrun, -⟩ := (hw.operation hroot hkernel).returns
  exact ⟨reply, m', hrun⟩

omit [PagingControl P] in
/-- Without frames at first there is never a root. -/
lemma roots_eq_empty (hw : Sound C ∅ w) : w.roots = ∅ := by
  refine Finset.eq_empty_of_forall_notMem fun root hroot => ?_
  have htable : C.IsTable root := ⟨_, (hw.isRoot root).mpr hroot⟩
  exact Finset.notMem_empty root ((hw.conserved root).mp (.inl htable))

/-- Without frames at first the self test runs out of memory, whatever the kernel's root is. -/
lemma selfTest_empty (hw : Sound C ∅ w) (va : VirtAddr) :
    ∃ m', (Manager.selfTest va).run w.manager = .ok (.error .outOfMemory) m' := by
  obtain ⟨held, -, hheld, -⟩ := hw.held
  obtain ⟨f?, s', halloc⟩ := alloc_returns hheld
  cases f? with
  | none =>
      refine ⟨{ w.manager with store := s' }, ?_⟩
      rw [Manager.selfTest, run_bind (Manager.run_onStore halloc)]
      rfl
  | some f =>
      have hfree : f ∈ freeFrames w.manager.store := (alloc_some hheld halloc).1
      exact absurd ((hw.conserved f).mp (.inr (.inr hfree))) (Finset.notMem_empty f)

end Sound

omit [PagingControl P] in
/-- A store whose books are in order is steady while nobody holds a frame. -/
lemma steady_of_holds [UsableSource A] {s : Store A} (hheld : Holds s ∅) : Steady s := by
  rintro P _ m rfl w hrun
  obtain ⟨C, hw⟩ := (Sound.initial hheld).run hrun
  exact hw.responds

end

/-! ## The sources -/

/-- **No operation panics.**  Whatever addresses, sizes and flags an operation is given, it returns
after every run that started over a pool of different frames, over a bitmap that was installed for
regions none of which share a usable frame, or over a bitmap that was never installed.  Over the
latter no root is ever made, and the self test runs out of memory. -/
theorem steady :
    (∀ s : Store Pool, s.source.free.Nodup →
      (∀ f ∈ s.source.free, f.number < 2 ^ 40 ∧ s.memory.Shows f) → Steady s) ∧
    (∀ (m : Memory) (regions : List Region),
      (∀ r ∈ regions, r.isUsable = true → r.top ≤ 2 ^ 52) →
      (∀ r ∈ regions, r.isUsable = true → ∀ f : Frame, r.Contains f.number → m.Shows f) →
      regions.Pairwise (fun r r' => r.isUsable = true → r'.isUsable = true →
        ∀ n, r.Contains n → ¬ r'.Contains n) →
      ∃ b m' regions' event, Bitmap.install m regions = .ok (b, m', regions', event) ∧
        ∀ log, Steady { memory := m', source := b, log }) ∧
    ∀ s : Store Bitmap, s.source = {} → Steady s ∧
      ∀ (P : Type) [PagingControl P] (m : Manager Bitmap P), m.store = s →
        ∀ w, Run { manager := m } w → w.roots = ∅ ∧
          ∀ va, ∃ m', (Manager.selfTest va).run w.manager = .ok (.error .outOfMemory) m' := by
  refine ⟨fun s hnodup husable => ?_, fun m regions hnarrow hshown hdisjoint => ?_,
    fun s hsource => ⟨?_, ?_⟩⟩
  · exact steady_of_holds (Pool.holds_of_nodup hnodup husable)
  · obtain ⟨b, m', regions', event, hinstall⟩ := Bitmap.install_returns hshown
    refine ⟨b, m', regions', event, hinstall, fun log => ?_⟩
    exact steady_of_holds (Bitmap.holds_install hinstall hnarrow hshown hdisjoint)
  · exact steady_of_holds (Bitmap.holds_uninitialized hsource)
  · rintro P _ m rfl w hrun
    have hw₀ := Sound.initial (P := P) (Bitmap.holds_uninitialized hsource)
    rw [Bitmap.freeFrames_uninitialized hsource] at hw₀
    obtain ⟨C, hw⟩ := hw₀.run hrun
    exact ⟨hw.roots_eq_empty, hw.selfTest_empty⟩

/-- A manager over seven free frames, on a machine whose active root is none of them. -/
def sample : System Pool Recorder where
  manager.store := Pool.sample 7
  manager.machine.root := .ofNumber 0
  manager.kernelRoot := .ofNumber 0

/-- A root is made from a pool and paging turned on through it; then a range that passes the end of
both address spaces is mapped. -/
theorem steady_sample :
    (∃ w : System Pool Recorder, Run sample w ∧ w.roots = {.ofNumber 1} ∧
      ∃ r m', (Manager.identityMap ⟨0xfffffffffffff000⟩ ⟨0xfffffffffffff000⟩ 0xffffffffffffffff
        ⟨0xffffffffffffffff⟩).run w.manager = .ok r m') ∧
    (∃ b m' regions' event,
      Bitmap.install { window := { offset := 0 } } [Bitmap.sampleRegion] =
        .ok (b, m', regions', event) ∧ Steady { memory := m', source := b }) ∧
    Steady ({ memory := { window := { offset := 0 } }, source := {} } : Store Bitmap) := by
  obtain ⟨hpool, hinstalled, huninitialized⟩ := steady
  refine ⟨?_, ?_, (huninitialized _ rfl).1⟩
  · have hpaging : ∃ w, Run sample w ∧ w.roots = {.ofNumber 1} ∧
        w.manager.kernelRoot = .ofNumber 1 := by
      have hcall : Call.Permitted sample .createRoot := trivial
      have hcreate : Run sample _ := .call .start hcall rfl
      have hroot : Page.ofNumber 1 ∈ ({.ofNumber 1} : Finset Frame) := Finset.mem_singleton_self _
      exact ⟨_, .enablePaging hcreate hroot rfl, rfl, rfl⟩
    obtain ⟨w, hrun, hroots, hkernel⟩ := hpaging
    have hroot : w.manager.kernelRoot ∈ w.roots := by
      rw [hroots, hkernel]
      exact Finset.mem_singleton_self _
    have hheld : Pool.InOrder (Pool.sample 7) ∅ := Pool.holds_sample (le_refl 7)
    have hsteady : Steady (Pool.sample 7) := hpool _ hheld.nodup fun f hf =>
      ⟨hheld.number_lt f (.inl hf), hheld.shown f (.inl hf)⟩
    exact ⟨w, hrun, hroots, hsteady Recorder sample.manager rfl w hrun _ (.identityMap ..) hroot
      fun _ => rfl⟩
  · obtain ⟨b, m', regions', event, hinstall, hsteady⟩ :=
      hinstalled { window := { offset := 0 } } [Bitmap.sampleRegion] (by decide)
        (fun _ _ _ _ _ => rfl) (List.pairwise_singleton _ _)
    exact ⟨b, m', regions', event, hinstall, hsteady _⟩

end System

end KernelMemory
