import KernelMemory.Proofs.Manager.PagingOnce
import KernelMemory.Proofs.Manager.Responses
import KernelMemory.Proofs.Manager.SelfTest
import KernelMemory.Proofs.Manager.Sharing
import KernelMemory.Proofs.Space.Aside

/-!
# Operations on the kernel's root stay in its tree

Mapping a range and the self test work on the kernel's root, whatever root is active.  They may make
tables and give tables back, but all that they write stands in tables of the kernel's root, in
frames that were free, or in the books of the source.  So an address whose way under some root
passes none of these stands for what it stood for.

* **`Manager.Operation.keeps_aside`** — operations on the kernel's root leave alone what lies aside
  of it.
* **`Manager.World.Intact.unseen_elsewhere`** — as long as no table was withdrawn, they are seen
  under no other root on a way that passes no table of the kernel's root.
* **`System.Sound.unseen_elsewhere`** — where roots share no tables, they are seen under no other
  root at all.
* **`Manager.history_pages_once`** — in every run of calls, paging is turned on once, and the
  operations on the kernel's root stay in its tree.
-/

namespace KernelMemory

open KernelMemory.Action

namespace Space

variable {A : Type} [FrameSource A] [LawfulSource A] {s : Store A} {root f : Frame}

/-! ### Blank roots -/

/-- Only the root of a blank memory can be reached. -/
lemma reaches_of_blank {m : Memory} {t : Frame} {h : Nat} (hblank : ∀ x, m.word x = 0)
    (hr : m.Reaches root h t) : h = rootHeight ∧ t = root := by
  refine hr.eq_root fun i => ?_
  rw [Memory.entry, hblank]
  rfl

/-- A blank root is well-formed. -/
lemma wellFormed_of_blank {held : Finset Frame} (hblank : ∀ x, s.memory.word x = 0)
    (hheld : Holds s held) (hshown : s.memory.Shows root) (hfree : root ∉ freeFrames s)
    (hbooks : ¬ Books s.source root) : WellFormed s root := by
  have hroot : ∀ {h t}, s.memory.Reaches root h t → h = rootHeight ∧ t = root :=
    reaches_of_blank hblank
  have hnone : ∀ x, (s.memory.entry x).isTable = false := fun x => by
    rw [Memory.entry, hblank x]
    rfl
  have hno : ∀ {h x}, ¬ Owns s.memory root h x := fun hx => by
    have htable := hx.isTable
    rw [hnone] at htable
    cases htable
  constructor
  case toOrderly =>
    constructor
    case height => exact fun hr hr' => (hroot hr).1.trans (hroot hr').1.symm
    case sole => exact fun hx => absurd hx hno
    case counted => exact fun hx => absurd hx hno
    case busy => exact fun hx => absurd hx hno
    case unused => exact fun _ _ => hblank _
    case shown => exact fun hr => (hroot hr).2 ▸ hshown
    case notFree => exact fun hr => (hroot hr).2 ▸ hfree
    case notBooks => exact fun hr => (hroot hr).2 ▸ hbooks
    case held => exact ⟨held, hheld, fun h x hx => absurd hx hno⟩
  case once =>
    intro h k x y _ _ htable
    rw [hnone] at htable
    cases htable

end Space

/-! ## Operations of a manager -/

namespace Manager

open Space

variable {A P : Type} [FrameSource A] [LawfulSource A] [PagingControl P] {G : Grounds}
  {m : Manager A P} {root : Frame} {va : VirtAddr} {pa : PhysAddr} {flags : Flags}

lemma map_treads (hd : G.Describes m.store) (hkept : G.kept = 0) (hroot : root = G.root) :
    Ensures (map root va pa flags) anyPanic m fun r m' =>
      ∃ G', G.Treads m.store G' m'.store ∧ (r ≠ .error .outOfMemory → G'.kept = 0) := by
  subst hroot
  refine (onStore_ensures (AddressSpace.map_treads hd hkept)).bind ?_
  rintro r _ ⟨s', rfl, G', htreads, hkept'⟩
  rcases r with err | ⟨⟩
  · exact .pure ⟨G', htreads, hkept'⟩
  · exact .bind_run (EStateM.run_modify ..) (.pure ⟨G', htreads, hkept'⟩)

lemma unmap_treads (hd : G.Describes m.store) (hkept : G.kept = 0) (hroot : root = G.root) :
    Ensures (unmap root va) anyPanic m fun _ m' => ∃ G', G.Treads m.store G' m'.store := by
  subst hroot
  refine (onStore_ensures (AddressSpace.unmap_treads hd hkept)).bind ?_
  rintro r _ ⟨s', rfl, G', htreads⟩
  rcases r with err | frame
  · exact .pure ⟨G', htreads⟩
  · exact .bind_run (EStateM.run_modify ..) (.pure ⟨G', htreads⟩)

lemma mapRangePage_treads {k : Nat} (hd : G.Describes m.store) (hkept : G.kept = 0)
    (hkernel : m.kernelRoot = G.root) :
    Ensures (mapRangePage va pa flags k) anyPanic m fun r m' =>
      ∃ G', G.Treads m.store G' m'.store ∧ ∀ isFresh, r = .ok isFresh → G'.kept = 0 := by
  refine (ofExcept_ensures fun _ _ => trivial).bind ?_
  rintro distance _ ⟨-, rfl⟩
  split
  case h_1 => exact .pure ⟨G, .refl hd, fun _ _ => hkept⟩
  case h_2 => exact .pure ⟨G, .refl hd, fun _ _ => hkept⟩
  case h_3 =>
    refine .bind_run (EStateM.run_get _) ?_
    refine (map_treads hd hkept hkernel).bind ?_
    rintro r m₁ ⟨G', htreads, hkept'⟩
    split
    case h_1 => exact .pure ⟨G', htreads, fun _ _ => hkept' nofun⟩
    case h_2 =>
      refine (onStore_ensures (htreads.describes.note _)).bind ?_
      rintro _ _ ⟨s', rfl, htreads', -⟩
      exact .pure ⟨G', htreads.trans htreads', fun _ _ => hkept' nofun⟩
    case h_3 => exact .pure ⟨G', htreads, nofun⟩

lemma mapRangeFrom_treads {k fresh count : Nat} (hd : G.Describes m.store) (hkept : G.kept = 0)
    (hkernel : m.kernelRoot = G.root) :
    Ensures (mapRangeFrom va pa flags k fresh count) anyPanic m fun _ m' =>
      ∃ G', G.Treads m.store G' m'.store := by
  induction count generalizing G m k fresh with
  | zero => exact .pure ⟨G, .refl hd⟩
  | succ count ih =>
      refine ((mapRangePage_treads hd hkept hkernel).and (leavesPaging_mapRangePage m)).bind ?_
      rintro r m₁ ⟨⟨G', htreads, hkept'⟩, -, hsame⟩
      rcases r with err | isFresh
      · exact .pure ⟨G', htreads⟩
      · refine (ofExcept_ensures fun _ _ => trivial).bind ?_
        rintro _ _ ⟨-, rfl⟩
        have hkernel' := (hsame.trans hkernel).trans htreads.root.symm
        refine (ih htreads.describes (hkept' _ rfl) hkernel').mono ?_
        rintro _ m' ⟨G'', htreads'⟩
        exact ⟨G'', htreads.trans htreads'⟩

lemma exercise_treads {frame : Frame} (hd : G.Describes m.store) (hkept : G.kept = 0)
    (hkernel : m.kernelRoot = G.root) :
    Ensures (exercise va frame) anyPanic m fun _ m' => ∃ G', G.Treads m.store G' m'.store := by
  refine .bind_run (EStateM.run_get m) ?_
  refine (map_treads hd hkept hkernel).bind ?_
  rintro r m₁ ⟨G₁, htreads₁, hkept₁⟩
  rcases r with err | ⟨⟩
  · exact .pure ⟨G₁, htreads₁⟩
  refine lookup_ensures.bind ?_
  rintro seen _ rfl
  rcases seen with err | seen
  · exact .pure ⟨G₁, htreads₁⟩
  refine (unmap_treads htreads₁.describes (hkept₁ nofun)
    (hkernel.trans htreads₁.root.symm)).bind ?_
  rintro r m₂ ⟨G₂, htreads₂⟩
  have htreads := htreads₁.trans htreads₂
  rcases r with err | unmapped
  · exact .pure ⟨G₂, htreads⟩
  dsimp only
  split
  case isTrue => exact .pure ⟨G₂, htreads⟩
  case isFalse =>
    refine lookup_ensures.bind ?_
    rintro mapped _ rfl
    split
    case isTrue => exact .pure ⟨G₂, htreads⟩
    case isFalse =>
      refine (onStore_ensures (htreads₂.describes.note _)).bind ?_
      rintro _ _ ⟨s', rfl, htreads₃, -⟩
      exact .pure ⟨G₂, htreads.trans htreads₃⟩

/-- **The self test** leaves alone what it should; its own frame is given back in the end. -/
theorem selfTest_treads (hd : G.Describes m.store) (hkept : G.kept = 0)
    (hkernel : m.kernelRoot = G.root) :
    Ensures (selfTest va) anyPanic m fun _ m' =>
      m.store.memory.AgreesOn G.Aside m'.store.memory := by
  refine (onStore_ensures (hd.alloc hkept)).bind ?_
  rintro frame? _ ⟨s₁, rfl, -, hend⟩
  cases frame? with
  | none => exact .pure hend.memory
  | some frame =>
      obtain ⟨htreads, hfresh⟩ := hend
      -- The test's own frame is not touched, and still held in the end.
      have hd₁ := htreads.describes.spare hfresh
      refine (exercise_treads (m := { m with store := s₁ }) hd₁ hkept hkernel).bind ?_
      rintro r m₂ ⟨G', htreads'⟩
      have hheld : frame ∈ G'.held := htreads'.held (.inr rfl) hfresh.held
      obtain ⟨s₃, hrun, -, -, -, hm⟩ :=
        LawfulSource.free_returns htreads'.describes.holds hheld
      refine .bind_run (run_onStore hrun) (.pure ?_)
      refine (htreads.memory.trans (htreads'.memory.anti fun _ => .inl)).trans (hm.anti ?_)
      intro f hf
      exact (htreads'.describes.aside (htreads'.aside ▸ .inl hf)).2.2

/-- **Operations on the kernel's root leave alone what lies aside of it.** -/
theorem Operation.keeps_aside {op : Operation} {root : Frame} (hop : op.OnKernel)
    (ht : Tiered m.store m.kernelRoot) :
    Ensures (op.run root) anyPanic m fun _ m' =>
      m.store.memory.AgreesOn (Aside m.store m.kernelRoot) m'.store.memory := by
  obtain ⟨held, hd⟩ := ht.describes
  cases op with
  | identityMap va pa size flags =>
      refine (mapRangeFrom_treads hd rfl rfl).mono ?_
      rintro _ m' ⟨G', htreads⟩
      exact htreads.memory
  | selfTest va => exact selfTest_treads hd rfl rfl
  | _ => exact hop.elim

end Manager

/-! ## Other roots -/

namespace Manager.World

open Space

variable {A P : Type} [FrameSource A] [LawfulSource A] [PagingControl P] [LawfulPaging P]
  {w : World A P} {root other : Frame} {va : VirtAddr} {op : Operation}

/-- **While no table was withdrawn, operations on the kernel's root are seen under another root** on
no way but those that pass a table of the kernel's root. -/
theorem Intact.unseen_elsewhere (hw : w.Intact) (hop : op.OnKernel) (hother : other ∈ w.roots)
    (hapart : ∀ holders t h, w.manager.store.memory.outline.Leads other va holders t h →
      ∀ k, ¬ w.manager.store.memory.Reaches w.manager.kernelRoot k t) :
    Ensures (op.run root) anyPanic w.manager fun _ m' =>
      w.manager.store.memory.SameAt other m'.store.memory va := by
  obtain ⟨C, hs⟩ := hw.sound
  have hd := hs.sound.describes
  have htiered := tiered_of_describes hd ((hs.isRoot _).mpr hs.kernel)
  refine (Operation.keeps_aside hop htiered).mono fun _ m' hm => ?_
  exact hm.sameAt fun holders t h hl =>
    aside_of_describes hd ((hs.isRoot _).mpr hother) hl.reaches (hapart holders t h hl)

end Manager.World

namespace System

open Space

variable {A P : Type} [FrameSource A] [LawfulSource A] {C : Chart} {start : Finset Frame}
  {w : System A P} {root other : Frame}

/-- **Operations on the kernel's root are seen under no other root** that the manager has made. -/
theorem Sound.unseen_elsewhere [PagingControl P] {op : Manager.Operation} (hw : Sound C start w)
    (hop : op.OnKernel) (hkernel : w.manager.kernelRoot ∈ w.roots) (hother : other ∈ w.roots)
    (hne : other ≠ w.manager.kernelRoot) :
    Ensures (op.run root) anyPanic w.manager fun _ m' =>
      ∀ va, w.manager.store.memory.SameAt other m'.store.memory va := by
  have hd := hw.settled.of_besides.describes
  have htiered := tiered_of_describes hd ((hw.isRoot _).mpr hkernel)
  refine (Manager.Operation.keeps_aside hop htiered).mono fun _ m' hm va => ?_
  refine hm.sameAt fun holders t h hl => ?_
  exact aside_of_describes hd ((hw.isRoot other).mpr hother) hl.reaches fun k hr =>
    hne (hw.root_unique hother hkernel hl.reaches hr)

end System

namespace Manager

open Space

/-! ## Every run -/

variable {A P : Type} [FrameSource A] [PagingControl P]

/-- Paging is turned on through one root, another is switched to, and turning paging on through that
one is refused. -/
theorem enablePaging_refused_sample :
    ∃ (before : List (Event Pool Recorder)) (m m₁ : Manager Pool Recorder)
      (refused : Except MapError Unit),
      History (start ({ root := .ofNumber 0 } : Recorder) (Pool.sample 5))
        (before ++ [⟨m, .enablePaging (.ofNumber 7), refused, m₁⟩]) m₁ ∧
      before.map Event.request = [.enablePaging (.ofNumber 6), .switch (.ofNumber 7)] ∧
      enabledRoot? before = some (.ofNumber 6) ∧
      m.activeRoot = .ofNumber 7 ∧ m₁.kernelRoot = .ofNumber 6 ∧
      m₁.store.memory = (Pool.sample 5).memory ∧ m₁.store.source = (Pool.sample 5).source := by
  exact ⟨[_, _], _, _, _, .cons (.enablePaging (.ofNumber 6)) rfl
    (.cons (.switch (.ofNumber 7)) rfl (.cons (.enablePaging (.ofNumber 7)) rfl (.nil _))),
    rfl, rfl, rfl, rfl, rfl, rfl⟩

/-- **Paging is turned on once, and the kernel's root follows it.**  In every run of calls on a new
manager, on any roots and in any order: turning paging on works just if no earlier call has asked
for it, and changes nothing otherwise.  The kernel's root is the root that was active at first, and
from the first such call on the root of that call, whatever root is active.  Mapping a range and the
self test change what an address stands for only if its way passes a table of the kernel's root, a
free frame, or the books of the source, as long as the tables of the kernel's root are a tree that
the source leaves alone.  On roots that the manager has made, it has to be a table of the kernel's
root as long as no table was withdrawn, and no root but the kernel's notices anything if none shares
the tables of another. -/
theorem history_pages_once {machine : P} {s : Store A} {events : List (Event A P)}
    {m' : Manager A P} (hrun : History (start machine s) events m') :
    m'.kernelRoot = (enabledRoot? events).getD (PagingControl.activeRoot machine) ∧
    (∀ before e after, events = before ++ e :: after →
      e.before.kernelRoot = (enabledRoot? before).getD (PagingControl.activeRoot machine)) ∧
    (∀ before m root (reply : Except MapError Unit) m₁ after,
      events = before ++ ⟨m, .enablePaging root, reply, m₁⟩ :: after →
        (reply = .ok () ↔ enabledRoot? before = none) ∧
        (reply ≠ .ok () → reply = .error (.invalidRequest .pagingAlreadyEnabled) ∧ m₁ = m)) ∧
    (∀ [LawfulSource A], ∀ m root op reply m₁, ⟨m, .operate root op, reply, m₁⟩ ∈ events →
      op.OnKernel →
      (Tiered m.store m.kernelRoot → ∀ other va,
        (∀ holders t h, m.store.memory.outline.Leads other va holders t h →
          Aside m.store m.kernelRoot t) →
        m.store.memory.SameAt other m₁.store.memory va) ∧
      (∀ [LawfulPaging P] roots, World.Intact ⟨m, roots⟩ → ∀ other ∈ roots, ∀ va,
        (∀ holders t h, m.store.memory.outline.Leads other va holders t h →
          ∀ k, ¬ m.store.memory.Reaches m.kernelRoot k t) →
        m.store.memory.SameAt other m₁.store.memory va) ∧
      (∀ [UsableSource A] (m₀ : Manager A P) (w : System A P), Holds m₀.store ∅ →
        System.Run { manager := m₀ } w → w.manager = m → m.kernelRoot ∈ w.roots →
        ∀ other ∈ w.roots, other ≠ m.kernelRoot →
        ∀ va, m.store.memory.SameAt other m₁.store.memory va)) := by
  have hcallOf : ∀ {before e after}, events = before ++ e :: after →
      History (start machine s) before e.before ∧
        e.request.run.run e.before = .ok e.reply e.after :=
    fun heq => ⟨(heq ▸ hrun).split.1, (heq ▸ hrun).split.2.1⟩
  refine ⟨(hrun.paging rfl).2, fun before e after heq => ((hcallOf heq).1.paging rfl).2,
    fun before m root reply m₁ after heq => ?_, ?_⟩
  · obtain ⟨hbefore, hcall⟩ := hcallOf heq
    obtain ⟨henabled, -⟩ := hbefore.paging rfl
    have hremembers := remembers hcall
    rcases reply with err | ⟨⟩
    · obtain ⟨hon, rfl, hsame⟩ := hremembers
      rw [henabled] at hon
      refine ⟨⟨nofun, fun hnone => ?_⟩, fun _ => ⟨rfl, hsame⟩⟩
      rw [hnone] at hon
      cases hon
    · obtain ⟨hoff, -⟩ := hremembers
      rw [henabled, Option.isSome_eq_false_iff, Option.isNone_iff_eq_none] at hoff
      exact ⟨⟨fun _ => hoff, fun _ => rfl⟩, fun h => absurd rfl h⟩
  · intro _ m root op reply m₁ hmem hop
    obtain ⟨before, after, heq⟩ := List.append_of_mem hmem
    have hcall : (op.run root).run m = .ok reply m₁ := (hcallOf heq).2
    refine ⟨fun htiered other va haside => ?_, fun roots hintact other hother va hapart => ?_, ?_⟩
    · exact ((Operation.keeps_aside hop htiered).of_ok hcall).sameAt haside
    · exact (hintact.unseen_elsewhere hop hother hapart).of_ok hcall
    · rintro _ m₀ w hheld hreached rfl hkernel other hother hne va
      obtain ⟨C, hw⟩ := (System.Sound.initial hheld).run hreached
      exact (hw.unseen_elsewhere hop hkernel hother hne).of_ok hcall va

/-- Two roots are blank, and paging is turned on through one of them.  While the other is active,
turning paging on through it is refused, and a range is mapped in the first. -/
theorem history_pages_once_sample :
    ∃ (before : List (Event Pool Recorder)) (m m₁ m' : Manager Pool Recorder)
      (refused : Except MapError Unit) (reply : Except MapError Nat),
      History (start ({ root := .ofNumber 0 } : Recorder) (Pool.sample 5))
        (before ++ [⟨m, .enablePaging (.ofNumber 7), refused, m₁⟩,
          ⟨m₁, .operate (.ofNumber 6) (.identityMap ⟨0x1000⟩ ⟨0x5000⟩ 0x3000 ⟨2⟩), reply, m'⟩])
        m' ∧
      before.map Event.request = [.enablePaging (.ofNumber 6), .switch (.ofNumber 7)] ∧
      refused = .error (.invalidRequest .pagingAlreadyEnabled) ∧ m₁ = m ∧
      m.activeRoot = .ofNumber 7 ∧ m'.kernelRoot = .ofNumber 6 ∧
      ∀ va, m.store.memory.SameAt (.ofNumber 7) m'.store.memory va := by
  obtain ⟨before, m, m₁, refused, hrun₁, hrequests, henabled, hactive, hkernel, hmemory, hsource⟩ :=
    enablePaging_refused_sample
  have hblank : ∀ x, m₁.store.memory.word x = 0 := fun x => hmemory ▸ Memory.word_blank
  have hheld : Holds m₁.store ∅ := by
    have hsample : Holds (Pool.sample 5) ∅ := Pool.holds_sample (by decide)
    exact (LawfulSource.congr hsample hsource (hmemory ▸ .refl _)).1
  have hfree : ∀ root ∈ ([.ofNumber 6, .ofNumber 7] : List Frame), root ∉ freeFrames m₁.store := by
    change ∀ root ∈ _, root ∉ m₁.store.source.free.toFinset
    rw [hsource]
    decide
  have hwell : WellFormed m₁.store (.ofNumber 6) := by
    refine wellFormed_of_blank hblank hheld ?_ (hfree _ (by simp)) id
    rw [hmemory]
    exact Memory.shows_of_lt (n := 8) rfl (by decide)
  have hready : (Request.operate (.ofNumber 6)
      (.identityMap ⟨0x1000⟩ ⟨0x5000⟩ 0x3000 ⟨2⟩)).Ready m₁ := ⟨hwell, fun _ => hkernel⟩
  obtain ⟨reply, m', hlast⟩ : ∃ reply m', (Request.operate (.ofNumber 6)
      (.identityMap ⟨0x1000⟩ ⟨0x5000⟩ 0x3000 ⟨2⟩)).run.run m₁ = .ok reply m' := by
    obtain ⟨reply, m', hcall, -⟩ := operate_obeys hready
    exact ⟨reply, m', hcall⟩
  have hrun := hrun₁.append (.cons _ hlast (.nil m'))
  rw [List.append_assoc] at hrun
  obtain ⟨hroot, -, hrefuses, hkeeps⟩ := history_pages_once hrun
  obtain ⟨hiff, hrefused⟩ := hrefuses before m _ refused m₁ _ rfl
  have hnot : refused ≠ .ok () := fun hok => by
    rw [hiff.mp hok] at henabled
    cases henabled
  obtain ⟨hanswer, hsame⟩ := hrefused hnot
  refine ⟨before, m, m₁, m', refused, reply, hrun, hrequests, hanswer, hsame, hactive, ?_, ?_⟩
  · rw [hroot, enabledRoot?, List.findSome?_append, ← enabledRoot?, henabled]
    rfl
  · subst hsame
    intro va
    obtain ⟨hkeeps, -⟩ :=
      hkeeps m₁ _ (.identityMap ⟨0x1000⟩ ⟨0x5000⟩ 0x3000 ⟨2⟩) reply m' (by simp) trivial
    refine hkeeps ?_ _ va fun holders t h hl => ?_
    · rw [hkernel]
      exact hwell.coherent.tiered
    · obtain ⟨-, rfl⟩ := reaches_of_blank hblank hl.reaches
      rw [hkernel]
      refine ⟨fun k hr => ?_, hfree _ (by simp), id⟩
      cases (reaches_of_blank hblank hr).2

end Manager

end KernelMemory
