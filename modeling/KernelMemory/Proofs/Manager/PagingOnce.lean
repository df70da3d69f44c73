import KernelMemory.Proofs.Manager.Invalidation

/-!
# Paging is turned on once

A manager keeps apart which root is active, whether paging is on, and which root is the kernel's.
Switching roots changes the first, and nothing but turning paging on changes the others; that works
once, and refusing it changes nothing at all.

* `Manager.LeavesPaging` — an action changes neither the kernel's root nor whether paging is on.
* `Manager.Event.Remembers` — what a call does to the two; **`Manager.remembers`** — every call does
  that.
* `Manager.History` — a run of calls on any roots; `Manager.enabledRoot?` — the root of the first
  call in it that turns paging on.
* **`Manager.History.paging`** — the kernel's root after a run.
-/

namespace KernelMemory.Manager

open KernelMemory.Action

variable {A P : Type} {α β : Type}

/-! ## Actions that leave paging alone -/

/-- **An action leaves paging alone**: the kernel's root, and whether paging is on. -/
def LeavesPaging (act : Action (Manager A P) α) : Prop :=
  ∀ m, Ensures act anyPanic m fun _ m' =>
    m'.pagingEnabled = m.pagingEnabled ∧ m'.kernelRoot = m.kernelRoot

namespace LeavesPaging

variable {act : Action (Manager A P) α}

lemma pure (a : α) : LeavesPaging (Pure.pure a : Action (Manager A P) α) :=
  fun _ => .pure ⟨rfl, rfl⟩

lemma bind {f : α → Action (Manager A P) β} (h : LeavesPaging act)
    (hf : ∀ a, LeavesPaging (f a)) : LeavesPaging (act >>= f) := by
  refine fun m => (h m).bind fun a m₁ ⟨henabled, hroot⟩ => (hf a m₁).mono ?_
  exact fun _ _ ⟨henabled', hroot'⟩ => ⟨henabled'.trans henabled, hroot'.trans hroot⟩

lemma get_bind {f : Manager A P → Action (Manager A P) β} (hf : ∀ m, LeavesPaging (f m)) :
    LeavesPaging (get >>= f) :=
  fun m => .bind_run (EStateM.run_get m) (hf m m)

lemma ofExcept (x : Except Panic α) :
    LeavesPaging (Action.ofExcept x : Action (Manager A P) α) := by
  refine fun m => (ofExcept_ensures fun _ _ => trivial).mono ?_
  rintro _ _ ⟨-, rfl⟩
  exact ⟨rfl, rfl⟩

lemma onStore (act : Action (Store A) α) :
    LeavesPaging (Manager.onStore act : Action (Manager A P) α) := by
  refine fun m => (onStore_ensures ensures_run).mono ?_
  rintro _ _ ⟨s', rfl, -⟩
  exact ⟨rfl, rfl⟩

end LeavesPaging

section

variable [PagingControl P] {root : Frame} {va : VirtAddr} {pa : PhysAddr} {flags : Flags}

lemma leavesPaging_loadRoot : LeavesPaging (loadRoot root : Action (Manager A P) Unit) := by
  intro m
  rw [Ensures, run_loadRoot]
  cases PagingControl.loadRoot m.machine root with
  | error p => trivial
  | ok machine => exact ⟨rfl, rfl⟩

lemma leavesPaging_switch : LeavesPaging (switch root : Action (Manager A P) Unit) :=
  (LeavesPaging.onStore _).bind fun _ => leavesPaging_loadRoot

lemma leavesPaging_invalidate : LeavesPaging (invalidate va : Action (Manager A P) Unit) :=
  fun _ => .of_run rfl ⟨rfl, rfl⟩

variable [FrameSource A]

omit [PagingControl P] in
lemma leavesPaging_createRoot :
    LeavesPaging (createRoot : Action (Manager A P) (Except MapError Frame)) :=
  (LeavesPaging.onStore _).bind fun _ => .pure _

lemma leavesPaging_createKernelRoot :
    LeavesPaging (createKernelRoot : Action (Manager A P) (Except MapError Frame)) := by
  refine (LeavesPaging.onStore _).bind fun r => ?_
  rcases r with err | space
  · exact .pure _
  · exact .get_bind fun _ => (LeavesPaging.onStore _).bind fun _ => .pure _

lemma leavesPaging_map :
    LeavesPaging (map root va pa flags : Action (Manager A P) (Except MapError Unit)) := by
  refine (LeavesPaging.onStore _).bind fun r => ?_
  rcases r with err | ⟨⟩
  · exact .pure _
  · exact leavesPaging_invalidate.bind fun _ => .pure _

lemma leavesPaging_unmap :
    LeavesPaging (unmap root va : Action (Manager A P) (Except MapError Frame)) := by
  refine (LeavesPaging.onStore _).bind fun r => ?_
  rcases r with err | frame
  · exact .pure _
  · exact leavesPaging_invalidate.bind fun _ => .pure _

lemma leavesPaging_mapRangePage {k : Nat} :
    LeavesPaging (mapRangePage va pa flags k : Action (Manager A P) (Except MapError Bool)) := by
  refine (LeavesPaging.ofExcept _).bind fun distance => ?_
  split
  · exact .pure _
  · exact .pure _
  · refine .get_bind fun m => leavesPaging_map.bind fun r => ?_
    split
    · exact .pure _
    · exact (LeavesPaging.onStore _).bind fun _ => .pure _
    · exact .pure _

lemma leavesPaging_mapRangeFrom {k fresh count : Nat} :
    LeavesPaging (mapRangeFrom va pa flags k fresh count :
      Action (Manager A P) (Except MapError Nat)) := by
  induction count generalizing k fresh with
  | zero => exact .pure _
  | succ count ih =>
      refine leavesPaging_mapRangePage.bind fun r => ?_
      rcases r with err | isFresh
      · exact .pure _
      · exact (LeavesPaging.ofExcept _).bind fun _ => ih

lemma leavesPaging_exercise {frame : Frame} :
    LeavesPaging (exercise va frame : Action (Manager A P) (Except MapError Unit)) := by
  refine .get_bind fun m => leavesPaging_map.bind fun r => ?_
  rcases r with err | ⟨⟩
  · exact .pure _
  refine (LeavesPaging.onStore _).bind fun r => ?_
  rcases r with err | seen
  · exact .pure _
  refine leavesPaging_unmap.bind fun r => ?_
  rcases r with err | unmapped
  · exact .pure _
  dsimp only
  split
  · exact .pure _
  · refine (LeavesPaging.onStore _).bind fun mapped => ?_
    split
    · exact .pure _
    · exact (LeavesPaging.onStore _).bind fun _ => .pure _

lemma leavesPaging_selfTest :
    LeavesPaging (selfTest va : Action (Manager A P) (Except MapError Unit)) := by
  refine (LeavesPaging.onStore _).bind fun frame? => ?_
  cases frame? with
  | none => exact .pure _
  | some frame =>
      exact leavesPaging_exercise.bind fun r => (LeavesPaging.onStore _).bind fun _ => .pure _

lemma Operation.leavesPaging (op : Operation) :
    LeavesPaging (op.run root : Action (Manager A P) op.Reply) := by
  cases op with
  | map => exact leavesPaging_map
  | unmap => exact leavesPaging_unmap
  | isMapped => exact .onStore _
  | translate => exact .onStore _
  | identityMap => exact leavesPaging_mapRangeFrom
  | selfTest => exact leavesPaging_selfTest

/-! ## Calls -/

/-- **What a call does to what the manager remembers of paging.**  Turning it on works while it is
off and changes nothing while it is on; other calls leave it alone. -/
def Event.Remembers : Event A P → Prop
  | ⟨m, .enablePaging root, .ok _, m'⟩ =>
      m.pagingEnabled = false ∧ m'.pagingEnabled = true ∧ m'.kernelRoot = root
  | ⟨m, .enablePaging _, .error err, m'⟩ =>
      m.pagingEnabled = true ∧ err = .invalidRequest .pagingAlreadyEnabled ∧ m' = m
  | ⟨m, _, _, m'⟩ => m'.pagingEnabled = m.pagingEnabled ∧ m'.kernelRoot = m.kernelRoot

variable {m m' : Manager A P}

omit [FrameSource A] in
lemma enablePaging_remembers :
    Ensures (enablePaging root : Action (Manager A P) _) anyPanic m fun r m' =>
      Event.Remembers ⟨m, .enablePaging root, r, m'⟩ := by
  refine .bind_run (EStateM.run_get m) ?_
  split
  case isTrue hon => exact .pure ⟨hon, rfl, rfl⟩
  case isFalse hoff =>
    refine (leavesPaging_loadRoot m).bind fun _ m₁ _ => .bind_run (EStateM.run_modify ..) ?_
    refine (LeavesPaging.onStore _ _).bind fun _ m₂ ⟨henabled, hroot⟩ => .pure ?_
    exact ⟨Bool.eq_false_iff.mpr hoff, henabled, hroot⟩

/-- **Every call remembers** what it should of paging. -/
theorem remembers {request : Request} {reply : request.Reply}
    (hrun : request.run.run m = .ok reply m') : Event.Remembers ⟨m, request, reply, m'⟩ := by
  cases request with
  | operate root op => exact (op.leavesPaging m).of_ok hrun
  | createRoot => exact (leavesPaging_createRoot m).of_ok hrun
  | createKernelRoot => exact (leavesPaging_createKernelRoot m).of_ok hrun
  | switch root => exact (leavesPaging_switch m).of_ok hrun
  | enablePaging root => exact enablePaging_remembers.of_ok hrun

/-! ## Runs -/

/-- **A run of calls**, on whatever roots. -/
inductive History : Manager A P → List (Event A P) → Manager A P → Prop
  | nil (m : Manager A P) : History m [] m
  | cons {m m₁ m' : Manager A P} (request : Request) {reply : request.Reply}
      {events : List (Event A P)} :
      request.run.run m = .ok reply m₁ → History m₁ events m' →
      History m (⟨m, request, reply, m₁⟩ :: events) m'

/-- The root through which a call turns paging on. -/
def Request.enables? : Request → Option Frame
  | enablePaging root => some root
  | _ => none

/-- The root of the first call of a run that turns paging on. -/
def enabledRoot? (events : List (Event A P)) : Option Frame :=
  events.findSome? fun e => e.request.enables?

namespace History

variable {events : List (Event A P)}

/-- Runs follow each other. -/
lemma append {m₁ : Manager A P} {events' : List (Event A P)} (h : History m events m₁)
    (h' : History m₁ events' m') : History m (events ++ events') m' := by
  induction h with
  | nil => exact h'
  | cons request hcall _ ih => exact .cons request hcall (ih h')

/-- A call of a run stands between the run before it and the run after it. -/
lemma split {before after : List (Event A P)} {e : Event A P}
    (h : History m (before ++ e :: after) m') : History m before e.before ∧
      e.request.run.run e.before = .ok e.reply e.after ∧ History e.after after m' := by
  induction before generalizing m with
  | nil =>
      cases h with
      | cons _ hcall h => exact ⟨.nil _, hcall, h⟩
  | cons e' before ih =>
      cases h with
      | cons request hcall h =>
          obtain ⟨hbefore, hrest⟩ := ih h
          exact ⟨.cons request hcall hbefore, hrest⟩

/-- While paging is on, the kernel's root stays. -/
lemma stays (h : History m events m') (hon : m.pagingEnabled = true) :
    m'.pagingEnabled = true ∧ m'.kernelRoot = m.kernelRoot := by
  induction h with
  | nil => exact ⟨hon, rfl⟩
  | @cons m m₁ m' request reply events hcall _ ih =>
      have hsame : m₁.pagingEnabled = m.pagingEnabled ∧ m₁.kernelRoot = m.kernelRoot := by
        have hremembers := remembers hcall
        cases request with
        | enablePaging root =>
            rcases reply with err | ⟨⟩
            · obtain ⟨-, -, rfl⟩ := hremembers
              exact ⟨rfl, rfl⟩
            · rw [hremembers.1] at hon
              cases hon
        | _ => exact hremembers
      obtain ⟨hon', hroot⟩ := ih (hsame.1.trans hon)
      exact ⟨hon', hroot.trans hsame.2⟩

/-- **Paging after a run** that began with paging off: it is on if a call has asked for it, and then
the kernel's root is that of the first such call. -/
theorem paging (h : History m events m') (hoff : m.pagingEnabled = false) :
    m'.pagingEnabled = (enabledRoot? events).isSome ∧
      m'.kernelRoot = (enabledRoot? events).getD m.kernelRoot := by
  induction h with
  | nil => exact ⟨hoff, rfl⟩
  | @cons m m₁ m' request reply events hcall h ih =>
      have hremembers := remembers hcall
      cases request with
      | enablePaging root =>
          rcases reply with err | ⟨⟩
          · rw [hremembers.1] at hoff
            cases hoff
          · obtain ⟨-, hon, hroot⟩ := hremembers
            obtain ⟨hon', hroot'⟩ := h.stays hon
            exact ⟨hon', hroot'.trans hroot⟩
      | _ =>
          obtain ⟨henabled, hroot⟩ := hremembers
          obtain ⟨henabled', hroot'⟩ := ih (henabled.trans hoff)
          exact ⟨henabled', hroot'.trans (congrArg _ hroot)⟩

end History

end

end KernelMemory.Manager
