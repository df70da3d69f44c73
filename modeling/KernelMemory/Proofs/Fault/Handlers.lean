import KernelMemory.Kernel.PageFault
import KernelMemory.Proofs.Fault.Monitor
import KernelMemory.Proofs.Space.Report

/-!
# Page faults are reported once

A handler of a page fault takes many steps, and may be interrupted between any two of them by the
handler of another fault, which its own report may cause.  The monitor sees few of these steps: a
handler that is at work on its report is, for the monitor, one that is about to halt the machine.
So what the monitor knows of handlers in flight holds of the kernel's.

* `Kernel.Handler.stage`, **`Kernel.Handler.advance_stage`** — what the monitor sees of a step.
* **`Kernel.Handler.leads_raised`**, **`Kernel.Handlers.run_alone`** — a handler that nobody
  interrupts does what a page fault does.
* `Kernel.Handlers.sound_run` — handlers are where the monitor lets them be, in every interleaving.
* `Kernel.Handlers.told_of_late` — a handler that enters too late is told to halt.
* **`Kernel.Handlers.run_reports_once`** — one handler reports, and the others halt the machine.
-/

namespace KernelMemory

open Sync (Threads)

namespace Kernel

variable {k : Kernel}

/-! ## What is seen of a handler -/

/-- Whether an event is the report of a page fault. -/
def isFaultReport : Log.Event → Bool
  | .pageFault _ => true
  | _ => false

/-- How many page faults were reported. -/
def faultReports (k : Kernel) : Nat :=
  k.log.toList.countP isFaultReport

/-- What the handlers share, as far as the monitor is concerned. -/
def board (k : Kernel) : FaultBoard where
  state := k.faults
  reports := k.faultReports

lemma faultReports_push (k : Kernel) (event : Log.Event) :
    faultReports { k with log := k.log.push event } =
      k.faultReports + (isFaultReport event).toNat := by
  rw [faultReports, Array.toList_push, List.countP_append]
  refine congrArg (k.faultReports + ·) ?_
  cases hreport : isFaultReport event <;> simp [hreport]

lemma board_push (k : Kernel) (event : Log.Event) : board { k with log := k.log.push event } =
    { k.board with reports := k.faultReports + (isFaultReport event).toNat } :=
  congrArg (FaultBoard.mk k.faults) (faultReports_push k event)

namespace Handler

variable {h : Handler} {address : VirtAddr} {n : Nat}

/-- How far the handler has come, as far as the monitor is concerned.  A report of many lines is one
step, and a handler whose report has panicked never halts the machine. -/
def stage : Handler → FaultHandler
  | raised .. | entering _ => .entering
  | refused => .refused
  | capturing _ | reporting _ => .reporting
  | describing _ | locating _ | walking .. | panicked _ => .halting (some .report)
  | halting told => .halting told
  | stopped told => .done told

lemma advance_entering (k : Kernel) (code : UInt64) : advance k (entering code) =
    ({ k with faults := k.faults.claim.2 },
      if k.faults.claim.1 then capturing code else refused) := by
  rw [advance]
  rcases k.faults.claim with ⟨_ | _, s⟩ <;> rfl

lemma stage_below {height : Nat} (table : TableFrame height) (entry : Entry) :
    (below address height table entry).stage = .halting (some .report) := by
  cases height with
  | zero => rfl
  | succ height =>
      rw [below]
      cases table.child? entry <;> rfl

/-- The step of a walk: a line, if the entry can be read. -/
lemma advance_walking (k : Kernel) (address : VirtAddr) {height : Nat}
    (table : TableFrame height) : advance k (walking address height table) =
      match k.memory.readEntry (table.slot address) with
      | .ok entry =>
        ({ k with
            log := k.log.push (.walkStep .error table.debugText (address.index height) entry) },
          below address height table entry)
      | .error p => (k, panicked p) := by
  have hentry := table.run_reportEntry_eq .error address
    ({ memory := k.memory, source := (), log := k.log } : Store Unit)
  rw [EStateM.run] at hentry
  rw [advance, hentry]
  cases k.memory.readEntry (table.slot address) <;> rfl

/-- **A step of a handler is a step that the monitor knows**, or one that it does not see. -/
theorem advance_stage (k : Kernel) (h : Handler) :
    Prod.map board stage (advance k h) = (k.board, h.stage) ∨
    Prod.map board stage (advance k h) = FaultHandler.advance k.board h.stage := by
  cases h with
  | raised | capturing | panicked => exact .inl rfl
  | refused | halting | stopped => exact .inr rfl
  | entering code =>
      right
      rw [advance_entering]
      change _ = FaultHandler.advance k.board .entering
      rw [FaultHandler.advance_entering]
      change (_, stage (if k.faults.claim.1 then _ else _)) = (_, if k.faults.claim.1 then _ else _)
      cases k.faults.claim.1 <;> rfl
  | reporting fault => exact .inr (Prod.ext (board_push k (.pageFault fault)) rfl)
  | describing address =>
      exact .inl (Prod.ext (board_push k (.faultControl k.processor.cr0)) rfl)
  | locating address =>
      left
      rw [advance]
      split <;> rfl
  | walking address height table =>
      left
      rw [advance_walking]
      cases k.memory.readEntry (table.slot address) with
      | error p => rfl
      | ok entry =>
          exact Prod.ext
            (board_push k (.walkStep .error table.debugText (address.index height) entry))
            (stage_below table entry)

/-- What the handler was told, once it has entered. -/
def told (h : Handler) : Option FaultEntry :=
  h.stage.told

/-- The handler has neither tried to claim the machine nor halted it. -/
def isFresh (h : Handler) : Bool :=
  h.stage.isFresh

/-- The handler has halted the machine. -/
def hasHalted (h : Handler) : Bool :=
  h.stage.hasHalted

/-- **A handler is told to report** in the step in which it finds the machine running. -/
theorem told_report_iff (htold : h.told = none) : (advance k h).2.told = some .report ↔
    (∃ code, h = entering code) ∧ k.faults = .running := by
  cases h with
  | entering code =>
      rw [advance_entering]
      cases k.faults
      case running => exact ⟨fun _ => ⟨⟨code, rfl⟩, rfl⟩, fun _ => rfl⟩
      case faultHandling | halted => exact ⟨nofun, nofun⟩
  | raised | refused => exact ⟨nofun, nofun⟩
  | halting told | stopped told =>
      obtain rfl : told = none := htold
      exact ⟨nofun, nofun⟩
  | capturing | reporting | describing | locating | walking | panicked => cases htold

/-- The steps that a handler which comes too late takes until it has halted the machine. -/
def stepsLeft? : Handler → Option Nat
  | raised .. => some 3
  | entering _ => some 2
  | refused => some 1
  | stopped (some .haltNow) => some 0
  | _ => none

lemma stepsLeft?_advance (hlate : k.faults ≠ .running) (hleft : h.stepsLeft? = some n) :
    (advance k h).2.stepsLeft? = some (n - 1) := by
  cases h with
  | raised | refused => exact congrArg (some <| · - 1) (Option.some.inj hleft)
  | entering code =>
      rw [advance_entering]
      cases hs : k.faults
      case running => exact absurd hs hlate
      case faultHandling | halted => exact congrArg (some <| · - 1) (Option.some.inj hleft)
  | stopped told =>
      rcases told with _ | _ | _
      case none | some.report => cases hleft
      case some.haltNow => exact congrArg (some <| · - 1) (Option.some.inj hleft)
  | capturing | reporting | describing | locating | walking | halting | panicked => cases hleft

/-- Nobody who comes too late is told to report. -/
lemma told_of_stepsLeft? (hleft : h.stepsLeft? = some n) :
    h.told ≠ some .report ∧ (n = 0 → h.told = some .haltNow) := by
  cases h with
  | raised | entering | refused =>
      cases hleft
      exact ⟨nofun, nofun⟩
  | stopped told =>
      rcases told with _ | _ | _
      case none | some.report => cases hleft
      case some.haltNow => exact ⟨nofun, fun _ => rfl⟩
  | capturing | reporting | describing | locating | walking | halting | panicked => cases hleft

end Handler

/-! ## A handler that nobody interrupts -/

namespace Handler

variable {a b c : Kernel × Handler} {address : VirtAddr} {code : UInt64}

/-- A handler on its own gets from one point to another. -/
def Leads (a b : Kernel × Handler) : Prop :=
  ∃ n, (Function.uncurry advance)^[n] a = b

lemma Leads.refl (a : Kernel × Handler) : Leads a a :=
  ⟨0, rfl⟩

lemma Leads.step {h : Handler} (hb : Leads (advance k h) b) : Leads (k, h) b := by
  obtain ⟨n, hn⟩ := hb
  exact ⟨n + 1, hn⟩

lemma Leads.trans (hab : Leads a b) (hbc : Leads b c) : Leads a c := by
  obtain ⟨m, rfl⟩ := hab
  obtain ⟨n, rfl⟩ := hbc
  exact ⟨n + m, Function.iterate_add_apply _ n m a⟩

/-- Where a handler is once something that it does has ended. -/
def concluded (h : Handler) : EStateM.Result Panic Kernel Unit → Kernel × Handler
  | .ok () k => (k, h)
  | .error p k => (k, panicked p)

/-- What a walk that is reported does to the kernel. -/
def walked (k : Kernel) : EStateM.Result Panic (Store Unit) Unit → EStateM.Result Panic Kernel Unit
  | .ok () s => .ok () { k with log := s.log }
  | .error p s => .error p { k with log := s.log }

/-- **A handler reports the entries on the way from a table**, one after the other. -/
theorem leads_walking {height : Nat} (table : TableFrame height) (k : Kernel) :
    Leads (k, walking address height table) (concluded (halting (some .report))
      (walked k ((table.reportWalk .error address height).run
        { memory := k.memory, source := (), log := k.log }))) := by
  induction height generalizing k with
  | zero =>
      refine .step ?_
      rw [advance_walking, TableFrame.reportWalk, Action.run_discard_eq, EStateM.run_bind,
        TableFrame.run_reportEntry_eq]
      cases k.memory.readEntry (table.slot address) <;> exact .refl _
  | succ height ih =>
      refine .step ?_
      rw [advance_walking, TableFrame.reportWalk, EStateM.run_bind, TableFrame.run_reportEntry_eq]
      cases k.memory.readEntry (table.slot address) with
      | error p => exact .refl _
      | ok entry =>
          simp only [below]
          cases table.child? entry with
          | none => exact .refl _
          | some child => exact ih child _

/-- **A handler reports a fault**, one line after the other. -/
theorem leads_capturing (k : Kernel) (code : UInt64) : Leads (k, capturing code)
    (concluded (halting (some .report)) ((reportFault code).run k)) := by
  -- The first lines do not panic, and what is left is the walk, if memory is mapped.
  let fault := PageFault.capture k.processor code
  let noted : Kernel :=
    { k with log := (k.log.push (.pageFault fault)).push (.faultControl k.processor.cr0) }
  have hrun : (reportFault code).run k =
      (if k.directMap?.isSome then reportWalk fault.address else pure ()).run noted := rfl
  have hlocating : advance noted (locating fault.address) =
      if k.directMap?.isSome then
        (noted, walking fault.address rootHeight ⟨PagingControl.activeRoot k.processor⟩)
      else (noted, halting (some .report)) := rfl
  refine .step (.step (.step (.step ?_)))
  change Leads (advance noted (locating fault.address)) _
  rw [hrun, hlocating]
  split
  case isTrue => exact leads_walking _ noted
  case isFalse => exact .refl _

/-- What is done about the first fault. -/
lemma run_handleFault (hs : k.faults = .running) : (handleFault code).run k =
    match (reportFault code).run { k with faults := .faultHandling } with
      | .ok () k => .ok () { k with faults := .halted }
      | .error p k => .error p k := by
  rw [handleFault, EStateM.run_bind, EStateM.run_get]
  simp only [hs, FaultState.enter, FaultState.claim, EStateM.run_bind, EStateM.run_modify]
  cases (reportFault code).run { k with faults := .faultHandling } <;> rfl

/-- What is done about every other fault. -/
lemma run_handleFault_of_ne (hs : k.faults ≠ .running) :
    (handleFault code).run k = .ok () { k with faults := .halted } := by
  rw [handleFault, EStateM.run_bind, EStateM.run_get]
  cases hk : k.faults with
  | running => exact absurd hk hs
  | faultHandling | halted => simp only [hk]; rfl

lemma leads_entering (k : Kernel) (code : UInt64) : Leads (k, entering code)
    (concluded (stopped (some k.faults.enter.1)) ((handleFault code).run k)) := by
  refine .step ?_
  rw [advance_entering]
  cases hs : k.faults with
  | running =>
      rw [run_handleFault hs]
      -- The handler claims the machine, and halts it once the report is through.
      refine (leads_capturing { k with faults := .faultHandling } code).trans ?_
      cases (reportFault code).run { k with faults := .faultHandling } with
      | ok _ k => exact .step (.refl _)
      | error p k => exact .refl _
  | faultHandling | halted =>
      rw [run_handleFault_of_ne (by rw [hs]; decide)]
      exact .step (.refl _)

/-- **A handler on its own does what a page fault does.** -/
theorem leads_raised (k : Kernel) (address : VirtAddr) (code : UInt64) :
    Leads (k, raised address code)
      (concluded (stopped (some k.faults.enter.1)) ((raiseFault address code).run k)) :=
  .step (leads_entering { k with processor := { k.processor with cr2 := address.value } } code)

end Handler

/-! ## Runs -/

/-- Handlers of page faults, and the kernel they run on. -/
abbrev Handlers : Type :=
  Threads Kernel Handler

namespace Handlers

variable {t : Handlers} {i : Nat} {h : Handler}

/-- Handlers before their first step: one for each fault, and where there is none, somebody who only
halts the machine. -/
def start (k : Kernel) (entries : List (Option PageFault)) : Handlers where
  shared := { k with faults := .running }
  locals := entries.map fun
    | some fault => .raised fault.address fault.code.bits
    | none => .halting none

/-- What the monitor knows of the handlers. -/
def monitored (t : Handlers) : FaultHandlers :=
  t.view board Handler.stage

/-- **A run of handlers is a run that the monitor knows.** -/
theorem monitored_run (t : Handlers) (schedule : List Nat) : ∃ schedule',
    monitored (t.run Handler.advance schedule) =
      (monitored t).run FaultHandler.advance schedule' :=
  Threads.view_run Handler.advance_stage t schedule

lemma locals_monitored (hi : t.locals[i]? = some h) :
    (monitored t).locals[i]? = some h.stage := by
  rw [monitored, Threads.view, List.getElem?_map, hi, Option.map_some]

/-- **Handlers are where the monitor lets them be**, in every interleaving. -/
theorem sound_run (k : Kernel) (entries : List (Option PageFault)) (schedule : List Nat) :
    FaultHandlers.Sound k.faultReports
      (monitored ((start k entries).run Handler.advance schedule)) := by
  obtain ⟨schedule', hrun⟩ := monitored_run (start k entries) schedule
  rw [hrun]
  refine FaultHandlers.Sound.run (t := monitored (start k entries)) ?_ schedule'
  refine FaultHandlers.Sound.of_fresh (t := monitored (start k entries)) rfl fun h hh => ?_
  obtain ⟨handler, hhandler, rfl⟩ := List.mem_map.mp hh
  obtain ⟨entry, -, rfl⟩ := List.mem_map.mp hhandler
  cases entry <;> rfl

/-- The machine never goes back. -/
lemma rank_le_run (t : Handlers) (schedule : List Nat) :
    t.shared.faults.rank ≤ (t.run Handler.advance schedule).shared.faults.rank := by
  obtain ⟨schedule', hrun⟩ := monitored_run t schedule
  have hle := FaultHandlers.rank_le_run (monitored t) schedule'
  rwa [← hrun] at hle

/-- What a handler was told stays so. -/
lemma told_run {a : FaultEntry} (hi : t.locals[i]? = some h) (htold : h.told = some a)
    (schedule : List Nat) :
    ∃ h', (t.run Handler.advance schedule).locals[i]? = some h' ∧ h'.told = some a := by
  obtain ⟨schedule', hrun⟩ := monitored_run t schedule
  obtain ⟨s, hs, htold'⟩ := FaultHandlers.told_run (locals_monitored hi) htold schedule'
  rw [← hrun, monitored, Threads.view, List.getElem?_map] at hs
  obtain ⟨h', hi', rfl⟩ := Option.map_eq_some_iff.mp hs
  exact ⟨h', hi', htold'⟩

/-- **A handler that enters too late** is told to halt, within three steps of its own. -/
theorem told_of_late (hlate : t.shared.faults ≠ .running) (hi : t.locals[i]? = some h)
    (hentering : h.stage = .entering) (schedule : List Nat) :
    ∃ h', (t.run Handler.advance schedule).locals[i]? = some h' ∧ h'.told ≠ some .report ∧
      (3 ≤ schedule.count i → h'.told = some .haltNow) := by
  obtain ⟨n, hn, hle⟩ : ∃ n, h.stepsLeft? = some n ∧ n ≤ 3 := by
    cases h with
    | raised => exact ⟨3, rfl, le_refl 3⟩
    | entering => exact ⟨2, rfl, by decide⟩
    | refused | capturing | reporting | describing | locating | walking | halting | stopped
    | panicked => cases hentering
  have hkept : ∀ (t : Handlers) (j : Nat) (x : Handler), t.shared.faults ≠ .running →
      t.locals[j]? = some x → (t.step Handler.advance j).shared.faults ≠ .running :=
    fun t j _ hlate _ => FaultState.ne_running_of_le hlate (rank_le_run t [j])
  obtain ⟨h', hi', hleft⟩ := Threads.run_counts_down hkept
    (fun _ _ _ hlate hleft => Handler.stepsLeft?_advance hlate hleft) hlate hi hn schedule
  obtain ⟨hreport, hhalt⟩ := Handler.told_of_stepsLeft? hleft
  exact ⟨h', hi', hreport, fun hcount => hhalt (by omega)⟩

/-- **A handler that nobody interrupts does what a page fault does.** -/
theorem run_alone {address : VirtAddr} {code : UInt64}
    (hi : t.locals[i]? = some (.raised address code)) : ∃ n,
      t.run Handler.advance (List.replicate n i) =
        match (raiseFault address code).run t.shared with
        | .ok () k =>
          { shared := k, locals := t.locals.set i (.stopped (some t.shared.faults.enter.1)) }
        | .error p k => { shared := k, locals := t.locals.set i (.panicked p) } := by
  obtain ⟨n, hn⟩ := Handler.leads_raised t.shared address code
  refine ⟨n, ?_⟩
  rw [Threads.run_replicate hi, hn]
  cases (raiseFault address code).run t.shared <;> rfl

/-- **Page faults are reported at most once.**  At every moment of every interleaving of any number
of handlers, and of others that only halt the machine: at most one handler is ever told to report,
and one is told so exactly if it claims the machine before any other has tried to and before anybody
has halted it.  The state of the machine only moves forward.  Once two handlers have entered, or
anybody has halted the machine, it is halted for good, and a handler that enters after that is never
told to report, and is told to halt within three steps of its own.  The log has at most one report
more than at the start. -/
theorem run_reports_once (k : Kernel) (entries : List (Option PageFault)) (schedule : List Nat) :
    let t : Handlers := (start k entries).run Handler.advance schedule
    (∀ (i j : Nat) (h h' : Handler) (further : List Nat), t.locals[i]? = some h →
      (t.run Handler.advance further).locals[j]? = some h' →
      h.told = some .report → h'.told = some .report → i = j) ∧
    (∀ h ∈ t.locals, h.told = none →
      ((Handler.advance t.shared h).2.told = some .report ↔
        (∃ code, h = .entering code) ∧ ∀ other ∈ t.locals, other.isFresh = true)) ∧
    (∀ further, t.shared.faults.rank ≤ (t.run Handler.advance further).shared.faults.rank) ∧
    ((∃ (i j : Nat) (h h' : Handler), i ≠ j ∧ t.locals[i]? = some h ∧ t.locals[j]? = some h' ∧
        h.told.isSome = true ∧ h'.told.isSome = true) ∨
      (∃ h ∈ t.locals, h.hasHalted = true) →
      ∀ further, (t.run Handler.advance further).shared.faults = .halted ∧
        ∀ (i : Nat) (h : Handler), t.locals[i]? = some h → h.stage = .entering →
          ∃ h', (t.run Handler.advance further).locals[i]? = some h' ∧ h'.told ≠ some .report ∧
            (3 ≤ further.count i → h'.told = some .haltNow)) ∧
    t.shared.faultReports ≤ k.faultReports + 1 := by
  intro t
  have hsound := sound_run k entries schedule
  refine ⟨fun i j h h' further hi hj htold htold' => ?_, fun h hh htold => ?_, rank_le_run t,
    fun hover further => ?_, hsound.reports_le⟩
  · -- What `i` was told it is told later too, and then one of the two is the other.
    obtain ⟨h'', hi', htold''⟩ := told_run hi htold further
    have hlater := sound_run k entries (schedule ++ further)
    rw [Threads.run_append] at hlater
    exact hlater.report_unique (locals_monitored hi') (locals_monitored hj) htold'' htold'
  · rw [Handler.told_report_iff htold]
    exact and_congr_right fun _ => hsound.running_iff.trans List.forall_mem_map
  · have hhalted : t.shared.faults = .halted := by
      rcases hover with ⟨i, j, h, h', hij, hi, hj, htold, htold'⟩ | ⟨h, hh, hhalted⟩
      · exact hsound.halted_of_told hij (locals_monitored hi) (locals_monitored hj) htold htold'
      · exact hsound.halted_of_hasHalted (List.mem_map_of_mem hh) hhalted
    have hle := rank_le_run t further
    rw [hhalted] at hle
    refine ⟨FaultState.eq_halted_of_le hle, fun i h hi hentering => ?_⟩
    exact told_of_late (by rw [hhalted]; decide) hi hentering further

/-- Three faults, the second of which is a write. -/
def threeFaults : List (Option PageFault) :=
  [some ⟨⟨0x1000⟩, ⟨0⟩⟩, some ⟨⟨0x2000⟩, ⟨2⟩⟩, some ⟨⟨0x3000⟩, ⟨0⟩⟩]

/-- A fault is interrupted by another one before it is reported, and by a third one after the second
has halted the machine: the first is the only one that is reported. -/
theorem run_reports_once_sample :
    (((start {} threeFaults).run Handler.advance [0, 0, 1, 1, 1]).run Handler.advance
      [2, 0, 0, 2, 2, 0]).shared.faults = .halted ∧
    (∃ h, (((start {} threeFaults).run Handler.advance [0, 0, 1, 1, 1]).run Handler.advance
      [2, 0, 0, 2, 2, 0]).locals[2]? = some h ∧ h.told = some .haltNow) ∧
    ((start {} threeFaults).run Handler.advance
      [0, 0, 1, 1, 1, 2, 0, 0, 2, 2, 0]).shared.faultReports = 1 := by
  obtain ⟨-, -, -, hover, -⟩ := run_reports_once {} threeFaults [0, 0, 1, 1, 1]
  obtain ⟨hhalted, hlate⟩ := hover (.inl ⟨0, 1, .capturing 0, .stopped (some .haltNow), by decide,
    rfl, rfl, rfl, rfl⟩) [2, 0, 0, 2, 2, 0]
  obtain ⟨h, hi, -, htold⟩ := hlate 2 (.raised ⟨0x3000⟩ 0) rfl rfl
  exact ⟨hhalted, ⟨h, hi, htold (by decide)⟩, by decide⟩

end Handlers

end Kernel

end KernelMemory
