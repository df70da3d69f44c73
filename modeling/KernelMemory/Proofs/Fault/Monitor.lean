import KernelMemory.Fault.Monitor
import KernelMemory.Proofs.Sync.Runs

/-!
# One handler reports

Handlers of page faults interrupt each other anywhere, also between the compare-exchange and the
store of one that was refused.  What holds between their steps is not a matter of one handler's
calls: it says which handlers can be in flight while the monitor is in a state.

* `FaultState.Admits` — where handlers can be; **`FaultHandler.admits_advance`**.
* `FaultHandler.claims_advance`, `FaultHandler.reports_advance` — what a step counts.
* **`FaultHandlers.Sound.step`**, **`FaultHandlers.Sound.run`** — handlers that start together keep
  to it in every interleaving.
* **`FaultHandlers.Sound.report_unique`**, **`FaultHandlers.Sound.halted_of_told`**,
  **`FaultHandlers.Sound.reports_le`** — one of them is told to report, two of them halt the
  machine, and there is at most one report.
-/

namespace KernelMemory

open Sync (Threads)

/-! ## The machine -/

namespace FaultState

variable {s s' : FaultState}

lemma rank_le_claim (s : FaultState) : s.rank ≤ s.claim.2.rank := by
  cases s <;> decide

lemma rank_le_two (s : FaultState) : s.rank ≤ 2 := by
  cases s <;> decide

lemma ne_running_of_le (h : s ≠ running) (hle : s.rank ≤ s'.rank) : s' ≠ running := by
  rintro rfl
  cases s
  case running => exact h rfl
  case faultHandling | halted => exact absurd hle (by decide)

lemma eq_halted_of_le (hle : halted.rank ≤ s.rank) : s = halted := by
  cases s
  case running | faultHandling => exact absurd hle (by decide)
  case halted => rfl

end FaultState

/-! ## One handler -/

namespace FaultHandler

variable {board : FaultBoard} {h : FaultHandler} {a : FaultEntry}

lemma advance_entering (board : FaultBoard) : advance board entering =
    ({ board with state := board.state.claim.2 },
      if board.state.claim.1 then reporting else refused) := by
  rw [advance]
  rcases board.state.claim with ⟨_ | _, s⟩ <;> rfl

/-- What the handler was told, once it has entered. -/
def told : FaultHandler → Option FaultEntry
  | entering | refused => none
  | reporting => some .report
  | halting told | done told => told

/-- The handler has neither tried to claim the machine nor halted it. -/
def isFresh : FaultHandler → Bool
  | entering | halting none => true
  | _ => false

/-- The handler has halted the machine. -/
def hasHalted : FaultHandler → Bool
  | done _ => true
  | _ => false

/-- Whether the handler was told to report. -/
def claims (h : FaultHandler) : Bool :=
  h.told = some .report

/-- Whether the handler has reported its fault. -/
def hasReported : FaultHandler → Bool
  | halting told | done told => told = some .report
  | _ => false

lemma claims_of_hasReported (hreported : h.hasReported = true) : h.claims = true := by
  cases h
  case entering | refused | reporting => cases hreported
  case halting | done => exact hreported

lemma told_of_isFresh (hfresh : h.isFresh = true) : h.told = none := by
  cases h
  case entering => rfl
  case halting told =>
    cases told with
    | none => rfl
    | some => cases hfresh
  case refused | reporting | done => cases hfresh

lemma claims_of_isFresh (hfresh : h.isFresh = true) : h.claims = false := by
  rw [claims, told_of_isFresh hfresh]
  rfl

lemma hasReported_of_isFresh (hfresh : h.isFresh = true) : h.hasReported = false := by
  cases hreported : h.hasReported with
  | false => rfl
  | true =>
      have hclaims := claims_of_hasReported hreported
      rw [claims_of_isFresh hfresh] at hclaims
      cases hclaims

/-- **The machine only moves forward.** -/
theorem rank_advance (board : FaultBoard) (h : FaultHandler) :
    board.state.rank ≤ (advance board h).1.state.rank := by
  cases h with
  | entering =>
      rw [advance_entering]
      exact board.state.rank_le_claim
  | refused | halting => exact board.state.rank_le_two
  | reporting | done => exact le_refl _

/-- What a handler was told, it was told for good. -/
lemma told_advance (htold : h.told = some a) : (advance board h).2.told = some a := by
  cases h with
  | entering | refused => cases htold
  | reporting | halting | done => exact htold

/-- No handler is fresh after a step. -/
lemma isFresh_advance (board : FaultBoard) (h : FaultHandler) :
    (advance board h).2.isFresh = false := by
  cases h with
  | entering =>
      rw [advance_entering]
      cases board.state.claim.1 <;> rfl
  | refused | reporting | halting | done => rfl

/-- A step that reports is counted on the board. -/
lemma reports_advance (board : FaultBoard) (h : FaultHandler) :
    (advance board h).1.reports + h.hasReported.toNat =
      board.reports + (advance board h).2.hasReported.toNat := by
  cases h with
  | entering =>
      rw [advance_entering]
      cases board.state.claim.1 <;> rfl
  | refused | reporting | halting | done => rfl

/-- **A handler claims the machine by taking it out of the running state.** -/
theorem claims_advance (board : FaultBoard) (h : FaultHandler) :
    (advance board h).2.claims.toNat + ((advance board h).1.state = .running : Bool).toNat ≤
      h.claims.toNat + (board.state = .running : Bool).toNat := by
  cases h with
  | entering =>
      rw [advance_entering]
      cases board.state <;> exact Nat.le_refl _
  | reporting | done => exact le_refl _
  | refused => exact Nat.zero_le _
  | halting => exact Nat.le_add_right _ _

end FaultHandler

/-! ## Where handlers can be -/

/-- Where a handler can be while the machine is in a state. -/
def FaultState.Admits (s : FaultState) (h : FaultHandler) : Prop :=
  match s with
  | running => h.isFresh = true
  | faultHandling => h.hasHalted = false ∧ h ≠ .halting (some .haltNow)
  | halted => h ≠ .halting (some .haltNow)

namespace FaultHandler

variable {board : FaultBoard} {h : FaultHandler} {s s' : FaultState}

lemma not_hasHalted_of_isFresh (hfresh : h.isFresh = true) : h.hasHalted = false := by
  cases h
  case done => cases hfresh
  case entering | refused | reporting | halting => rfl

lemma ne_halting_of_isFresh (hfresh : h.isFresh = true) : h ≠ halting (some .haltNow) := by
  rintro rfl
  cases hfresh

/-- A machine that has gone on admits the handlers that it admitted before. -/
lemma admits_mono (hadmits : s.Admits h) (hle : s.rank ≤ s'.rank) : s'.Admits h := by
  cases s <;> cases s' <;> first | exact hadmits | skip
  case running.faultHandling =>
    exact ⟨not_hasHalted_of_isFresh hadmits, ne_halting_of_isFresh hadmits⟩
  case running.halted => exact ne_halting_of_isFresh hadmits
  case faultHandling.halted => exact hadmits.2
  all_goals exact absurd hle (by decide)

/-- **A step takes a handler to where it can be.** -/
theorem admits_advance (hadmits : board.state.Admits h) :
    (advance board h).1.state.Admits (advance board h).2 := by
  cases h with
  | entering =>
      rw [advance_entering]
      cases board.state with
      | running | faultHandling => exact ⟨rfl, nofun⟩
      | halted => exact nofun
  | reporting =>
      change board.state.Admits (halting (some .report))
      cases hs : board.state with
      | running =>
          rw [hs] at hadmits
          cases hadmits
      | faultHandling => exact ⟨rfl, nofun⟩
      | halted => exact nofun
  | refused | halting => exact nofun
  | done => exact hadmits

end FaultHandler

/-! ## All handlers -/

/-- Handlers of page faults, and the monitor they share. -/
abbrev FaultHandlers : Type :=
  Threads FaultBoard FaultHandler

namespace FaultHandlers

variable {t : FaultHandlers} {i j n : Nat} {h h' : FaultHandler} {a : FaultEntry}

/-- How many handlers were told to report. -/
def claims (t : FaultHandlers) : Nat :=
  (t.locals.map fun h => h.claims.toNat).sum

/-- How many handlers have reported their fault. -/
def reported (t : FaultHandlers) : Nat :=
  (t.locals.map fun h => h.hasReported.toNat).sum

/-- **Handlers are where the machine lets them be**: the first of them takes it out of the running
state, so at most one was told to report. -/
structure Sound (n : Nat) (t : FaultHandlers) : Prop where
  admitted : ∀ h ∈ t.locals, t.shared.state.Admits h
  begun : t.shared.state = .running ∨ ∃ h ∈ t.locals, h.isFresh = false
  claims_le : t.claims + (t.shared.state = .running : Bool).toNat ≤ 1
  reports_eq : t.shared.reports = n + t.reported

namespace Sound

/-- **A step keeps to it.** -/
theorem step (hsound : Sound n t) (hi : t.locals[i]? = some h) :
    Sound n (t.step FaultHandler.advance i) := by
  have hadmits := hsound.admitted h (List.mem_of_getElem? hi)
  have hstep : (t.step FaultHandler.advance i).locals[i]? =
      some (FaultHandler.advance t.shared h).2 := Threads.locals_step_self hi
  constructor
  case admitted =>
    intro x hx
    rw [Threads.shared_step hi]
    obtain rfl | ⟨j, -, hj⟩ := Threads.mem_step hi hx
    · exact FaultHandler.admits_advance hadmits
    · exact FaultHandler.admits_mono (hsound.admitted x (List.mem_of_getElem? hj))
        (FaultHandler.rank_advance t.shared h)
  case begun =>
    exact .inr ⟨_, List.mem_of_getElem? hstep, FaultHandler.isFresh_advance t.shared h⟩
  case claims_le =>
    have hsum : claims (t.step FaultHandler.advance i) + h.claims.toNat =
        t.claims + (FaultHandler.advance t.shared h).2.claims.toNat := Threads.sum_step _ hi
    have hown := FaultHandler.claims_advance t.shared h
    have hle := hsound.claims_le
    rw [Threads.shared_step hi]
    omega
  case reports_eq =>
    have hsum : reported (t.step FaultHandler.advance i) + h.hasReported.toNat =
        t.reported + (FaultHandler.advance t.shared h).2.hasReported.toNat := Threads.sum_step _ hi
    have hown := FaultHandler.reports_advance t.shared h
    have heq := hsound.reports_eq
    rw [Threads.shared_step hi]
    omega

/-- **Every run keeps to it.** -/
theorem run (hsound : Sound n t) (schedule : List Nat) :
    Sound n (t.run FaultHandler.advance schedule) :=
  Threads.run_keeps (fun _ _ _ hsound hi => hsound.step hi) hsound schedule

/-- Handlers that have done nothing keep to it. -/
lemma of_fresh (hrunning : t.shared.state = .running)
    (hfresh : ∀ h ∈ t.locals, h.isFresh = true) : Sound t.shared.reports t := by
  have hclaims : t.claims = 0 := by
    refine List.sum_eq_zero fun x hx => ?_
    obtain ⟨h, hh, rfl⟩ := List.mem_map.mp hx
    rw [FaultHandler.claims_of_isFresh (hfresh h hh)]
    rfl
  have hreports : t.reported = 0 := by
    refine List.sum_eq_zero fun x hx => ?_
    obtain ⟨h, hh, rfl⟩ := List.mem_map.mp hx
    rw [FaultHandler.hasReported_of_isFresh (hfresh h hh)]
    rfl
  constructor
  case admitted =>
    rw [hrunning]
    exact hfresh
  case begun => exact .inl hrunning
  case claims_le =>
    rw [hclaims, hrunning]
    exact le_refl 1
  case reports_eq => rw [hreports, Nat.add_zero]

/-- **The machine runs until a handler has begun.** -/
theorem running_iff (hsound : Sound n t) :
    t.shared.state = .running ↔ ∀ h ∈ t.locals, h.isFresh = true := by
  constructor
  · intro hrunning h hh
    have hadmits := hsound.admitted h hh
    rwa [hrunning] at hadmits
  · intro hfresh
    rcases hsound.begun with hrunning | ⟨h, hh, hbegun⟩
    · exact hrunning
    · rw [hfresh h hh] at hbegun
      cases hbegun

/-- **At most one handler is told to report.** -/
theorem report_unique (hsound : Sound n t) (hi : t.locals[i]? = some h)
    (hj : t.locals[j]? = some h') (hreport : h.told = some .report)
    (hreport' : h'.told = some .report) : i = j := by
  by_contra hij
  have hle := hsound.claims_le
  have hsum := Threads.add_le_sum (fun h : FaultHandler => h.claims.toNat) hij hi hj
  have hone : ∀ h : FaultHandler, h.told = some .report → h.claims.toNat = 1 := by
    intro h hh
    rw [FaultHandler.claims, hh]
    rfl
  simp only [hone h hreport, hone h' hreport'] at hsum
  simp only [claims] at hle
  omega

/-- **A handler that has halted the machine** leaves it halted. -/
theorem halted_of_hasHalted (hsound : Sound n t) (hh : h ∈ t.locals)
    (hhalted : h.hasHalted = true) : t.shared.state = .halted := by
  have hadmits := hsound.admitted h hh
  cases hs : t.shared.state with
  | running =>
      rw [hs] at hadmits
      rw [FaultHandler.not_hasHalted_of_isFresh hadmits] at hhalted
      cases hhalted
  | faultHandling =>
      rw [hs] at hadmits
      rw [hadmits.1] at hhalted
      cases hhalted
  | halted => rfl

/-- A handler that was told to halt has halted the machine. -/
lemma hasHalted_of_told (hsound : Sound n t) (hh : h ∈ t.locals)
    (htold : h.told = some .haltNow) : h.hasHalted = true := by
  have hadmits := hsound.admitted h hh
  cases h with
  | entering | refused | reporting => cases htold
  | done => rfl
  | halting told =>
      obtain rfl : told = some .haltNow := htold
      cases hs : t.shared.state <;> rw [hs] at hadmits
      case running => cases hadmits
      case faultHandling => exact absurd rfl hadmits.2
      case halted => exact absurd rfl hadmits

/-- **Two handlers that have entered** have halted the machine. -/
theorem halted_of_told (hsound : Sound n t) (hij : i ≠ j) (hi : t.locals[i]? = some h)
    (hj : t.locals[j]? = some h') (htold : h.told.isSome = true) (htold' : h'.told.isSome = true) :
    t.shared.state = .halted := by
  have hhalts : ∀ h ∈ t.locals, h.told = some .haltNow → t.shared.state = .halted :=
    fun h hh htold => hsound.halted_of_hasHalted hh (hsound.hasHalted_of_told hh htold)
  obtain ⟨a, ha⟩ := Option.isSome_iff_exists.mp htold
  obtain ⟨a', ha'⟩ := Option.isSome_iff_exists.mp htold'
  cases a with
  | haltNow => exact hhalts h (List.mem_of_getElem? hi) ha
  | report =>
      cases a' with
      | haltNow => exact hhalts h' (List.mem_of_getElem? hj) ha'
      | report => exact absurd (hsound.report_unique hi hj ha ha') hij

/-- **There is at most one report.** -/
theorem reports_le (hsound : Sound n t) : t.shared.reports ≤ n + 1 := by
  have hsum : t.reported ≤ t.claims := by
    refine List.sum_le_sum fun h _ => ?_
    cases hreported : h.hasReported with
    | false => exact Nat.zero_le _
    | true => rw [FaultHandler.claims_of_hasReported hreported]
  have hle := hsound.claims_le
  rw [hsound.reports_eq]
  omega

end Sound

/-! ## Later -/

/-- The machine never goes back. -/
lemma rank_le_run (t : FaultHandlers) (schedule : List Nat) :
    t.shared.state.rank ≤ (t.run FaultHandler.advance schedule).shared.state.rank := by
  refine Threads.run_keeps (P := fun u : FaultHandlers => t.shared.state.rank ≤ u.shared.state.rank)
    (fun u i h hle hi => ?_) (le_refl _) schedule
  rw [Threads.shared_step hi]
  exact hle.trans (FaultHandler.rank_advance u.shared h)

/-- What a handler was told stays so. -/
lemma told_run (hi : t.locals[i]? = some h) (htold : h.told = some a) (schedule : List Nat) :
    ∃ h', (t.run FaultHandler.advance schedule).locals[i]? = some h' ∧ h'.told = some a := by
  refine Threads.run_keeps
    (P := fun u : FaultHandlers => ∃ h', u.locals[i]? = some h' ∧ h'.told = some a)
    (fun u j x hkept hj => ?_) ⟨h, hi, htold⟩ schedule
  obtain ⟨h', hi', htold'⟩ := hkept
  by_cases hji : j = i
  · subst hji
    obtain rfl : x = h' := Option.some.inj (hj.symm.trans hi')
    exact ⟨_, Threads.locals_step_self hj, FaultHandler.told_advance htold'⟩
  · exact ⟨h', (Threads.locals_step_of_ne hji).trans hi', htold'⟩

end FaultHandlers

end KernelMemory
