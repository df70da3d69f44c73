import KernelMemory.Sync.SpinLock
import Mathlib.Tactic.Lemma

/-!
# Steps of a thread that uses a spin lock

A step is looked at in three ways, for three kinds of laws.  Each is one case analysis of
`Thread.advance`, so that the laws of all threads need none.

* `Thread.Moves`, **`Thread.moves_advance`** — what a step does to the lock, to the guard and to
  what the thread notes.
* `Thread.Current`, **`Thread.Current.advance`** — what a thread has read is still there when it
  writes.
* `Request.changesOf`, `Thread.Accounts`, **`Thread.accounts_advance`** — the changes made and to
  come are the ones that the requests ask for.
* `Thread.Deals`, **`Thread.deals_advance`** — requests are dealt with one by one, and behind a drop
  there is no guard.
* `Thread.advance_unwinding` — a panic passes over what comes before the drop.
-/

namespace KernelMemory.Sync.SpinLock

variable {α : Type} {l l' : SpinLock α}

/-- The change to the value that a request makes, if it makes one. -/
def Request.change? : Request α → Option (α → α)
  | .write value => some fun _ => value
  | .update f => some f
  | _ => none

namespace Request

/-- The changes that a thread makes that starts on some requests, with or without a guard, and gets
the given answers to its attempts.  After a panic it makes none before its guard is dropped. -/
def changesOf : (guard unwinding : Bool) → (answers : List Bool) → List (Request α) → List (α → α)
  | _, _, _, [] => []
  | _, _, answers, .unlock :: rest => changesOf false false answers rest
  | guard, true, answers, _ :: rest => changesOf guard true answers rest
  | _, false, answers, .lock :: rest => changesOf true false answers rest
  | guard, false, answers, .tryLock :: rest =>
    changesOf (guard || answers.headD false) false (answers.drop 1) rest
  | guard, false, answers, .panic :: rest => changesOf guard true answers rest
  | guard, false, answers, request :: rest =>
    (if guard then request.change?.toList else []) ++ changesOf guard false answers rest

variable {rest : List (Request α)} {request : Request α} {guard : Bool} {answers : List Bool}

/-- Under the lock an update is made, whatever comes before and after. -/
@[simp] lemma changesOf_locked (f : α → α) :
    changesOf guard false answers (locked f ++ rest) = f :: changesOf false false answers rest :=
  rfl

end Request

lemma acquire_of_locked (h : l.locked = true) : l.acquire = (false, l) := by
  rw [acquire, if_pos h]

lemma acquire_of_free (h : l.locked = false) : l.acquire = (true, { l with locked := true }) := by
  rw [acquire, h]
  rfl

/-! ## One step -/

namespace Thread

variable {t t' : Thread α} {request : Request α} {rest : List (Request α)} {f : α → α}

lemma unwinding_of_passes (hpasses : t.passes request = true) : t.progress = .unwinding := by
  cases hp : t.progress <;> cases request <;> simp_all [passes]

/-- **What a thread has read is still there when it writes**: it holds the guard, and has read the
value of the lock. -/
def Current (l : SpinLock α) (t : Thread α) : Prop :=
  ∀ v, t.progress = .writing v →
    ∃ f rest, t.program = .update f :: rest ∧ t.holdsGuard = true ∧ v = f l.value

lemma Current.congr (h : t.Current l) (hvalue : l'.value = l.value) : t.Current l' := by
  rw [Current, hvalue]
  exact h

/-- **What a step does** to the lock, to the guard and to the records of the thread. -/
inductive Moves (l : SpinLock α) (t : Thread α) : SpinLock α → Thread α → Prop
  | rests {t' : Thread α} : t'.holdsGuard = t.holdsGuard → t'.changes = t.changes →
      t'.attempts = t.attempts → Moves l t l t'
  /-- The lock is held, and the thread does not wait for it. -/
  | fails {t' : Thread α} : l.locked = true → t'.holdsGuard = t.holdsGuard →
      t'.changes = t.changes → t'.attempts = false :: t.attempts → Moves l t l t'
  | takes {t' : Thread α} : l.locked = false → t'.holdsGuard = true → t'.changes = t.changes →
      (t'.attempts = t.attempts ∨ t'.attempts = true :: t.attempts) →
      Moves l t { l with locked := true } t'
  /-- Through the guard, the value is changed as a request says. -/
  | writes {t' : Thread α} (f : α → α) : t.holdsGuard = true →
      (∃ request ∈ t.program, request.change? = some f) → t'.holdsGuard = true →
      t'.changes = f :: t.changes → t'.attempts = t.attempts →
      Moves l t { l with value := f l.value } t'
  | drops {t' : Thread α} : t.holdsGuard = true → t'.holdsGuard = false →
      t'.changes = t.changes → t'.attempts = t.attempts → Moves l t l.release t'

/-- A guard comes and goes with the flag. -/
lemma Moves.balance (h : t.Moves l l' t') (hle : t.holdsGuard.toNat ≤ l.locked.toNat) :
    l'.locked.toNat + t.holdsGuard.toNat = l.locked.toNat + t'.holdsGuard.toNat := by
  cases h with
  | rests hguard => rw [hguard]
  | fails hlocked hguard => rw [hguard]
  | takes hfree hguard =>
      rw [hfree] at hle ⊢
      rw [hguard, Nat.le_zero.mp hle]
      rfl
  | writes f hguard _ hguard' => rw [hguard, hguard']
  | drops hguard hguard' =>
      rw [hguard] at hle ⊢
      rw [hguard', Nat.le_antisymm (Bool.toNat_le _) hle]
      rfl

/-- An attempt fails just if the lock is held. -/
lemma Moves.locked (h : t.Moves l l' t') (hattempts : t'.attempts = false :: t.attempts) :
    l.locked = true := by
  cases h with
  | fails hlocked => exact hlocked
  | takes _ _ _ hanswer =>
      rcases hanswer with hanswer | hanswer <;> rw [hanswer] at hattempts
      · exact absurd hattempts.symm (List.cons_ne_self _ _)
      · cases hattempts
  | rests _ _ hsame | drops _ _ _ hsame | writes _ _ _ _ _ hsame =>
      rw [hsame] at hattempts
      exact absurd hattempts.symm (List.cons_ne_self _ _)

/-- The value changes as the thread notes. -/
lemma Moves.changes (h : t.Moves l l' t') :
    l'.value = l.value ∧ t'.changes = t.changes ∨
      ∃ f, (∃ request ∈ t.program, request.change? = some f) ∧ l'.value = f l.value ∧
        t'.changes = f :: t.changes := by
  cases h with
  | writes f _ hrequest _ hchanges => exact .inr ⟨f, hrequest, rfl, hchanges⟩
  | rests _ hchanges | drops _ _ hchanges | fails _ _ hchanges | takes _ _ hchanges =>
      exact .inl ⟨rfl, hchanges⟩

/-- Only a thread with a guard changes the value. -/
lemma Moves.value (h : t.Moves l l' t') : l'.value = l.value ∨ t.holdsGuard = true := by
  cases h with
  | writes f hguard => exact .inr hguard
  | _ => exact .inl rfl

lemma moves_take : t.Moves l (t.take l).1 (t.take l).2 := by
  rw [take]
  split
  · split <;> exact .rests rfl rfl rfl
  · cases h : l.locked with
    | false =>
        rw [acquire_of_free h]
        exact .takes h rfl rfl (.inl rfl)
    | true =>
        rw [acquire_of_locked h]
        exact .rests rfl rfl rfl

lemma moves_attempt : t.Moves l (t.attempt l).1 (t.attempt l).2 := by
  rw [attempt]
  cases h : l.locked with
  | false =>
      rw [acquire_of_free h]
      exact .takes h rfl rfl (.inr rfl)
  | true =>
      rw [acquire_of_locked h]
      exact .fails h rfl rfl rfl

lemma moves_drop : t.Moves l (t.drop l).1 (t.drop l).2 := by
  rw [drop]
  split
  case isTrue h => exact .drops h rfl rfl rfl
  case isFalse => exact .rests rfl rfl rfl

/-- With what it has read still there, a thread writes what a request makes of the value. -/
lemma moves_access (hcurrent : t.Current l) (hguard : t.holdsGuard = true)
    (hprogram : t.program = request :: rest) :
    t.Moves l (t.access l request).1 (t.access l request).2 := by
  have hmem : request ∈ t.program := hprogram ▸ List.mem_cons_self
  cases request with
  | write value => exact .writes (fun _ => value) hguard ⟨_, hmem, rfl⟩ hguard rfl rfl
  | update f =>
      rw [access]
      split
      case h_1 v hp =>
        obtain ⟨f', rest', hprogram', -, rfl⟩ := hcurrent v hp
        obtain rfl : f' = f :=
          Request.update.inj (List.cons.inj (hprogram'.symm.trans hprogram)).1
        exact .writes f' hguard ⟨_, hmem, rfl⟩ hguard rfl rfl
      case h_2 => exact .rests rfl rfl rfl
  | _ => exact .rests rfl rfl rfl

lemma moves_perform (hcurrent : t.Current l) (hprogram : t.program = request :: rest) :
    t.Moves l (t.perform l request).1 (t.perform l request).2 := by
  have haccess : t.Moves l (if t.holdsGuard then t.access l request else (l, t.next)).1
      (if t.holdsGuard then t.access l request else (l, t.next)).2 := by
    split
    case isTrue hguard => exact moves_access hcurrent hguard hprogram
    case isFalse => exact .rests rfl rfl rfl
  cases request with
  | lock => exact moves_take
  | tryLock => exact moves_attempt
  | panic => exact .rests rfl rfl rfl
  | unlock => exact moves_drop
  | read => exact haccess
  | write value => exact haccess
  | update f => exact haccess

lemma moves_advance (hcurrent : t.Current l) :
    t.Moves l (t.advance l).1 (t.advance l).2 := by
  rw [advance]
  split
  case h_1 => exact .rests rfl rfl rfl
  case h_2 request rest hprogram =>
    split
    · exact .rests rfl rfl rfl
    · exact moves_perform hcurrent hprogram

/-- A thread that is not about to write has nothing to keep. -/
lemma Current.of_not_writing (h : ∀ v, t.progress ≠ .writing v) : t.Current l :=
  fun v hv => absurd hv (h v)

/-- Before any request but an update a thread is not about to write. -/
lemma Current.not_writing (h : t.Current l) (hprogram : t.program = request :: rest)
    (hne : ∀ f, request ≠ .update f) (v : α) : t.progress ≠ .writing v := by
  intro hv
  obtain ⟨f, rest', hprogram', -⟩ := h v hv
  exact hne f (List.cons.inj (hprogram.symm.trans hprogram')).1

lemma current_take : (t.take l).2.Current (t.take l).1 := by
  refine .of_not_writing fun v => ?_
  rw [take]
  split
  case h_1 hp =>
    split
    · rw [hp]
      exact nofun
    · exact nofun
  case h_2 =>
    cases h : l.locked with
    | false =>
        rw [acquire_of_free h]
        exact nofun
    | true =>
        rw [acquire_of_locked h]
        exact nofun

lemma current_attempt (h : ∀ v, t.progress ≠ .writing v) :
    (t.attempt l).2.Current (t.attempt l).1 := by
  refine .of_not_writing fun v => ?_
  rw [attempt]
  split <;> exact h v

lemma current_drop : (t.drop l).2.Current (t.drop l).1 := by
  refine .of_not_writing fun v => ?_
  rw [drop]
  split <;> exact nofun

lemma Current.access (h : t.Current l) (hguard : t.holdsGuard = true)
    (hprogram : t.program = request :: rest) :
    (t.access l request).2.Current (t.access l request).1 := by
  cases request with
  | write value => exact .of_not_writing nofun
  | update f =>
      rw [Thread.access]
      split
      case h_1 => exact .of_not_writing nofun
      case h_2 =>
        intro v hv
        exact ⟨f, rest, hprogram, hguard, (Progress.writing.inj hv).symm⟩
  | _ => exact .of_not_writing (h.not_writing hprogram nofun)

lemma Current.perform (h : t.Current l) (hprogram : t.program = request :: rest) :
    (t.perform l request).2.Current (t.perform l request).1 := by
  have haccess : (if t.holdsGuard then t.access l request else (l, t.next)).2.Current
      (if t.holdsGuard then t.access l request else (l, t.next)).1 := by
    split
    case isTrue hguard => exact h.access hguard hprogram
    case isFalse hguard =>
      refine .of_not_writing fun v hv => ?_
      obtain ⟨-, -, -, hguard', -⟩ := h v hv
      exact hguard hguard'
  cases request with
  | lock => exact current_take
  | tryLock => exact current_attempt (h.not_writing hprogram nofun)
  | panic => exact .of_not_writing nofun
  | unlock => exact current_drop
  | read => exact haccess
  | write value => exact haccess
  | update f => exact haccess

/-- **A step keeps what the thread has read.** -/
theorem Current.advance (h : t.Current l) : (t.advance l).2.Current (t.advance l).1 := by
  rw [Thread.advance]
  split
  case h_1 => exact h
  case h_2 request rest hprogram =>
    split
    case isTrue hpasses =>
      refine .of_not_writing fun v hv => ?_
      rw [show t.next.progress = t.progress from rfl, unwinding_of_passes hpasses] at hv
      cases hv
    case isFalse => exact h.perform hprogram

lemma advance_unlock (hprogram : t.program = .unlock :: rest) :
    (t.advance l).2.program = rest ∧ (t.advance l).2.holdsGuard = false := by
  rcases t with ⟨_, progress, guard, attempts, seen, changes⟩
  subst hprogram
  cases guard <;> exact ⟨rfl, rfl⟩

/-- A thread that has panicked passes over what comes before the drop. -/
lemma advance_unwinding (hprogram : t.program = request :: rest) (hr : request ≠ .unlock)
    (hunwinding : t.progress = .unwinding) : t.advance l = (l, t.next) := by
  rcases t with ⟨_, progress, guard, attempts, seen, changes⟩
  subst hprogram hunwinding
  cases request with
  | unlock => exact absurd rfl hr
  | _ => rfl

/-- After a panic. -/
lemma advance_panic (hprogram : t.program = .panic :: rest) :
    t.advance l = (l, { t.next with progress := .unwinding }) := by
  rcases t with ⟨_, progress, guard, attempts, seen, changes⟩
  subst hprogram
  cases progress <;> rfl

/-! ### Requests that are dealt with -/

/-- Whether the thread has panicked, and its guard is not yet dropped. -/
def isUnwinding (t : Thread α) : Bool :=
  match t.progress with
  | .unwinding => true
  | _ => false

/-- The changes that the thread is still to make, given the answers to come. -/
def outlook (t : Thread α) (answers : List Bool) : List (α → α) :=
  Request.changesOf t.holdsGuard t.isUnwinding answers t.program

/-- **A step makes the changes that the requests ask for**: those made and those to come are the
same before and after it. -/
def Accounts (t t' : Thread α) : Prop :=
  ∃ answered made, t'.attempts.reverse = t.attempts.reverse ++ answered ∧
    t'.changes.reverse = t.changes.reverse ++ made ∧
    ∀ answers, t.outlook (answered ++ answers) = made ++ t'.outlook answers

lemma Accounts.of_outlook (hattempts : t'.attempts = t.attempts)
    (hchanges : t'.changes = t.changes)
    (houtlook : ∀ answers, t.outlook answers = t'.outlook answers) : t.Accounts t' :=
  ⟨[], [], by rw [hattempts, List.append_nil], by rw [hchanges, List.append_nil], houtlook⟩

lemma Accounts.of_change (hattempts : t'.attempts = t.attempts)
    (hchanges : t'.changes = f :: t.changes)
    (houtlook : ∀ answers, t.outlook answers = f :: t'.outlook answers) : t.Accounts t' :=
  ⟨[], [f], by rw [hattempts, List.append_nil], by rw [hchanges, List.reverse_cons], houtlook⟩

lemma accounts_next (hprogram : t.program = request :: rest) (hpasses : t.passes request = true) :
    t.Accounts t.next := by
  have hprogress := unwinding_of_passes hpasses
  rcases t with ⟨_, progress, guard, attempts, seen, changes⟩
  subst hprogram hprogress
  cases request with
  | unlock => cases hpasses
  | _ => exact .of_outlook rfl rfl fun _ => rfl

lemma accounts_take (hprogram : t.program = .lock :: rest) (hunwinding : t.isUnwinding = false) :
    t.Accounts (t.take l).2 := by
  rcases t with ⟨_, progress, guard, attempts, seen, changes⟩
  subst hprogram
  cases hlocked : l.locked <;> cases progress <;> simp only [take, acquire, hlocked]
  case false.unwinding => cases hunwinding
  case true.unwinding => cases hunwinding
  all_goals exact .of_outlook rfl rfl fun _ => rfl

lemma accounts_attempt (hprogram : t.program = .tryLock :: rest)
    (hunwinding : t.isUnwinding = false) : t.Accounts (t.attempt l).2 := by
  have hanswered : ∀ answer guard, guard = (t.holdsGuard || answer) → t.Accounts
      { t.next with holdsGuard := guard, attempts := answer :: t.attempts } := by
    rintro answer _ rfl
    rcases t with ⟨_, progress, guard, attempts, seen, changes⟩
    subst hprogram
    refine ⟨[answer], [], List.reverse_cons, (List.append_nil _).symm, fun answers => ?_⟩
    rw [outlook, hunwinding]
    cases progress with
    | unwinding => cases hunwinding
    | _ => rfl
  rw [attempt]
  cases h : l.locked with
  | false =>
      rw [acquire_of_free h]
      exact hanswered true _ (Bool.or_true _).symm
  | true =>
      rw [acquire_of_locked h]
      exact hanswered false _ (Bool.or_false _).symm

lemma accounts_drop (hprogram : t.program = .unlock :: rest) : t.Accounts (t.drop l).2 := by
  rcases t with ⟨_, progress, guard, attempts, seen, changes⟩
  subst hprogram
  cases guard <;> exact .of_outlook rfl rfl fun _ => rfl

/-- A request of an access is made just with a guard. -/
lemma accounts_access (hprogram : t.program = request :: rest)
    (hunwinding : t.isUnwinding = false)
    (haccess : request = .read ∨ (∃ value, request = .write value) ∨ ∃ f, request = .update f) :
    t.Accounts (if t.holdsGuard then t.access l request else (l, t.next)).2 := by
  rcases t with ⟨_, progress, guard, attempts, seen, changes⟩
  subst hprogram
  cases guard with
  | false =>
      rcases haccess with rfl | ⟨v, rfl⟩ | ⟨f, rfl⟩ <;> cases progress <;>
        exact .of_outlook rfl rfl fun _ => rfl
  | true =>
      rcases haccess with rfl | ⟨v, rfl⟩ | ⟨f, rfl⟩
      · cases progress <;> exact .of_outlook rfl rfl fun _ => rfl
      · cases progress with
        | unwinding => cases hunwinding
        | _ => exact .of_change rfl rfl fun _ => rfl
      · cases progress with
        | unwinding => cases hunwinding
        | writing v => exact .of_change rfl rfl fun _ => rfl
        | _ => exact .of_outlook rfl rfl fun _ => rfl

lemma accounts_perform (hprogram : t.program = request :: rest)
    (hpasses : t.passes request = false) : t.Accounts (t.perform l request).2 := by
  cases request with
  | lock => exact accounts_take hprogram hpasses
  | tryLock => exact accounts_attempt hprogram hpasses
  | panic =>
      rcases t with ⟨_, progress, guard, attempts, seen, changes⟩
      subst hprogram
      cases progress with
      | unwinding => cases hpasses
      | _ => exact .of_outlook rfl rfl fun _ => rfl
  | unlock => exact accounts_drop hprogram
  | read => exact accounts_access hprogram hpasses (.inl rfl)
  | write value => exact accounts_access hprogram hpasses (.inr (.inl ⟨value, rfl⟩))
  | update f => exact accounts_access hprogram hpasses (.inr (.inr ⟨f, rfl⟩))

lemma accounts_advance (l : SpinLock α) (t : Thread α) : t.Accounts (t.advance l).2 := by
  rw [advance]
  split
  case h_1 => exact .of_outlook rfl rfl fun _ => rfl
  case h_2 request rest hprogram =>
    split
    case isTrue hpasses => exact accounts_next hprogram hpasses
    case isFalse hpasses => exact accounts_perform hprogram (Bool.eq_false_iff.mpr hpasses)

/-- The changes that a thread has made and those to come are the ones that its program asks for. -/
def Accounted (program : List (Request α)) (t : Thread α) : Prop :=
  ∀ answers, Request.changesOf false false (t.attempts.reverse ++ answers) program =
    t.changes.reverse ++ t.outlook answers

lemma Accounted.advance {program : List (Request α)} (h : t.Accounted program)
    (l : SpinLock α) : (t.advance l).2.Accounted program := by
  obtain ⟨answered, made, hattempts, hchanges, houtlook⟩ := accounts_advance l t
  intro answers
  rw [hattempts, hchanges, List.append_assoc, h, houtlook, List.append_assoc]

/-- A step deals with the first request or not; behind a drop there is no guard. -/
inductive Deals (t t' : Thread α) : Prop
  | waits : t'.program = t.program → t'.holdsGuard = t.holdsGuard → Deals t t'
  | deals (request : Request α) : t.program = request :: t'.program →
      (request = .unlock → t'.holdsGuard = false) → Deals t t'

lemma Deals.of_next (hprogram : t.program = request :: rest)
    (hnext : t'.program = t.program.drop 1)
    (hguard : request = .unlock → t'.holdsGuard = false) : t.Deals t' := by
  refine .deals request ?_ hguard
  rw [hnext, hprogram]
  rfl

lemma deals_perform (hprogram : t.program = request :: rest) :
    t.Deals (t.perform l request).2 := by
  cases request with
  | lock =>
      rw [perform, take]
      split
      · split
        · exact .waits rfl rfl
        · exact .waits rfl rfl
      · split
        · exact .of_next hprogram rfl nofun
        · exact .waits rfl rfl
  | tryLock =>
      rw [perform, attempt]
      split <;> exact .of_next hprogram rfl nofun
  | panic => exact .of_next hprogram rfl nofun
  | unlock =>
      rw [perform, drop]
      split
      case isTrue => exact .of_next hprogram rfl fun _ => rfl
      case isFalse hguard => exact .of_next hprogram rfl fun _ => Bool.eq_false_iff.mpr hguard
  | update f =>
      rw [perform]
      split
      · rw [access]
        split
        · exact .of_next hprogram rfl nofun
        · exact .waits rfl rfl
      · exact .of_next hprogram rfl nofun
      all_goals exact nofun
  | read =>
      rw [perform]
      split <;> exact .of_next hprogram rfl nofun
      all_goals exact nofun
  | write value =>
      rw [perform]
      split <;> exact .of_next hprogram rfl nofun
      all_goals exact nofun

lemma deals_advance (l : SpinLock α) (t : Thread α) : t.Deals (t.advance l).2 := by
  rw [advance]
  split
  case h_1 => exact .waits rfl rfl
  case h_2 request rest hprogram =>
    split
    case isTrue hpasses =>
      refine .of_next hprogram rfl ?_
      rintro rfl
      cases hpasses
    case isFalse => exact deals_perform hprogram

/-- What a thread has come to that started on a program: some requests are dealt with and the others
are to come, and if the last one dealt with was a drop, then the thread has no guard. -/
def Follows (program : List (Request α)) (t : Thread α) : Prop :=
  ∃ dealt, program = dealt ++ t.program ∧ (dealt.getLast? = some .unlock → t.holdsGuard = false)

lemma Follows.advance {program : List (Request α)} (h : t.Follows program) (l : SpinLock α) :
    (t.advance l).2.Follows program := by
  obtain ⟨dealt, hprogram, hguard⟩ := h
  cases deals_advance l t with
  | waits hsame hguard' => exact ⟨dealt, by rw [hsame, hprogram], hguard' ▸ hguard⟩
  | deals request hrest hguard' =>
      refine ⟨dealt ++ [request], ?_, fun hlast => hguard' ?_⟩
      · rw [hprogram, hrest, List.append_assoc]
        rfl
      · rw [List.getLast?_concat] at hlast
        exact Option.some.inj hlast

/-- Behind a drop there is no guard. -/
lemma Follows.dropped {before rest : List (Request α)}
    (h : t.Follows (before ++ .unlock :: rest)) (hrest : t.program = rest) :
    t.holdsGuard = false := by
  obtain ⟨dealt, hprogram, hguard⟩ := h
  have hdealt : dealt = before ++ [.unlock] := by
    rw [hrest] at hprogram
    refine (List.append_cancel_right (hprogram.symm.trans ?_))
    rw [List.append_assoc]
    rfl
  exact hguard (by rw [hdealt, List.getLast?_concat])

end Thread

end KernelMemory.Sync.SpinLock
