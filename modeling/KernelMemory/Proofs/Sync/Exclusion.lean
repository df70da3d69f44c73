import KernelMemory.Proofs.Sync.LockSteps
import KernelMemory.Proofs.Sync.Runs

/-!
# The spin lock excludes

Any number of threads use one lock: they take it and try to take it, read and change the value
through the guard, panic, and drop the guard, each in an order of its own.  An update reads in one
step and writes in another.  That nothing gets lost in between is due to the guard: there is at most
one, and while there is one, nobody else changes the value.

* **`Users.Sound.step`** — guards come and go with the flag, so that there is at most one.
* `Users.Serial` — the value is what the changes make of the first one, in some order.
* `Users.Summed` — what is added is in the value.
* `Users.panics` — a panic under the lock leads to the drop of the guard.
* **`Users.run_excludes`** — the lock excludes and loses no update, in every interleaving.
* **`Users.additions_exact`** — numbers that threads add under the lock are all in the sum.
-/

namespace KernelMemory.Sync.SpinLock

variable {α : Type}

/-- The threads of a lock. -/
abbrev Users (α : Type) : Type :=
  Threads (SpinLock α) (Thread α)

namespace Users

variable {init : α} {t : Users α} {i : Nat} {thread : Thread α}

/-- Threads before their first step, with a lock that nobody holds. -/
def start (init : α) (programs : List (List (Request α))) : Users α where
  shared := { value := init }
  locals := programs.map fun program => { program }

/-- How many guards there are. -/
def guards (t : Users α) : Nat :=
  (t.locals.map fun thread => thread.holdsGuard.toNat).sum

/-- **There is a guard just if the lock is held**, and the thread that has it finds the value as it
has read it. -/
structure Sound (t : Users α) : Prop where
  guards_eq : t.guards = t.shared.locked.toNat
  current : ∀ thread ∈ t.locals, thread.Current t.shared

lemma Sound.guard_le (h : t.Sound) (hi : t.locals[i]? = some thread) :
    thread.holdsGuard.toNat ≤ t.shared.locked.toNat := by
  rw [← h.guards_eq]
  exact List.le_sum_of_mem (List.mem_map_of_mem (List.mem_of_getElem? hi))

/-- Of two threads one has no guard. -/
lemma Sound.exclusive (h : t.Sound) {j : Nat} {other : Thread α} (hij : i ≠ j)
    (hi : t.locals[i]? = some thread) (hj : t.locals[j]? = some other)
    (hguard : thread.holdsGuard = true) : other.holdsGuard = false := by
  have hsum := Threads.add_le_sum (fun thread : Thread α => thread.holdsGuard.toNat) hij hi hj
  have hguards := h.guards_eq
  rw [guards] at hguards
  have hle := Bool.toNat_le t.shared.locked
  rw [hguard] at hsum
  cases hother : other.holdsGuard with
  | false => rfl
  | true =>
      rw [hother] at hsum
      simp only [Bool.toNat_true] at hsum
      omega

lemma Sound.moves (h : t.Sound) (hi : t.locals[i]? = some thread) :
    thread.Moves t.shared (thread.advance t.shared).1 (thread.advance t.shared).2 :=
  Thread.moves_advance (h.current thread (List.mem_of_getElem? hi))

lemma Sound.guards_step (h : t.Sound) (hi : t.locals[i]? = some thread) :
    guards (t.step Thread.advance i) = (thread.advance t.shared).1.locked.toNat := by
  have hsum : guards (t.step Thread.advance i) + thread.holdsGuard.toNat =
      guards t + (thread.advance t.shared).2.holdsGuard.toNat :=
    Threads.sum_step (fun thread : Thread α => thread.holdsGuard.toNat) hi
  have hbalance := (h.moves hi).balance (h.guard_le hi)
  have hguards := h.guards_eq
  omega

lemma Sound.step (h : t.Sound) (hi : t.locals[i]? = some thread) :
    Sound (t.step Thread.advance i) := by
  refine ⟨Threads.shared_step hi ▸ h.guards_step hi, fun other hother => ?_⟩
  rw [Threads.shared_step hi]
  rcases Threads.mem_step hi hother with rfl | ⟨j, hij, hj⟩
  · exact (h.current thread (List.mem_of_getElem? hi)).advance
  · have hkept := h.current other (List.mem_of_getElem? hj)
    rcases (h.moves hi).value with hvalue | hguard
    · exact hkept.congr hvalue
    · -- A thread that is about to write would have a guard too.
      intro v hv
      obtain ⟨-, -, -, hother', -⟩ := hkept v hv
      rw [h.exclusive hij hi hj hguard] at hother'
      cases hother'

lemma sound_start (init : α) (programs : List (List (Request α))) :
    (start init programs).Sound where
  guards_eq := by
    rw [guards, start, List.map_map]
    exact List.sum_eq_zero fun n hn => by
      obtain ⟨program, -, rfl⟩ := List.mem_map.mp hn
      rfl
  current thread hthread := by
    obtain ⟨program, -, rfl⟩ := List.mem_map.mp hthread
    exact .of_not_writing nofun

lemma sound_run (init : α) (programs : List (List (Request α))) (schedule : List Nat) :
    Sound ((start init programs).run Thread.advance schedule) :=
  Threads.run_keeps (fun _ _ _ h hi => h.step hi) (sound_start init programs) schedule

/-! ### The value -/

/-- The changes that a thread has made, of those that all threads have made. -/
def changesBy (order : List (Nat × (α → α))) (i : Nat) : List (α → α) :=
  (order.filter fun change => change.1 == i).map Prod.snd

/-- **The value is what the changes of the threads make of the first one**, in some order, which has
every change of every thread once and those of one thread as the thread makes them. -/
structure Serial (init : α) (t : Users α) (order : List (Nat × (α → α))) : Prop where
  value : t.shared.value = order.foldl (fun value change => change.2 value) init
  changes : ∀ i thread, t.locals[i]? = some thread → thread.changes.reverse = changesBy order i
  numbers : ∀ change ∈ order, change.1 < t.locals.length

lemma changesBy_concat (order : List (Nat × (α → α))) (i j : Nat) (f : α → α) :
    changesBy (order ++ [(i, f)]) j =
      if i = j then changesBy order j ++ [f] else changesBy order j := by
  rw [changesBy, List.filter_append, List.map_append]
  split
  case isTrue heq =>
    subst heq
    simp [changesBy]
  case isFalse hne => simp [changesBy, hne]

lemma Serial.step {order : List (Nat × (α → α))} (h : Serial init t order) (hsound : t.Sound)
    (hi : t.locals[i]? = some thread) :
    ∃ order', Serial init (t.step Thread.advance i) order' := by
  rcases (hsound.moves hi).changes with ⟨hvalue, hchanges⟩ | ⟨f, -, hvalue, hchanges⟩
  · refine ⟨order, Threads.shared_step hi ▸ hvalue.trans h.value, fun j other hj => ?_, ?_⟩
    · rw [Threads.locals_step hi] at hj
      split at hj
      case isTrue heq =>
        subst heq
        rw [← Option.some.inj hj, hchanges]
        exact h.changes i thread hi
      case isFalse => exact h.changes j other hj
    · rw [Threads.length_step]
      exact h.numbers
  · refine ⟨order ++ [(i, f)], ?_, fun j other hj => ?_, fun change hchange => ?_⟩
    · rw [Threads.shared_step hi, hvalue, h.value, List.foldl_append]
      rfl
    · rw [Threads.locals_step hi] at hj
      rw [changesBy_concat]
      split at hj
      case isTrue heq =>
        subst heq
        rw [if_pos rfl, ← Option.some.inj hj, hchanges, List.reverse_cons, h.changes i thread hi]
      case isFalse hne =>
        rw [if_neg hne]
        exact h.changes j other hj
    · rw [Threads.length_step]
      rcases List.mem_append.mp hchange with hold | hnew
      · exact h.numbers change hold
      · rw [List.mem_singleton.mp hnew]
        exact (List.getElem?_eq_some_iff.mp hi).1

lemma exists_serial (init : α) (programs : List (List (Request α))) (schedule : List Nat) :
    ∃ order, Serial init ((start init programs).run Thread.advance schedule) order := by
  refine Threads.run_keeps_under (Q := fun t => ∃ order, Serial init t order)
    (fun _ _ _ hsound hi => hsound.step hi) (fun _ _ _ hsound ⟨_, h⟩ hi => h.step hsound hi)
    (sound_start init programs) ⟨[], rfl, ?_, nofun⟩ schedule
  intro i thread hi
  obtain ⟨program, -, rfl⟩ := List.mem_map.mp (List.mem_of_getElem? hi)
  rfl

/-! ### Additions -/

section

variable {amount : α → UInt64} {added : (α → α) → UInt64}

/-- Every change that a request makes adds a fixed number to an amount. -/
def Adds (amount : α → UInt64) (added : (α → α) → UInt64) (program : List (Request α)) : Prop :=
  ∀ request ∈ program, ∀ f, request.change? = some f → ∀ v, amount (f v) = amount v + added f

/-- What the threads have added. -/
def total (added : (α → α) → UInt64) (t : Users α) : Nat :=
  (t.locals.map fun thread => (thread.changes.map fun f => (added f).toNat).sum).sum

/-- **Nothing that is added gets lost.** -/
structure Summed (amount : α → UInt64) (added : (α → α) → UInt64) (init : α) (t : Users α) :
    Prop where
  sound : t.Sound
  adds : ∀ thread ∈ t.locals, Adds amount added thread.program
  sum : (amount t.shared.value).toNat = ((amount init).toNat + total added t) % 2 ^ 64

lemma Summed.step (h : Summed amount added init t) (hi : t.locals[i]? = some thread) :
    Summed amount added init (t.step Thread.advance i) := by
  have hmem := List.mem_of_getElem? hi
  have htotal : total added (t.step Thread.advance i) +
        (thread.changes.map fun f => (added f).toNat).sum =
      total added t +
        ((thread.advance t.shared).2.changes.map fun f => (added f).toNat).sum :=
    Threads.sum_step (fun thread : Thread α => (thread.changes.map fun f => (added f).toNat).sum) hi
  refine ⟨h.sound.step hi, fun other hother => ?_, ?_⟩
  · rcases Threads.mem_step hi hother with rfl | ⟨j, -, hj⟩
    · cases Thread.deals_advance t.shared thread with
      | waits hsame => exact hsame ▸ h.adds thread hmem
      | deals request hrest =>
          exact fun other hother =>
            h.adds thread hmem other (hrest ▸ List.mem_cons_of_mem request hother)
    · exact h.adds other (List.mem_of_getElem? hj)
  · rw [Threads.shared_step hi]
    rcases (h.sound.moves hi).changes with
      ⟨hvalue, hchanges⟩ | ⟨f, ⟨request, hrequest, hf⟩, hvalue, hchanges⟩
    · rw [hchanges] at htotal
      rw [hvalue, h.sum, Nat.add_right_cancel htotal]
    · rw [hchanges, List.map_cons, List.sum_cons] at htotal
      rw [hvalue, h.adds thread hmem request hrequest f hf, UInt64.toNat_add, h.sum,
        Nat.mod_add_mod]
      congr 1
      omega

lemma summed_run (programs : List (List (Request α)))
    (hadds : ∀ program ∈ programs, Adds amount added program) (init : α) (schedule : List Nat) :
    Summed amount added init ((start init programs).run Thread.advance schedule) := by
  refine Threads.run_keeps (fun _ _ _ h hi => h.step hi)
    ⟨sound_start init programs, fun thread hthread => ?_, ?_⟩ schedule
  · obtain ⟨program, hprogram, rfl⟩ := List.mem_map.mp hthread
    exact hadds program hprogram
  · have hnothing : total added (start init programs) = 0 :=
      List.sum_eq_zero fun n hn => by
        obtain ⟨thread, hthread, rfl⟩ := List.mem_map.mp hn
        obtain ⟨program, -, rfl⟩ := List.mem_map.mp hthread
        rfl
    rw [hnothing, Nat.add_zero, Nat.mod_eq_of_lt (UInt64.toNat_lt _)]
    rfl

end

/-! ### Programs -/

section

variable {programs : List (List (Request α))} {program : List (Request α)} {schedule : List Nat}

lemma locals_start (hi : (start init programs).locals[i]? = some thread) :
    ∃ program, programs[i]? = some program ∧ thread = { program } := by
  rw [start, List.getElem?_map] at hi
  obtain ⟨program, hprogram, rfl⟩ := Option.map_eq_some_iff.mp hi
  exact ⟨program, hprogram, rfl⟩

/-- What each thread keeps on its own, of its program. -/
lemma run_keeps {Q : List (Request α) → Thread α → Prop}
    (hadvance : ∀ program l thread, Q program thread → Q program (thread.advance l).2)
    (hstart : ∀ program, Q program { program }) (hprogram : programs[i]? = some program)
    (hi : ((start init programs).run Thread.advance schedule).locals[i]? = some thread) :
    Q program thread := by
  have hinit : ∀ (i : Nat) thread, (start init programs).locals[i]? = some thread →
      ∀ program, programs[i]? = some program → Q program thread := by
    intro i thread hi program hprogram
    obtain ⟨program', hprogram', rfl⟩ := locals_start hi
    obtain rfl : program' = program := Option.some.inj (hprogram'.symm.trans hprogram)
    exact hstart program'
  exact Threads.run_keeps_locals
    (Q := fun (i : Nat) thread => ∀ program, programs[i]? = some program → Q program thread)
    (fun i l thread h program hprogram => hadvance program l thread (h program hprogram))
    hinit schedule i thread hi program hprogram

/-- What a thread has done is what its program asks for, by the answers to its attempts. -/
lemma changes_eq (hprogram : programs[i]? = some program)
    (hi : ((start init programs).run Thread.advance schedule).locals[i]? = some thread)
    (hdone : thread.isDone = true) :
    thread.changes.reverse = Request.changesOf false false thread.attempts.reverse program := by
  have haccounted : thread.Accounted program :=
    run_keeps (fun _ l _ h => h.advance l) (fun _ _ => rfl) hprogram hi
  have hall := haccounted []
  rw [List.append_nil, Thread.outlook, List.isEmpty_iff.mp hdone] at hall
  rw [hall]
  exact (List.append_nil _).symm

/-- What threads that are done have added is what their programs ask for. -/
lemma total_eq {added : (α → α) → UInt64}
    (hdone : ∀ thread ∈ ((start init programs).run Thread.advance schedule).locals,
      thread.isDone = true) :
    total added ((start init programs).run Thread.advance schedule) =
      (List.zipWith (fun program thread => ((Request.changesOf false false
          thread.attempts.reverse program).map fun f => (added f).toNat).sum)
        programs ((start init programs).run Thread.advance schedule).locals).sum := by
  refine congrArg List.sum (List.ext_getElem? fun i => ?_)
  rw [List.getElem?_map, List.getElem?_zipWith]
  cases hi : ((start init programs).run Thread.advance schedule).locals[i]? with
  | none => cases programs[i]? <;> rfl
  | some thread =>
      have hlt : i < programs.length := by
        have hlength := (List.getElem?_eq_some_iff.mp hi).1
        rwa [Threads.length_run, start, List.length_map] at hlength
      have hprogram : programs[i]? = some programs[i] := List.getElem?_eq_getElem hlt
      have hchanges := changes_eq hprogram hi (hdone thread (List.mem_of_getElem? hi))
      rw [hprogram]
      simp only [Option.map_some, ← hchanges, List.map_reverse, List.sum_reverse]

/-- Behind a drop a thread has no guard. -/
lemma dropped {before rest : List (Request α)}
    (hprogram : programs[i]? = some (before ++ .unlock :: rest))
    (hi : ((start init programs).run Thread.advance schedule).locals[i]? = some thread)
    (hrest : thread.program = rest) : thread.holdsGuard = false := by
  have hfollows : thread.Follows (before ++ .unlock :: rest) :=
    run_keeps (fun _ l _ h => h.advance l) (fun _ => ⟨[], rfl, nofun⟩) hprogram hi
  exact hfollows.dropped hrest

end

/-! ### Panics -/

/-- Whatever the others do, a thread that has panicked comes to the drop of its guard. -/
lemma unwinds {body rest : List (Request α)} {schedule : List Nat}
    (hi : t.locals[i]? = some thread) (hunwinding : thread.progress = .unwinding)
    (hprogram : thread.program = body ++ .unlock :: rest)
    (hbody : ∀ request ∈ body, request ≠ .unlock) (hcount : schedule.count i = body.length + 1) :
    ∃ thread', (t.run Thread.advance schedule).locals[i]? = some thread' ∧
      thread'.program = rest ∧ thread'.holdsGuard = false := by
  induction schedule generalizing t thread body with
  | nil => cases hcount
  | cons j schedule ih =>
      rw [Threads.run_cons]
      by_cases hij : j = i
      · subst hij
        rw [List.count_cons_self] at hcount
        have hnext : (t.step Thread.advance j).locals[j]? = some (thread.advance t.shared).2 :=
          Threads.locals_step_self hi
        cases body with
        | nil =>
            have hdone : j ∉ schedule := List.count_eq_zero.mp (Nat.succ.inj hcount)
            rw [Threads.locals_run_of_notMem hdone, hnext]
            exact ⟨_, rfl, Thread.advance_unlock hprogram⟩
        | cons request body =>
            obtain ⟨hrequest, hbody⟩ := List.forall_mem_cons.mp hbody
            rw [Thread.advance_unwinding hprogram hrequest hunwinding] at hnext
            refine ih hnext hunwinding ?_ hbody (Nat.succ.inj hcount)
            rw [Thread.next, hprogram]
            rfl
      · rw [List.count_cons_of_ne hij] at hcount
        exact ih ((Threads.locals_step_of_ne hij).trans hi) hunwinding hprogram hbody hcount

/-- **A panic releases the lock**, whatever the others do. -/
theorem panics {body rest : List (Request α)} {schedule : List Nat}
    (hi : t.locals[i]? = some thread)
    (hprogram : thread.program = .panic :: (body ++ .unlock :: rest))
    (hbody : ∀ request ∈ body, request ≠ .unlock) (hcount : schedule.count i = body.length + 2) :
    ∃ thread', (t.run Thread.advance schedule).locals[i]? = some thread' ∧
      thread'.program = rest ∧ thread'.holdsGuard = false := by
  induction schedule generalizing t with
  | nil => cases hcount
  | cons j schedule ih =>
      rw [Threads.run_cons]
      by_cases hij : j = i
      · subst hij
        rw [List.count_cons_self] at hcount
        have hnext : (t.step Thread.advance j).locals[j]? = some (thread.advance t.shared).2 :=
          Threads.locals_step_self hi
        rw [Thread.advance_panic hprogram] at hnext
        refine unwinds hnext rfl ?_ hbody (Nat.succ.inj hcount)
        rw [Thread.next, hprogram]
        rfl
      · rw [List.count_cons_of_ne hij] at hcount
        exact ih ((Threads.locals_step_of_ne hij).trans hi) hcount

/-! ### Every interleaving -/

/-- **The lock excludes and loses no update.**  At every moment of every interleaving of any number
of threads, at most one guard exists, and the lock is held just while one does; an attempt fails
only while there is one.  A thread behind a closure has no guard, and a thread that panics under the
lock comes to the end of its closure by its own steps.  The value is what the changes of all threads
make of the first one, each once and in some order of the critical sections, and a thread that is
done has made the changes that its program asks for.  If these are additions, then when all are done
all of them are in the value, modulo 2⁶⁴. -/
theorem run_excludes (init : α) (programs : List (List (Request α))) (schedule : List Nat) :
    let t : Users α := (start init programs).run Thread.advance schedule
    (guards t ≤ 1 ∧ (t.shared.locked = true ↔ guards t = 1)) ∧
    (∀ thread ∈ t.locals, (thread.advance t.shared).2.attempts = false :: thread.attempts →
      guards t = 1) ∧
    (∀ (i : Nat) before body rest thread,
      programs[i]? = some (before ++ (Request.withLock body ++ rest)) →
      t.locals[i]? = some thread → thread.program = rest → thread.holdsGuard = false) ∧
    (∀ i body rest thread further, t.locals[i]? = some thread →
      thread.program = .panic :: (body ++ .unlock :: rest) →
      (∀ request ∈ body, request ≠ .unlock) → List.count i further = body.length + 2 →
      ∃ thread', (t.run Thread.advance further).locals[i]? = some thread' ∧
        thread'.program = rest ∧ thread'.holdsGuard = false) ∧
    (∃ order, Serial init t order) ∧
    (∀ (i : Nat) program thread, programs[i]? = some program → t.locals[i]? = some thread →
      thread.isDone = true →
      thread.changes.reverse = Request.changesOf false false thread.attempts.reverse program) ∧
    (∀ (amount : α → UInt64) (added : (α → α) → UInt64),
      (∀ program ∈ programs, Adds amount added program) →
      (∀ thread ∈ t.locals, thread.isDone = true) →
      (amount t.shared.value).toNat = ((amount init).toNat +
        (List.zipWith (fun program thread => ((Request.changesOf false false
            thread.attempts.reverse program).map fun f => (added f).toNat).sum)
          programs t.locals).sum) % 2 ^ 64) := by
  intro t
  have hsound : t.Sound := sound_run init programs schedule
  have hguards := hsound.guards_eq
  have hlocked := Bool.toNat_le t.shared.locked
  refine ⟨⟨by omega, ?_⟩, fun thread hthread hfails => ?_, ?_, ?_,
    exists_serial init programs schedule, fun _ _ _ => changes_eq,
    fun amount added hadds hdone => ?_⟩
  · rw [hguards]
    cases t.shared.locked <;> decide
  · obtain ⟨i, hi⟩ := List.mem_iff_getElem?.mp hthread
    rw [hguards, (hsound.moves hi).locked hfails]
    rfl
  · intro i before body rest thread hprogram hi hrest
    have hsplit : before ++ (Request.withLock body ++ rest) =
        (before ++ .lock :: body) ++ .unlock :: rest := by
      simp [Request.withLock]
    exact dropped (hsplit ▸ hprogram) hi hrest
  · exact fun i body rest thread further hi hprogram hbody hcount =>
      panics hi hprogram hbody hcount
  · rw [(summed_run programs hadds init schedule).sum, ← total_eq hdone]

/-! ### Threads that add -/

/-- What a change adds to a number. -/
def increment (f : UInt64 → UInt64) : UInt64 :=
  f 0

lemma adds_withLock {body : List (Request UInt64)}
    (hbody : ∀ request ∈ body, request = .panic ∨ ∃ n, request = .update (· + n)) :
    Adds id increment (Request.withLock body) := by
  intro request hrequest f hf v
  rcases List.mem_cons.mp hrequest with rfl | hrequest
  · cases hf
  rcases List.mem_append.mp hrequest with hrequest | hrequest
  · rcases hbody request hrequest with rfl | ⟨n, rfl⟩
    · cases hf
    · obtain rfl := Option.some.inj hf
      exact congrArg (v + ·) (UInt64.zero_add n).symm
  · rw [List.mem_singleton.mp hrequest] at hf
    cases hf

lemma changesOf_additions (numbers : List UInt64) (answers : List Bool) :
    Request.changesOf false false answers (numbers.flatMap fun n => Request.locked (· + n)) =
      numbers.map fun n => (· + n) := by
  induction numbers with
  | nil => rfl
  | cons n numbers ih => rw [List.flatMap_cons, Request.changesOf_locked, ih, List.map_cons]

/-- **Numbers that threads add under the lock are all in the sum**, in whatever order the threads
come to it. -/
theorem additions_exact (init : UInt64) (numbers : List (List UInt64)) (schedule : List Nat)
    (hdone : ∀ thread ∈ ((start init (numbers.map fun numbers =>
      numbers.flatMap fun n => Request.locked (· + n))).run Thread.advance schedule).locals,
        thread.isDone = true) :
    ((start init (numbers.map fun numbers =>
        numbers.flatMap fun n => Request.locked (· + n))).run Thread.advance
      schedule).shared.value.toNat =
      (init.toNat + (numbers.map fun numbers => (numbers.map UInt64.toNat).sum).sum) % 2 ^ 64 := by
  have hadds : ∀ program ∈ numbers.map fun numbers =>
      numbers.flatMap fun n => Request.locked (· + n), Adds id increment program := by
    intro program hprogram request hrequest
    obtain ⟨numbers, -, rfl⟩ := List.mem_map.mp hprogram
    obtain ⟨n, -, hrequest⟩ := List.mem_flatMap.mp hrequest
    exact adds_withLock (List.forall_mem_singleton.mpr (.inr ⟨n, rfl⟩)) request hrequest
  refine (summed_run _ hadds init schedule).sum.trans ?_
  rw [total_eq hdone, List.zipWith_map_left]
  refine congrArg (fun l => (init.toNat + List.sum l) % 2 ^ 64) (List.ext_getElem ?_ ?_)
  · rw [List.length_zipWith, Threads.length_run, start, List.length_map, List.length_map,
      Nat.min_self, List.length_map]
  · intro i _ _
    rw [List.getElem_zipWith, List.getElem_map, changesOf_additions, List.map_map]
    exact congrArg List.sum (List.map_congr_left fun n _ => congrArg _ (UInt64.zero_add n))

/-- Two threads that add, one of them in a closure that panics halfway. -/
def sample : List (List (Request UInt64)) :=
  [Request.locked (· + 1), Request.withLock [.update (· + 2), .panic, .update (· + 4)]]

/-- What is added before a panic counts. -/
theorem run_excludes_sample :
    ((start 5 sample).run Thread.advance
      [0, 1, 0, 1, 0, 1, 0, 1, 1, 1, 1, 1, 1, 1]).shared.value.toNat = 8 := by
  obtain ⟨-, -, -, -, -, -, hadditions⟩ :=
    run_excludes 5 sample [0, 1, 0, 1, 0, 1, 0, 1, 1, 1, 1, 1, 1, 1]
  refine (hadditions id increment ?_ (by decide)).trans (by decide)
  refine List.forall_mem_cons.mpr
    ⟨adds_withLock ?_, List.forall_mem_singleton.mpr (adds_withLock ?_)⟩
  · exact List.forall_mem_singleton.mpr (.inr ⟨1, rfl⟩)
  · exact List.forall_mem_cons.mpr ⟨.inr ⟨2, rfl⟩, List.forall_mem_cons.mpr
      ⟨.inl rfl, List.forall_mem_singleton.mpr (.inr ⟨4, rfl⟩)⟩⟩

end Users

end KernelMemory.Sync.SpinLock
