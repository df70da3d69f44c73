import Mathlib.Algebra.Order.BigOperators.Group.List
import Mathlib.Algebra.Order.Group.Nat
import Mathlib.Tactic.Abel
import KernelMemory.Layout
import KernelMemory.Sync.Interleaving

/-!
# Runs of threads

A schedule is any list of thread numbers, so what is said of every schedule is said of every moment
of every interleaving.  It is proved of one step: a step changes the shared object and the one
thread that takes it, and leaves the others alone.

* `Threads.step_of_some`, **`Threads.locals_step`** — what a step does, and to whom.
* **`Threads.run_keeps`** — what every step keeps, every run keeps; **`Threads.run_keeps_under`** —
  also if steps keep it only while something else is kept.
* **`Threads.run_keeps_locals`** — the same for what is said of each thread on its own.
* `Threads.sum_step` — a sum over the threads changes by what the thread that takes the step does.
* `Threads.run_counts_down` — a thread that needs so many steps is there after so many of its own.
* `Threads.run_replicate` — the run of a thread that nobody interrupts.
* **`Threads.view_run`** — a run, seen through less detailed states, is a run.
-/

namespace KernelMemory.Sync.Threads

variable {σ τ : Type} {advance : σ → τ → σ × τ} {t : Threads σ τ} {i j : Nat} {thread : τ}

/-! ## Steps -/

lemma step_of_none (h : t.locals[i]? = none) : t.step advance i = t := by
  rw [step, h]

lemma step_of_some (h : t.locals[i]? = some thread) : t.step advance i =
    { shared := (advance t.shared thread).1
      locals := t.locals.set i (advance t.shared thread).2 } := by
  rw [step, h]

lemma shared_step (h : t.locals[i]? = some thread) :
    (t.step advance i).shared = (advance t.shared thread).1 := by
  rw [step_of_some h]

/-- **A step concerns one thread.** -/
theorem locals_step (h : t.locals[i]? = some thread) (j : Nat) :
    (t.step advance i).locals[j]? =
      if i = j then some (advance t.shared thread).2 else t.locals[j]? := by
  rw [step_of_some h, List.getElem?_set]
  by_cases hij : i = j
  · obtain ⟨hi, -⟩ := List.getElem?_eq_some_iff.mp h
    rw [if_pos hij, if_pos hij, if_pos hi]
  · rw [if_neg hij, if_neg hij]

lemma locals_step_self (h : t.locals[i]? = some thread) :
    (t.step advance i).locals[i]? = some (advance t.shared thread).2 := by
  rw [locals_step h, if_pos rfl]

lemma locals_step_of_ne (hij : i ≠ j) : (t.step advance i).locals[j]? = t.locals[j]? := by
  cases h : t.locals[i]? with
  | none => rw [step_of_none h]
  | some thread => rw [locals_step h, if_neg hij]

@[simp] lemma length_step : (t.step advance i).locals.length = t.locals.length := by
  cases h : t.locals[i]? with
  | none => rw [step_of_none h]
  | some thread => rw [step_of_some h, List.length_set]

/-- The threads after a step are the one that took it and others that were there before. -/
lemma mem_step {x : τ} (h : t.locals[i]? = some thread) (hx : x ∈ (t.step advance i).locals) :
    x = (advance t.shared thread).2 ∨ ∃ j, i ≠ j ∧ t.locals[j]? = some x := by
  obtain ⟨j, hj⟩ := List.mem_iff_getElem?.mp hx
  rw [locals_step h] at hj
  split at hj
  case isTrue => exact .inl (Option.some.inj hj).symm
  case isFalse hij => exact .inr ⟨j, hij, hj⟩

/-- **A sum over the threads** changes by what the thread changes that takes the step. -/
theorem sum_step {M : Type} [AddCommMonoid M] (f : τ → M) (h : t.locals[i]? = some thread) :
    ((t.step advance i).locals.map f).sum + f thread =
      (t.locals.map f).sum + f (advance t.shared thread).2 := by
  obtain ⟨hi, hthread⟩ := List.getElem?_eq_some_iff.mp h
  have hsplit : t.locals = t.locals.take i ++ thread :: t.locals.drop (i + 1) := by
    rw [← hthread, List.getElem_cons_drop, List.take_append_drop]
  rw [step_of_some h, List.set_eq_take_append_cons_drop, if_pos hi]
  conv_rhs => rw [hsplit]
  simp only [List.map_append, List.map_cons, List.sum_append, List.sum_cons]
  abel

/-- Two members of a list contribute no more than all. -/
lemma add_le_sum {l : List τ} (f : τ → Nat) {x y : τ} (hij : i ≠ j) (hi : l[i]? = some x)
    (hj : l[j]? = some y) : f x + f y ≤ (l.map f).sum := by
  induction l generalizing i j with
  | nil => cases hi
  | cons a l ih =>
      rw [List.map_cons, List.sum_cons]
      cases i with
      | zero =>
          cases j with
          | zero => exact absurd rfl hij
          | succ j =>
              obtain rfl : a = x := Option.some.inj hi
              have hy : f y ≤ (l.map f).sum :=
                List.le_sum_of_mem (List.mem_map_of_mem (List.mem_of_getElem? hj))
              omega
      | succ i =>
          cases j with
          | zero =>
              obtain rfl : a = y := Option.some.inj hj
              have hx : f x ≤ (l.map f).sum :=
                List.le_sum_of_mem (List.mem_map_of_mem (List.mem_of_getElem? hi))
              omega
          | succ j =>
              have hrest := ih (fun h => hij (congrArg (· + 1) h)) hi hj
              omega

/-! ## Runs -/

lemma run_append (before after : List Nat) :
    t.run advance (before ++ after) = (t.run advance before).run advance after :=
  List.foldl_append

lemma run_cons (schedule : List Nat) :
    t.run advance (i :: schedule) = (t.step advance i).run advance schedule :=
  rfl

@[simp] lemma length_run (schedule : List Nat) :
    (t.run advance schedule).locals.length = t.locals.length := by
  induction schedule generalizing t with
  | nil => rfl
  | cons i schedule ih => rw [run_cons, ih, length_step]

/-- A thread that does not take a step stays as it is. -/
lemma locals_run_of_notMem {schedule : List Nat} (hi : i ∉ schedule) :
    (t.run advance schedule).locals[i]? = t.locals[i]? := by
  induction schedule generalizing t with
  | nil => rfl
  | cons j schedule ih =>
      rw [List.mem_cons, not_or] at hi
      obtain ⟨hij, hrest⟩ := hi
      rw [run_cons, ih hrest, locals_step_of_ne (Ne.symm hij)]

/-- **What every step keeps, every run keeps.** -/
theorem run_keeps {P : Threads σ τ → Prop}
    (hstep : ∀ t i thread, P t → t.locals[i]? = some thread → P (t.step advance i))
    (h : P t) (schedule : List Nat) : P (t.run advance schedule) := by
  induction schedule generalizing t with
  | nil => exact h
  | cons i schedule ih =>
      rw [run_cons]
      refine ih ?_
      cases hi : t.locals[i]? with
      | none =>
          rw [step_of_none hi]
          exact h
      | some thread => exact hstep t i thread h hi

/-- What every step keeps that starts where something else is kept. -/
lemma run_keeps_under {P Q : Threads σ τ → Prop}
    (hP : ∀ t i thread, P t → t.locals[i]? = some thread → P (t.step advance i))
    (hQ : ∀ t i thread, P t → Q t → t.locals[i]? = some thread → Q (t.step advance i))
    (hp : P t) (hq : Q t) (schedule : List Nat) : Q (t.run advance schedule) := by
  have hboth : ∀ t i thread, P t ∧ Q t → t.locals[i]? = some thread →
      P (t.step advance i) ∧ Q (t.step advance i) :=
    fun t i thread ⟨hp, hq⟩ hi => ⟨hP t i thread hp hi, hQ t i thread hp hq hi⟩
  exact (run_keeps hboth ⟨hp, hq⟩ schedule).2

/-- **What every thread keeps on its own**, whatever it finds, all threads keep in every run. -/
theorem run_keeps_locals {Q : Nat → τ → Prop}
    (hadvance : ∀ i shared thread, Q i thread → Q i (advance shared thread).2)
    (h : ∀ i thread, t.locals[i]? = some thread → Q i thread) (schedule : List Nat) :
    ∀ i thread, (t.run advance schedule).locals[i]? = some thread → Q i thread := by
  refine run_keeps (P := fun t => ∀ i thread, t.locals[i]? = some thread → Q i thread)
    (fun t i thread hQ hi j x hx => ?_) h schedule
  rw [locals_step hi] at hx
  split at hx
  case isTrue heq =>
    subst heq
    rw [← Option.some.inj hx]
    exact hadvance i _ thread (hQ i thread hi)
  case isFalse => exact hQ j x hx

/-- A thread that counts its steps down, while something else is kept, has counted those it took,
whatever the others did in between. -/
lemma run_counts_down {P : Threads σ τ → Prop} {left : τ → Option Nat} {n : Nat}
    (hP : ∀ t i thread, P t → t.locals[i]? = some thread → P (t.step advance i))
    (hleft : ∀ t thread n, P t → left thread = some n →
      left (advance t.shared thread).2 = some (n - 1))
    (hp : P t) (hi : t.locals[i]? = some thread) (hn : left thread = some n)
    (schedule : List Nat) : ∃ thread', (t.run advance schedule).locals[i]? = some thread' ∧
      left thread' = some (n - schedule.count i) := by
  induction schedule generalizing t thread n with
  | nil => exact ⟨thread, hi, hn⟩
  | cons j schedule ih =>
      rw [run_cons]
      by_cases hij : j = i
      · subst hij
        rw [List.count_cons_self, Nat.add_comm, ← Nat.sub_sub]
        exact ih (hP t j thread hp hi) (locals_step_self hi) (hleft t thread n hp hn)
      · have hp' : P (t.step advance j) := by
          cases hj : t.locals[j]? with
          | none => rwa [step_of_none hj]
          | some other => exact hP t j other hp hj
        rw [List.count_cons_of_ne hij]
        exact ih hp' ((locals_step_of_ne hij).trans hi) hn

/-- **A thread that nobody interrupts** takes its steps one after the other. -/
theorem run_replicate (h : t.locals[i]? = some thread) (n : Nat) :
    t.run advance (List.replicate n i) =
      { shared := ((Function.uncurry advance)^[n] (t.shared, thread)).1
        locals := t.locals.set i ((Function.uncurry advance)^[n] (t.shared, thread)).2 } := by
  induction n generalizing t thread with
  | zero =>
      obtain ⟨hi, rfl⟩ := List.getElem?_eq_some_iff.mp h
      rw [Function.iterate_zero_apply, List.set_getElem_self]
      rfl
  | succ n ih =>
      rw [List.replicate_succ, run_cons, ih (locals_step_self h), step_of_some h, List.set_set]
      rfl

/-! ## Less detail -/

/-- The threads as seen by somebody who does not see everything. -/
def view {σ' τ' : Type} (see : σ → σ') (seeLocal : τ → τ') (t : Threads σ τ) : Threads σ' τ' where
  shared := see t.shared
  locals := t.locals.map seeLocal

/-- **A run is a run of what is seen**, if each step of a thread is a step of what is seen or
changes nothing of it. -/
theorem view_run {σ' τ' : Type} {see : σ → σ'} {seeLocal : τ → τ'} {advance' : σ' → τ' → σ' × τ'}
    (hstep : ∀ shared thread,
      Prod.map see seeLocal (advance shared thread) = (see shared, seeLocal thread) ∨
      Prod.map see seeLocal (advance shared thread) = advance' (see shared) (seeLocal thread))
    (t : Threads σ τ) (schedule : List Nat) :
    ∃ schedule', (t.run advance schedule).view see seeLocal =
      (t.view see seeLocal).run advance' schedule' := by
  induction schedule generalizing t with
  | nil => exact ⟨[], rfl⟩
  | cons i schedule ih =>
      obtain ⟨schedule', hrun⟩ := ih (t.step advance i)
      rw [run_cons, hrun]
      cases hi : t.locals[i]? with
      | none => exact ⟨schedule', by rw [step_of_none hi]⟩
      | some thread =>
          have hseen : (t.view see seeLocal).locals[i]? = some (seeLocal thread) := by
            rw [view, List.getElem?_map, hi, Option.map_some]
          rcases hstep t.shared thread with hsame | hnext
          case inl =>
            obtain ⟨hshared, hlocal⟩ := Prod.mk.inj hsame
            obtain ⟨hlt, hget⟩ := List.getElem?_eq_some_iff.mp hseen
            refine ⟨schedule', congrArg (run advance' · schedule') ?_⟩
            simp only [step_of_some hi, view, List.map_set, hshared, hlocal]
            rw [← hget]
            exact congrArg (Threads.mk _) (List.set_getElem_self hlt)
          case inr =>
            refine ⟨i :: schedule', congrArg (run advance' · schedule') ?_⟩
            rw [step_of_some hi, step_of_some hseen]
            simp only [view, List.map_set]
            rw [← hnext]
            rfl

end KernelMemory.Sync.Threads
