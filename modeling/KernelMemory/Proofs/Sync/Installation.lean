import Mathlib.Algebra.Order.Group.Multiset
import Mathlib.Data.List.Forall2
import Mathlib.Data.List.Induction
import Mathlib.Tactic.Abel
import KernelMemory.Proofs.Sync.CellSteps
import KernelMemory.Proofs.Sync.Runs

/-!
# The once cell takes one value

Any number of threads use one cell: each asks whether it has a value, asks for the value, brings
one, or brings one in case it finds none.  What makes a cell ready and what writes its slot are
separate steps, and in between others may look.  Whoever has claimed the cell counts as its writer
until the value can be seen; so the count of writers says what the state and the slot have to do
with each other.

* **`Users.Sound.step`** — the cell has one writer while somebody writes, and a value once it is
  ready.
* `Users.Sound.grows` — a value that is installed stays.
* `Users.Sound.not_denied` — a value that is there is not denied again.
* `Users.Follows` — a thread's answers are answers to its requests.
* `Users.making_seen` — an initializer runs for a request that has first seen the cell not ready.
* `Users.Kept` — every value is in a thread's hand, in the slot, or released.
* **`Users.run_installs_once`** — the cell takes one value for good, in every interleaving.
-/

namespace KernelMemory.Sync.OnceCell

variable {α : Type}

/-- The threads of a cell. -/
abbrev Users (α : Type) : Type :=
  Threads (OnceCell α) (Thread α)

namespace Users

variable {t : Users α} {i : Nat} {thread : Thread α}

/-- Threads before their first step, with a cell that is empty. -/
def start (programs : List (List (Request α))) : Users α where
  shared := {}
  locals := programs.map fun program => { program }

/-- How many threads are about to write the slot. -/
def writing (t : Users α) : Nat :=
  (t.locals.map fun thread => thread.isWriting.toNat).sum

/-- How many threads are about to make their value visible. -/
def publishing (t : Users α) : Nat :=
  (t.locals.map fun thread => thread.isPublishing.toNat).sum

/-- How many values are or were in the slot. -/
def installed (t : Users α) : Nat :=
  (t.locals.map Thread.installed).sum

/-- **The cell is claimed by at most one thread**, and has a value once it is ready; threads are
where the cell lets them be, and their answers are right. -/
structure Sound (t : Users α) : Prop where
  claimed : writing t + publishing t = t.shared.isWriting.toNat
  visible : t.shared.isSet.toNat + publishing t = t.shared.slot.isSome.toNat
  installed_eq : installed t = t.shared.slot.isSome.toNat
  placed : ∀ thread ∈ t.locals, thread.Placed t.shared
  holds : ∀ thread ∈ t.locals, ∀ answer ∈ thread.answers, answer.Holds t.shared

lemma Sound.steps (h : t.Sound) (hi : t.locals[i]? = some thread) :
    Steps t.shared thread (thread.advance t.shared).1 (thread.advance t.shared).2 :=
  steps_advance (h.placed thread (List.mem_of_getElem? hi))

/-- A ready cell has a value. -/
lemma Sound.full (h : t.Sound) (hready : t.shared.state = .ready) :
    t.shared.slot.isSome = true := by
  have hvisible := h.visible
  rw [isSet_iff.mpr hready, Bool.toNat_true] at hvisible
  exact Bool.toNat_eq_one.mp (by have := Bool.toNat_le t.shared.slot.isSome; omega)

/-- **Whoever is about to write finds the slot empty.** -/
theorem Sound.entitled (h : t.Sound) (hi : t.locals[i]? = some thread) :
    Entitled t.shared thread := by
  have hmem := List.mem_of_getElem? hi
  have hwriting : thread.isWriting.toNat ≤ writing t :=
    List.le_sum_of_mem (List.mem_map_of_mem hmem)
  have hpublishing : thread.isPublishing.toNat ≤ publishing t :=
    List.le_sum_of_mem (List.mem_map_of_mem hmem)
  have hclaimed := h.claimed
  have hle := Bool.toNat_le t.shared.isWriting
  refine ⟨fun hw => ?_, fun hp => ?_⟩
  · rw [hw, Bool.toNat_true] at hwriting
    have hstate : t.shared.isWriting = true := Bool.toNat_eq_one.mp (by omega)
    have hset : t.shared.isSet = false := by
      rw [isSet, beq_iff_eq.mp hstate]
      rfl
    have hvisible := h.visible
    rw [hset, Bool.toNat_false] at hvisible
    have hslot : t.shared.slot.isSome = false := Bool.toNat_eq_zero.mp (by omega)
    exact Option.not_isSome_iff_eq_none.mp (Bool.eq_false_iff.mp hslot)
  · rw [hp, Bool.toNat_true] at hpublishing
    have hstate : t.shared.isWriting = true := Bool.toNat_eq_one.mp (by omega)
    exact beq_iff_eq.mp hstate

lemma Sound.step (h : t.Sound) (hi : t.locals[i]? = some thread) :
    Sound (t.step Thread.advance i) := by
  have hsteps := h.steps hi
  have he := h.entitled hi
  have hmem := List.mem_of_getElem? hi
  have hwriting : writing (t.step Thread.advance i) + thread.isWriting.toNat =
      writing t + (thread.advance t.shared).2.isWriting.toNat :=
    Threads.sum_step (fun thread : Thread α => thread.isWriting.toNat) hi
  have hpublishing : publishing (t.step Thread.advance i) + thread.isPublishing.toNat =
      publishing t + (thread.advance t.shared).2.isPublishing.toNat :=
    Threads.sum_step (fun thread : Thread α => thread.isPublishing.toNat) hi
  have hinstalled : installed (t.step Thread.advance i) + thread.installed =
      installed t + (thread.advance t.shared).2.installed :=
    Threads.sum_step Thread.installed hi
  refine ⟨?_, ?_, ?_, fun other hother => ?_, fun other hother answer hanswer => ?_⟩
  · have := hsteps.claimed he
    have := h.claimed
    rw [Threads.shared_step hi]
    omega
  · have := hsteps.visible he
    have := h.visible
    rw [Threads.shared_step hi]
    omega
  · have := hsteps.installed he
    have := h.installed_eq
    rw [Threads.shared_step hi]
    omega
  · rw [Threads.shared_step hi]
    rcases Threads.mem_step hi hother with rfl | ⟨j, -, hj⟩
    · exact hsteps.placed (h.placed thread hmem)
    · exact (h.placed other (List.mem_of_getElem? hj)).grows (hsteps.grows he)
  · rw [Threads.shared_step hi]
    rcases Threads.mem_step hi hother with rfl | ⟨j, -, hj⟩
    · rcases hsteps.answers with ⟨-, hsame⟩ | ⟨request, progress, new, hreplies, hcell, -, hnew⟩
      · rw [hsame] at hanswer
        exact (h.holds thread hmem answer hanswer).grows (hsteps.grows he)
      · rw [hnew] at hanswer
        rcases List.mem_cons.mp hanswer with rfl | hold
        · rw [hcell]
          exact hreplies.holds h.full
        · exact (h.holds thread hmem answer hold).grows (hsteps.grows he)
    · exact (h.holds other (List.mem_of_getElem? hj) answer hanswer).grows (hsteps.grows he)

section

variable {programs : List (List (Request α))} {program : List (Request α)}

lemma locals_start (hi : (start programs).locals[i]? = some thread) :
    ∃ program, programs[i]? = some program ∧ thread = { program } := by
  rw [start, List.getElem?_map] at hi
  obtain ⟨program, hprogram, rfl⟩ := Option.map_eq_some_iff.mp hi
  exact ⟨program, hprogram, rfl⟩

lemma mem_start (hthread : thread ∈ (start programs).locals) :
    ∃ program ∈ programs, thread = { program } := by
  obtain ⟨program, hprogram, rfl⟩ := List.mem_map.mp hthread
  exact ⟨program, hprogram, rfl⟩

lemma placed_start (c : OnceCell α) (program : List (Request α)) :
    ({ program } : Thread α).Placed c := by
  cases program with
  | nil => rfl
  | cons request rest => exact .ready request

lemma sum_start {M : Type} [AddCommMonoid M] (f : Thread α → M)
    (h : ∀ program : List (Request α), f { program } = 0) :
    ((start programs).locals.map f).sum = 0 :=
  List.sum_eq_zero fun x hx => by
    obtain ⟨thread, hthread, rfl⟩ := List.mem_map.mp hx
    obtain ⟨program, -, rfl⟩ := mem_start hthread
    exact h program

lemma sound_start (programs : List (List (Request α))) : (start programs).Sound where
  claimed := by
    rw [writing, publishing, sum_start _ fun _ => rfl, sum_start _ fun _ => rfl]
    rfl
  visible := by
    rw [publishing, sum_start _ fun _ => rfl]
    rfl
  installed_eq := sum_start _ fun _ => rfl
  placed thread hthread := by
    obtain ⟨program, -, rfl⟩ := mem_start hthread
    exact placed_start _ program
  holds thread hthread answer hanswer := by
    obtain ⟨program, -, rfl⟩ := mem_start hthread
    cases hanswer

lemma Sound.run (h : t.Sound) (schedule : List Nat) : Sound (t.run Thread.advance schedule) :=
  Threads.run_keeps (fun _ _ _ h hi => h.step hi) h schedule

/-! ### The value stays -/

/-- **A value that is installed stays.** -/
theorem Sound.grows (h : t.Sound) (schedule : List Nat) :
    t.shared.Grows (t.run Thread.advance schedule).shared := by
  refine Threads.run_keeps_under (fun _ _ _ hsound hi => hsound.step hi)
    (Q := fun t' => t.shared.Grows t'.shared) (fun t' i thread hsound hgrows hi => ?_) h (.refl _)
    schedule
  rw [Threads.shared_step hi]
  exact hgrows.trans ((hsound.steps hi).grows (hsound.entitled hi))

/-- **A value that is there is not denied again.** -/
theorem Sound.not_denied (h : t.Sound) (hready : t.shared.state = .ready) (schedule : List Nat)
    (hi : t.locals[i]? = some thread) :
    ∃ thread' new, (t.run Thread.advance schedule).locals[i]? = some thread' ∧
      thread'.answers = new ++ thread.answers ∧ ∀ answer ∈ new, answer.denies = false := by
  induction schedule generalizing t thread with
  | nil => exact ⟨thread, [], hi, rfl, nofun⟩
  | cons j schedule ih =>
      rw [Threads.run_cons]
      cases hj : t.locals[j]? with
      | none =>
          rw [Threads.step_of_none hj]
          exact ih h hready hi
      | some mover =>
          have hready' : (t.step Thread.advance j).shared.state = .ready :=
            (h.grows [j]).state hready
          by_cases hij : j = i
          · subst hij
            obtain rfl : mover = thread := Option.some.inj (hj.symm.trans hi)
            obtain ⟨thread', new, hi', hanswers, hnew⟩ :=
              ih (h.step hi) hready' (Threads.locals_step_self hi)
            rcases (h.steps hi).answers with
              ⟨-, hsame⟩ | ⟨request, progress, answer, hreplies, -, -, hanswer⟩
            · exact ⟨thread', new, hi', hsame ▸ hanswers, hnew⟩
            · refine ⟨thread', new ++ [answer], hi', ?_, fun other hother => ?_⟩
              · rw [hanswers, hanswer, List.append_assoc]
                rfl
              · rcases List.mem_append.mp hother with hother | hother
                · exact hnew other hother
                · rw [List.mem_singleton.mp hother]
                  exact hreplies.not_denies hready
          · exact ih (h.step hj) hready' ((Threads.locals_step_of_ne hij).trans hi)

/-! ### Answers and requests -/

/-- The requests that a thread has dealt with are those of its program that come first, and its
answers are answers to them. -/
def Follows (program : List (Request α)) (thread : Thread α) : Prop :=
  ∃ dealt, program = dealt ++ thread.program ∧
    List.Forall₂ Request.Answered dealt thread.answers.reverse

lemma Follows.step {c c' : OnceCell α} {thread' : Thread α} (h : Follows program thread)
    (hsteps : Steps c thread c' thread') : Follows program thread' := by
  obtain ⟨dealt, hprogram, hanswered⟩ := h
  rcases hsteps.answers with ⟨hprogram', hsame⟩ | ⟨request, _, answer, hreplies, -, hrest, hanswer⟩
  · exact ⟨dealt, hprogram'.symm ▸ hprogram, hsame.symm ▸ hanswered⟩
  · refine ⟨dealt ++ [request], ?_, ?_⟩
    · rw [hprogram, hrest, List.append_assoc]
      rfl
    · rw [hanswer, List.reverse_cons]
      exact List.rel_append hanswered (.cons hreplies.answered .nil)

lemma follows_run (schedule : List Nat) : ∀ (i : Nat) program thread,
    programs[i]? = some program →
    ((start programs).run Thread.advance schedule).locals[i]? = some thread →
    Follows program thread := by
  refine Threads.run_keeps_under (fun _ _ _ hsound hi => hsound.step hi)
    (Q := fun t => ∀ (i : Nat) program thread, programs[i]? = some program →
      t.locals[i]? = some thread → Follows program thread)
    (fun t j mover hsound h hj i program thread hprogram hi => ?_) (sound_start programs)
    (fun i program thread hprogram hi => ?_) schedule
  · rw [Threads.locals_step hj] at hi
    split at hi
    case isTrue heq =>
      subst heq
      rw [← Option.some.inj hi]
      exact (h j program mover hprogram hj).step (hsound.steps hj)
    case isFalse => exact h i program thread hprogram hi
  · obtain ⟨program', hprogram', rfl⟩ := locals_start hi
    obtain rfl : program' = program := Option.some.inj (hprogram'.symm.trans hprogram)
    exact ⟨[], rfl, .nil⟩

/-! ### Initializers -/

/-- The last step of a thread that is about to run an initializer was to see that the cell was not
ready. -/
lemma making_seen (schedule : List Nat)
    (hi : ((start programs).run Thread.advance schedule).locals[i]? = some thread)
    (hmaking : thread.progress = .making) :
    ∃ before after thread₀, schedule = before ++ i :: after ∧ i ∉ after ∧
      ((start programs).run Thread.advance before).shared.state ≠ .ready ∧
      ((start programs).run Thread.advance before).locals[i]? = some thread₀ ∧
      thread₀.progress = .ready ∧ thread₀.program = thread.program := by
  induction schedule using List.reverseRecOn generalizing thread with
  | nil =>
      obtain ⟨program, -, rfl⟩ := locals_start hi
      cases hmaking
  | append_singleton schedule j ih =>
      have hsound := (sound_start programs).run schedule
      rw [Threads.run_append] at hi
      change (Threads.step Thread.advance _ j).locals[i]? = _ at hi
      by_cases hij : j = i
      · subst hij
        cases hj : ((start programs).run Thread.advance schedule).locals[j]? with
        | none =>
            rw [Threads.step_of_none hj, hj] at hi
            cases hi
        | some thread₀ =>
            rw [Threads.locals_step_self hj] at hi
            obtain rfl := Option.some.inj hi
            obtain ⟨hready, hstate, hprogram⟩ := (hsound.steps hj).making hmaking
            exact ⟨schedule, [], thread₀, rfl, List.not_mem_nil, hstate, hj, hready, hprogram.symm⟩
      · rw [Threads.locals_step_of_ne hij] at hi
        obtain ⟨before, after, thread₀, hsplit, hnot, hrest⟩ := ih hi hmaking
        refine ⟨before, after ++ [j], thread₀, ?_, ?_, hrest⟩
        · rw [hsplit, List.append_assoc]
          rfl
        · rw [List.mem_append, List.mem_singleton, not_or]
          exact ⟨hnot, Ne.symm hij⟩

/-! ### Where the values are -/

/-- The values that have been made. -/
def made (t : Users α) : Multiset α :=
  (t.locals.map fun thread => (thread.made : Multiset α)).sum

/-- The values that threads have in hand and those that they have released. -/
def held (t : Users α) : Multiset α :=
  (t.locals.map fun thread => (thread.inHand + thread.released : Multiset α)).sum

/-- **Every value is in one place**: in a thread's hand, in the slot, or released. -/
def Kept (supplied : Multiset α) (t : Users α) : Prop :=
  supplied + made t = held t + t.shared.slot.toList

lemma Kept.step {supplied : Multiset α} (h : Kept supplied t) (hsound : t.Sound)
    (hi : t.locals[i]? = some thread) : Kept supplied (t.step Thread.advance i) := by
  have hmade : made (t.step Thread.advance i) + thread.made =
      made t + (thread.advance t.shared).2.made :=
    Threads.sum_step (fun thread : Thread α => (thread.made : Multiset α)) hi
  have hheld : held (t.step Thread.advance i) + (thread.inHand + thread.released) =
      held t + ((thread.advance t.shared).2.inHand + (thread.advance t.shared).2.released) :=
    Threads.sum_step
      (fun thread : Thread α => (thread.inHand + thread.released : Multiset α)) hi
  have hstep := (hsound.steps hi).conserves (hsound.entitled hi)
  rw [Kept, Threads.shared_step hi]
  refine add_right_cancel (b := (thread.made + (thread.inHand + thread.released) : Multiset α)) ?_
  calc supplied + made (t.step Thread.advance i) + (thread.made + (thread.inHand + thread.released))
      = supplied + (made (t.step Thread.advance i) + thread.made) +
          (thread.inHand + thread.released) := by abel
    _ = (supplied + made t) + (thread.advance t.shared).2.made +
          (thread.inHand + thread.released) := by rw [hmade]; abel
    _ = held t + ((thread.advance t.shared).2.made + (thread.inHand + thread.released) +
          t.shared.slot.toList) := by rw [h]; abel
    _ = thread.made + (held t + ((thread.advance t.shared).2.inHand +
          (thread.advance t.shared).2.released)) +
          (thread.advance t.shared).1.slot.toList := by rw [hstep]; abel
    _ = held (t.step Thread.advance i) + (thread.advance t.shared).1.slot.toList +
          (thread.made + (thread.inHand + thread.released)) := by rw [← hheld]; abel

lemma coe_flatMap {β : Type} (f : β → List α) (l : List β) :
    ((l.flatMap f : List α) : Multiset α) = (l.map fun b => (f b : Multiset α)).sum := by
  induction l with
  | nil => rfl
  | cons b l ih => rw [List.flatMap_cons, ← Multiset.coe_add, ih, List.map_cons, List.sum_cons]

lemma kept_start (programs : List (List (Request α))) :
    Kept (programs.flatMap supplies : List α) (start programs) := by
  have hmade : made (start programs) = 0 := sum_start _ fun _ => rfl
  have hheld : held (start programs) = (programs.flatMap supplies : List α) := by
    rw [held, start, List.map_map, coe_flatMap]
    exact congrArg List.sum (List.map_congr_left fun program _ => add_zero _)
  rw [Kept, hmade, hheld]
  rfl

lemma kept_run (programs : List (List (Request α))) (schedule : List Nat) :
    Kept (programs.flatMap supplies : List α) ((start programs).run Thread.advance schedule) :=
  Threads.run_keeps_under (fun _ _ _ hsound hi => hsound.step hi)
    (fun _ _ _ hsound h hi => h.step hsound hi) (sound_start programs) (kept_start programs)
    schedule

/-- When all threads are done, a value in the slot is visible. -/
lemma Sound.contents (h : t.Sound) (hdone : ∀ thread ∈ t.locals, thread.isDone = true) :
    t.shared.contents = t.shared.slot.toList := by
  have hnobody : publishing t = 0 := List.sum_eq_zero fun n hn => by
    obtain ⟨thread, hthread, rfl⟩ := List.mem_map.mp hn
    rw [Thread.isPublishing, (h.placed thread hthread).of_done (hdone thread hthread)]
    rfl
  have hvisible := h.visible
  rw [hnobody, Nat.add_zero] at hvisible
  rw [OnceCell.contents, get?]
  cases hslot : t.shared.slot with
  | none => exact congrArg Option.toList (ite_self none)
  | some value =>
      rw [hslot] at hvisible
      rw [if_pos (Bool.toNat_eq_one.mp hvisible)]

/-- When all threads are done, no value is in a thread's hand. -/
lemma Sound.held_eq (h : t.Sound) (hdone : ∀ thread ∈ t.locals, thread.isDone = true) :
    held t = (t.locals.flatMap Thread.released : List α) := by
  rw [held, coe_flatMap]
  refine congrArg List.sum (List.map_congr_left fun thread hthread => ?_)
  have hempty : thread.inHand = [] := by
    rw [Thread.inHand, (h.placed thread hthread).of_done (hdone thread hthread),
      List.isEmpty_iff.mp (hdone thread hthread)]
    rfl
  rw [hempty]
  exact zero_add _

end

/-! ### Every interleaving -/

/-- **The cell takes one value for good.**  At every moment of every interleaving of any number of
threads: at most one value has been installed, and it stays.  Every value that an answer shows is
that one, and the slot is read only when the cell is ready and the value is there.  Once an answer
has said that there is a value, no further answer says that there is none.  A thread's answers are
answers to its requests, where a value that is not taken comes back.  An initializer runs only for a
request that has first seen the cell not ready.  When all threads are done, the values that were
supplied and made are those that came back or were let go and the one that goes with the cell. -/
theorem run_installs_once (programs : List (List (Request α))) (schedule : List Nat) :
    let t : Users α := (start programs).run Thread.advance schedule
    (installed t ≤ 1 ∧ ∀ value, t.shared.slot = some value →
      ∀ further : List Nat, (t.run Thread.advance further).shared.slot = some value) ∧
    (∀ thread ∈ t.locals, ∀ slot : Option α,
      .found slot ∈ thread.answers ∨ .stored slot ∈ thread.answers →
        ∃ value, slot = some value ∧ t.shared.slot = some value) ∧
    (∀ thread ∈ t.locals, thread.progress = .reading ∨ thread.progress = .returning →
      t.shared.state = .ready ∧ ∃ value, t.shared.slot = some value) ∧
    ((∃ thread ∈ t.locals, ∃ answer ∈ thread.answers, answer.affirms = true) →
      ∀ (further : List Nat) (i : Nat) (thread : Thread α), t.locals[i]? = some thread →
        ∃ (thread' : Thread α) (new : List (Answer α)),
          (t.run Thread.advance further).locals[i]? = some thread' ∧
            thread'.answers = new ++ thread.answers ∧ ∀ answer ∈ new, answer.denies = false) ∧
    (∀ (i : Nat) program thread, programs[i]? = some program → t.locals[i]? = some thread →
      Follows program thread) ∧
    (∀ i thread, t.locals[i]? = some thread → (thread.advance t.shared).2.made ≠ thread.made →
      ∃ before after thread₀, schedule = before ++ i :: after ∧ i ∉ after ∧
        ((start programs).run Thread.advance before).shared.state ≠ .ready ∧
        ((start programs).run Thread.advance before).locals[i]? = some thread₀ ∧
        thread₀.progress = .ready ∧ thread₀.program = thread.program) ∧
    ((∀ thread ∈ t.locals, thread.isDone = true) →
      List.Perm (programs.flatMap supplies ++ t.locals.flatMap Thread.made)
        (t.locals.flatMap Thread.released ++ t.shared.contents)) := by
  intro t
  have hsound : t.Sound := (sound_start programs).run schedule
  refine ⟨⟨?_, fun value hvalue further => (hsound.grows further).slot value hvalue⟩, ?_, ?_, ?_,
    follows_run schedule, ?_, fun hdone => ?_⟩
  · rw [hsound.installed_eq]
    exact Bool.toNat_le _
  · rintro thread hthread slot (hanswer | hanswer) <;>
      exact (hsound.holds thread hthread _ hanswer).2
  · intro thread hthread hlooks
    have hready := (hsound.placed thread hthread).visible hlooks
    exact ⟨hready, Option.isSome_iff_exists.mp (hsound.full hready)⟩
  · rintro ⟨thread, hthread, answer, hanswer, haffirms⟩ further i other hi
    exact hsound.not_denied ((hsound.holds thread hthread answer hanswer).ready haffirms) further hi
  · intro i thread hi hmade
    rcases (hsound.steps hi).made with hsame | ⟨hmaking, -⟩
    · exact absurd hsame hmade
    · exact making_seen schedule hi hmaking
  · rw [← Multiset.coe_eq_coe, ← Multiset.coe_add, ← Multiset.coe_add, hsound.contents hdone,
      ← hsound.held_eq hdone, coe_flatMap Thread.made]
    exact kept_run programs schedule

/-- Two threads make a value each, and the one that made its value second claims the cell first: its
value is installed, and the other one is let go. -/
theorem run_installs_once_sample :
    let t : Users Nat := (start [[.getOrInit 1], [.getOrInit 2, .get], [.set 3]]).run Thread.advance
      [0, 0, 1, 1, 1, 1, 0, 2, 2, 1, 1, 1, 1, 1, 0, 0]
    (∀ thread ∈ t.locals, thread.isDone = true) ∧ t.shared.contents = [2] ∧
      t.locals.map Thread.released = [[1], [], [3]] ∧
      List.Perm ([3] ++ t.locals.flatMap Thread.made)
        (t.locals.flatMap Thread.released ++ t.shared.contents) := by
  intro t
  have hdone : ∀ thread ∈ t.locals, thread.isDone = true := by decide
  obtain ⟨-, -, -, -, -, -, hvalues⟩ := run_installs_once
    [[.getOrInit 1], [.getOrInit 2, .get], [.set 3]]
    [0, 0, 1, 1, 1, 1, 0, 2, 2, 1, 1, 1, 1, 1, 0, 0]
  exact ⟨hdone, by decide, by decide, hvalues hdone⟩

end Users

end KernelMemory.Sync.OnceCell
