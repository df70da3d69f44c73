import Mathlib.Data.Multiset.AddSub
import KernelMemory.Sync.OnceCell

/-!
# Steps of a thread that uses a once cell

What a thread has come to with a request says what its next step is.  This is one case analysis of
`Thread.advance`; the laws of all threads are read off the steps.

* `Placed` — what a thread has come to, as the cell is.
* `Steps`, **`steps_advance`** — what a step does to the cell and to the thread.
* `Steps.claimed`, `Steps.visible`, `Steps.installed` — what a step counts, where the slot is
  written while it is empty (`Entitled`).
* `Grows`, **`Steps.grows`** — a value stays.
* `Answer.Holds`, `Request.Answered` — what answers are right about, and to which requests.
* **`Steps.making`** — an initializer runs for a request that has seen the cell not ready.
* **`Steps.conserves`** — no value gets lost in a step, and none twice.
-/

namespace KernelMemory.Sync.OnceCell

variable {α : Type} {c c' : OnceCell α}

/-! ## Requests and answers -/

namespace Answer

/-- Whether an answer says that there is no value. -/
def denies : Answer α → Bool
  | absent => true
  | isSet answer => !answer
  | _ => false

/-- Whether an answer says that there is a value. -/
def affirms : Answer α → Bool
  | found _ => true
  | stored _ => true
  | isSet answer => answer
  | _ => false

/-- Whether an answer says that the thread's own value was taken. -/
def isStored : Answer α → Bool
  | stored _ => true
  | _ => false

/-- The value that an answer hands back. -/
def rejected? : Answer α → Option α
  | rejected value => some value
  | _ => none

end Answer

namespace Request

/-- The value that a request supplies. -/
def supplied? : Request α → Option α
  | set value => some value
  | _ => none

/-- The value that a request brings, if it finds none. -/
def brings? : Request α → Option α
  | set value => some value
  | getOrInit value => some value
  | _ => none

/-- **The answers to a request.**  A value that is not taken comes back, and one that is taken is
what the slot holds. -/
inductive Answered : Request α → Answer α → Prop
  | absent : Answered get .absent
  | got (slot : Option α) : Answered get (.found slot)
  | stored (value : α) : Answered (set value) (.stored (some value))
  | rejected (value : α) : Answered (set value) (.rejected value)
  | found (value : α) (slot : Option α) : Answered (getOrInit value) (.found slot)
  | made (value : α) : Answered (getOrInit value) (.stored (some value))
  | isSet (answer : Bool) : Answered isSet (.isSet answer)

end Request

/-! ## Where a thread can be -/

lemma isSet_iff : c.isSet = true ↔ c.state = .ready := by
  rw [isSet, beq_iff_eq]

/-- What a thread has come to with a request, as the cell is. -/
inductive Placed (c : OnceCell α) : Request α → Progress α → Prop
  | ready (request : Request α) : Placed c request .ready
  | getting : c.state = .ready → Placed c .get .reading
  | reading (value : α) : c.state = .ready → Placed c (.getOrInit value) .reading
  | making (value : α) : Placed c (.getOrInit value) .making
  | claiming {request : Request α} {value : α} : request.brings? = some value →
      Placed c request (.claiming value)
  | writing {request : Request α} {value : α} : request.brings? = some value →
      Placed c request (.writing value)
  | publishing {request : Request α} {value : α} : request.brings? = some value →
      c.slot = some value → Placed c request .publishing
  | returning {request : Request α} {value : α} : request.brings? = some value →
      c.slot = some value → c.state = .ready → Placed c request .returning
  | waiting (value : α) : Placed c (.getOrInit value) .waiting

/-- **A cell grows**: a value that it holds stays, and so does its being ready. -/
structure Grows (c c' : OnceCell α) : Prop where
  slot : ∀ value, c.slot = some value → c'.slot = some value
  state : c.state = .ready → c'.state = .ready

lemma Grows.refl (c : OnceCell α) : c.Grows c :=
  ⟨fun _ h => h, id⟩

lemma Grows.trans {c'' : OnceCell α} (h : c.Grows c') (h' : c'.Grows c'') : c.Grows c'' :=
  ⟨fun value hvalue => h'.slot value (h.slot value hvalue), fun hready => h'.state (h.state hready)⟩

lemma Placed.grows {request : Request α} {progress : Progress α} (h : Placed c request progress)
    (hgrows : c.Grows c') : Placed c' request progress := by
  cases h with
  | ready => exact .ready request
  | getting hready => exact .getting (hgrows.state hready)
  | reading value hready => exact .reading value (hgrows.state hready)
  | making value => exact .making value
  | claiming hbrings => exact .claiming hbrings
  | writing hbrings => exact .writing hbrings
  | publishing hbrings hslot => exact .publishing hbrings (hgrows.slot _ hslot)
  | returning hbrings hslot hready =>
      exact .returning hbrings (hgrows.slot _ hslot) (hgrows.state hready)
  | waiting value => exact .waiting value

namespace Thread

variable {t t' : Thread α}

/-- A thread with nothing left to do is not in the middle of a request. -/
def Placed (c : OnceCell α) (t : Thread α) : Prop :=
  match t.program with
  | [] => t.progress = .ready
  | request :: _ => OnceCell.Placed c request t.progress

lemma Placed.grows (h : t.Placed c) (hgrows : c.Grows c') : t.Placed c' := by
  rw [Placed] at h ⊢
  split at h
  · exact h
  · exact OnceCell.Placed.grows h hgrows

lemma Placed.of_done (h : t.Placed c) (hdone : t.isDone = true) : t.progress = .ready := by
  rwa [Placed, List.isEmpty_iff.mp hdone] at h

/-- Whoever is about to read the slot finds the cell ready. -/
lemma Placed.visible (h : t.Placed c) (hlooks : t.progress = .reading ∨ t.progress = .returning) :
    c.state = .ready := by
  rcases t with ⟨_ | ⟨request, rest⟩, progress, answers, dropped, made⟩
  · obtain rfl : progress = .ready := h
    rcases hlooks with hlooks | hlooks <;> cases hlooks
  · obtain rfl | rfl : progress = .reading ∨ progress = .returning := hlooks
    · cases (show OnceCell.Placed c request .reading from h) <;> assumption
    · cases (show OnceCell.Placed c request .returning from h)
      assumption

end Thread

/-! ## What a step does -/

/-- The steps that answer a request. -/
inductive Replies (c : OnceCell α) : Request α → Progress α → Answer α → Prop
  | absent : c.state ≠ .ready → Replies c .get .ready .absent
  | got : c.state = .ready → Replies c .get .reading (.found c.slot)
  | found (value : α) : c.state = .ready → Replies c (.getOrInit value) .reading (.found c.slot)
  | stored {request : Request α} {value : α} : request.brings? = some value →
      c.slot = some value → c.state = .ready → Replies c request .returning (.stored c.slot)
  | rejected (value : α) : Replies c (.set value) (.claiming value) (.rejected value)
  | isSet : Replies c .isSet .ready (.isSet c.isSet)

/-- The steps that only change how far the thread has come. -/
inductive Turns (c : OnceCell α) : Request α → Progress α → Progress α → Prop
  | get : c.state = .ready → Turns c .get .ready .reading
  | get' (value : α) : c.state = .ready → Turns c (.getOrInit value) .ready .reading
  | make (value : α) : c.state ≠ .ready → Turns c (.getOrInit value) .ready .making
  | set (value : α) : Turns c (.set value) .ready (.claiming value)
  | awaited (value : α) : c.state = .ready → Turns c (.getOrInit value) .waiting .reading

/-- **What a step does** to the cell and to the thread that takes it. -/
inductive Steps (c : OnceCell α) : Thread α → OnceCell α → Thread α → Prop
  | rests {t : Thread α} : t.progress ≠ .making → Steps c t c t
  | replies {request progress answer} (rest answers dropped made) :
      Replies c request progress answer →
      Steps c ⟨request :: rest, progress, answers, dropped, made⟩
        c ⟨rest, .ready, answer :: answers, dropped, made⟩
  | turns {request progress progress'} (rest answers dropped made) :
      Turns c request progress progress' →
      Steps c ⟨request :: rest, progress, answers, dropped, made⟩
        c ⟨request :: rest, progress', answers, dropped, made⟩
  | makes (value rest answers dropped made) :
      Steps c ⟨.getOrInit value :: rest, .making, answers, dropped, made⟩
        c ⟨.getOrInit value :: rest, .claiming value, answers, dropped, value :: made⟩
  | claims {request : Request α} {value} (rest answers dropped made) : c.state = .empty →
      request.brings? = some value →
      Steps c ⟨request :: rest, .claiming value, answers, dropped, made⟩
        { c with state := .writing } ⟨request :: rest, .writing value, answers, dropped, made⟩
  | loses (value rest answers dropped made) :
      Steps c ⟨.getOrInit value :: rest, .claiming value, answers, dropped, made⟩
        c ⟨.getOrInit value :: rest, .waiting, answers, value :: dropped, made⟩
  | writes {request : Request α} {value} (rest answers dropped made) :
      request.brings? = some value →
      Steps c ⟨request :: rest, .writing value, answers, dropped, made⟩
        (c.write value) ⟨request :: rest, .publishing, answers, dropped, made⟩
  | publishes {request : Request α} {value} (rest answers dropped made) :
      request.brings? = some value → c.slot = some value →
      Steps c ⟨request :: rest, .publishing, answers, dropped, made⟩
        c.publish ⟨request :: rest, .returning, answers, dropped, made⟩

lemma steps_ready (request : Request α) (rest answers dropped made) :
    Steps c ⟨request :: rest, .ready, answers, dropped, made⟩ c
      (Thread.start c ⟨request :: rest, .ready, answers, dropped, made⟩ request) := by
  cases request with
  | get =>
      rw [Thread.start]
      split
      case isTrue h => exact .turns _ _ _ _ (.get (isSet_iff.mp h))
      case isFalse h => exact .replies _ _ _ _ (.absent (h ∘ isSet_iff.mpr))
  | set value => exact .turns _ _ _ _ (.set value)
  | getOrInit value =>
      rw [Thread.start]
      split
      case isTrue h => exact .turns _ _ _ _ (.get' value (isSet_iff.mp h))
      case isFalse h => exact .turns _ _ _ _ (.make value (h ∘ isSet_iff.mpr))
  | isSet => exact .replies _ _ _ _ .isSet

lemma steps_claiming {request : Request α} {value : α} (rest answers dropped made)
    (hbrings : request.brings? = some value) {t : Thread α}
    (ht : t = ⟨request :: rest, .claiming value, answers, dropped, made⟩) :
    Steps c t (t.advance c).1 (t.advance c).2 := by
  subst ht
  cases hstate : c.state with
  | empty =>
      simp only [Thread.advance, claim, hstate]
      exact .claims _ _ _ _ hstate hbrings
  | _ =>
      simp only [Thread.advance, claim, hstate]
      cases request with
      | set value' =>
          obtain rfl : value' = value := Option.some.inj hbrings
          exact .replies _ _ _ _ (.rejected value')
      | getOrInit value' =>
          obtain rfl : value' = value := Option.some.inj hbrings
          exact .loses value' _ _ _ _
      | _ => cases hbrings

lemma steps_advance {t : Thread α} (h : t.Placed c) :
    Steps c t (t.advance c).1 (t.advance c).2 := by
  rcases t with ⟨_ | ⟨request, rest⟩, progress, answers, dropped, made⟩
  · change progress = .ready at h
    exact .rests (h ▸ nofun)
  · change Placed c request progress at h
    cases h with
    | ready => exact steps_ready request _ _ _ _
    | getting hready => exact .replies _ _ _ _ (.got hready)
    | reading value hready => exact .replies _ _ _ _ (.found value hready)
    | making value => exact .makes value _ _ _ _
    | claiming hbrings => exact steps_claiming _ _ _ _ hbrings rfl
    | writing hbrings => exact .writes _ _ _ _ hbrings
    | publishing hbrings hslot => exact .publishes _ _ _ _ hbrings hslot
    | returning hbrings hslot hready =>
        exact .replies _ _ _ _ (.stored hbrings hslot hready)
    | waiting value =>
        change Steps c _ c (if c.isSet then _ else _)
        split
        case isTrue hset => exact .turns _ _ _ _ (.awaited value (isSet_iff.mp hset))
        case isFalse => exact .rests nofun

lemma Steps.placed {t t' : Thread α} (h : Steps c t c' t') (hplaced : t.Placed c) :
    t'.Placed c' := by
  cases h with
  | rests => exact hplaced
  | replies rest answers dropped made hreplies =>
      cases rest with
      | nil => rfl
      | cons request rest => exact .ready request
  | turns rest answers dropped made hturns =>
      cases hturns with
      | get hready => exact .getting hready
      | get' value hready => exact .reading value hready
      | make value => exact .making value
      | set value => exact .claiming rfl
      | awaited value hready => exact .reading value hready
  | makes => exact .claiming rfl
  | claims rest answers dropped made hempty hbrings => exact .writing hbrings
  | loses value => exact .waiting value
  | writes rest answers dropped made hbrings => exact .publishing hbrings rfl
  | publishes rest answers dropped made hbrings hslot => exact .returning hbrings hslot rfl

/-! ## What is counted -/

namespace Thread

/-- Whether the thread is about to write the slot. -/
def isWriting (t : Thread α) : Bool :=
  match t.progress with
  | .writing _ => true
  | _ => false

/-- Whether the thread is about to make its value visible. -/
def isPublishing (t : Thread α) : Bool :=
  match t.progress with
  | .publishing => true
  | _ => false

/-- Whether the thread has made its value visible and is about to look at it. -/
def isReturning (t : Thread α) : Bool :=
  match t.progress with
  | .returning => true
  | _ => false

/-- How many values of the thread are or were in the slot. -/
def installed (t : Thread α) : Nat :=
  t.answers.countP Answer.isStored + t.isPublishing.toNat + t.isReturning.toNat

end Thread

/-- Whether somebody is writing. -/
def isWriting (c : OnceCell α) : Bool :=
  c.state == .writing

section

variable {t t' : Thread α}

/-- The slot is written while it is empty, and made visible by whoever has claimed the cell. -/
structure Entitled (c : OnceCell α) (t : Thread α) : Prop where
  write : t.isWriting = true → c.slot = none
  publish : t.isPublishing = true → c.state = .writing

lemma Steps.claimed (h : Steps c t c' t') (he : Entitled c t) :
    c'.isWriting.toNat + t.isWriting.toNat + t.isPublishing.toNat =
      c.isWriting.toNat + t'.isWriting.toNat + t'.isPublishing.toNat := by
  cases h with
  | rests => rfl
  | replies rest answers dropped made hreplies => cases hreplies <;> rfl
  | turns rest answers dropped made hturns => cases hturns <;> rfl
  | makes => rfl
  | claims rest answers dropped made hempty =>
      rw [isWriting, isWriting, hempty]
      rfl
  | loses => rfl
  | writes => exact Nat.add_right_comm ..
  | publishes =>
      have hstate := he.publish rfl
      rw [isWriting, isWriting, hstate]
      rfl

lemma Steps.visible (h : Steps c t c' t') (he : Entitled c t) :
    c'.isSet.toNat + t'.isPublishing.toNat + c.slot.isSome.toNat =
      c.isSet.toNat + t.isPublishing.toNat + c'.slot.isSome.toNat := by
  cases h with
  | rests => rfl
  | replies rest answers dropped made hreplies => cases hreplies <;> rfl
  | turns rest answers dropped made hturns => cases hturns <;> rfl
  | makes => rfl
  | claims rest answers dropped made hempty =>
      rw [isSet, isSet, hempty]
      rfl
  | loses => rfl
  | writes =>
      rw [he.write rfl]
      rfl
  | publishes =>
      have hstate := he.publish rfl
      rw [isSet, isSet, hstate]
      rfl

lemma Steps.installed (h : Steps c t c' t') (he : Entitled c t) :
    t'.installed + c.slot.isSome.toNat = t.installed + c'.slot.isSome.toNat := by
  cases h with
  | rests => rfl
  | replies rest answers dropped made hreplies =>
      cases hreplies with
      | stored =>
          have hcount : (Answer.stored c.slot :: answers).countP Answer.isStored =
              answers.countP Answer.isStored + 1 := List.countP_cons_of_pos rfl
          exact congrArg (· + c.slot.isSome.toNat) hcount
      | _ => rfl
  | turns rest answers dropped made hturns => cases hturns <;> rfl
  | makes => rfl
  | claims => rfl
  | loses => rfl
  | writes =>
      rw [he.write rfl]
      rfl
  | publishes => rfl

/-- **A step keeps the value** once there is one. -/
theorem Steps.grows (h : Steps c t c' t') (he : Entitled c t) : c.Grows c' := by
  cases h with
  | claims rest answers dropped made hempty =>
      exact ⟨fun _ h => h, fun hready => absurd (hempty.symm.trans hready) nofun⟩
  | writes rest answers dropped made =>
      have hslot := he.write rfl
      exact ⟨fun value hvalue => absurd (hslot.symm.trans hvalue) nofun, id⟩
  | publishes => exact ⟨fun _ h => h, fun _ => rfl⟩
  | _ => exact .refl c

/-! ## What is answered -/

/-- An answer is right about a cell: what it shows is there. -/
def Answer.Holds (c : OnceCell α) : Answer α → Prop
  | .found slot => c.state = .ready ∧ ∃ value, slot = some value ∧ c.slot = some value
  | .stored slot => c.state = .ready ∧ ∃ value, slot = some value ∧ c.slot = some value
  | .isSet true => c.state = .ready
  | _ => True

lemma Answer.Holds.grows {answer : Answer α} (h : answer.Holds c) (hgrows : c.Grows c') :
    answer.Holds c' := by
  cases answer with
  | found slot =>
      obtain ⟨hready, value, hslot, hvalue⟩ := h
      exact ⟨hgrows.state hready, value, hslot, hgrows.slot value hvalue⟩
  | stored slot =>
      obtain ⟨hready, value, hslot, hvalue⟩ := h
      exact ⟨hgrows.state hready, value, hslot, hgrows.slot value hvalue⟩
  | isSet answer =>
      cases answer with
      | true => exact hgrows.state h
      | false => trivial
  | _ => trivial

/-- An answer that there is a value is given of a ready cell. -/
lemma Answer.Holds.ready {answer : Answer α} (h : answer.Holds c)
    (haffirms : answer.affirms = true) : c.state = .ready := by
  cases answer with
  | found slot => exact h.1
  | stored slot => exact h.1
  | isSet answer =>
      obtain rfl : answer = true := haffirms
      exact h
  | _ => cases haffirms

lemma Replies.holds {request : Request α} {progress : Progress α} {answer : Answer α}
    (h : Replies c request progress answer) (hfull : c.state = .ready → c.slot.isSome = true) :
    answer.Holds c := by
  cases h with
  | got hready =>
      obtain ⟨value, hvalue⟩ := Option.isSome_iff_exists.mp (hfull hready)
      exact ⟨hready, value, hvalue, hvalue⟩
  | found _ hready =>
      obtain ⟨value, hvalue⟩ := Option.isSome_iff_exists.mp (hfull hready)
      exact ⟨hready, value, hvalue, hvalue⟩
  | stored _ hvalue hready => exact ⟨hready, _, hvalue, hvalue⟩
  | isSet =>
      cases hset : c.isSet with
      | true => exact isSet_iff.mp hset
      | false => trivial
  | _ => trivial

lemma Replies.answered {request : Request α} {progress : Progress α} {answer : Answer α}
    (h : Replies c request progress answer) : request.Answered answer := by
  cases h with
  | absent => exact .absent
  | got => exact .got _
  | found value => exact .found value _
  | stored hbrings hslot =>
      rw [hslot]
      cases request with
      | set value => exact hbrings ▸ .stored value
      | getOrInit value => exact hbrings ▸ .made value
      | _ => cases hbrings
  | rejected value => exact .rejected value
  | isSet => exact .isSet _

/-- A ready cell is not denied to have a value. -/
lemma Replies.not_denies {request : Request α} {progress : Progress α} {answer : Answer α}
    (h : Replies c request progress answer) (hready : c.state = .ready) :
    answer.denies = false := by
  cases h with
  | absent hnot => exact absurd hready hnot
  | isSet =>
      rw [isSet_iff.mpr hready]
      rfl
  | _ => rfl

/-- **A step answers the first request**, or no request. -/
theorem Steps.answers (h : Steps c t c' t') :
    t'.program = t.program ∧ t'.answers = t.answers ∨
      ∃ request progress answer, Replies c request progress answer ∧ c' = c ∧
        t.program = request :: t'.program ∧ t'.answers = answer :: t.answers := by
  cases h with
  | replies rest answers dropped made hreplies => exact .inr ⟨_, _, _, hreplies, rfl, rfl, rfl⟩
  | _ => exact .inl ⟨rfl, rfl⟩

/-- **An initializer runs** for a request that has seen the cell not ready. -/
theorem Steps.making (h : Steps c t c' t') (hmaking : t'.progress = .making) :
    t.progress = .ready ∧ c.state ≠ .ready ∧ t'.program = t.program := by
  cases h with
  | rests hnot => exact absurd hmaking hnot
  | turns rest answers dropped made hturns =>
      cases hturns with
      | make value hnot => exact ⟨rfl, hnot, rfl⟩
      | _ => cases hmaking
  | _ => cases hmaking

lemma Steps.made (h : Steps c t c' t') :
    t'.made = t.made ∨ t.progress = .making ∧ ∃ value rest,
      t.program = .getOrInit value :: rest ∧ t'.made = value :: t.made := by
  cases h with
  | makes value rest => exact .inr ⟨rfl, value, rest, rfl, rfl⟩
  | _ => exact .inl rfl

/-! ## Where the values are -/

/-- The values that requests supply. -/
def supplies (program : List (Request α)) : List α :=
  program.filterMap Request.supplied?

namespace Thread

/-- The values that the thread has in hand: those that its requests supply and the one that it has
made, unless they are in the slot. -/
def inHand (t : Thread α) : List α :=
  match t.progress, t.program with
  | .claiming value, .getOrInit _ :: rest => value :: supplies rest
  | .writing value, .getOrInit _ :: rest => value :: supplies rest
  | .publishing, _ :: rest => supplies rest
  | .returning, _ :: rest => supplies rest
  | _, program => supplies program

/-- The values that the thread has got back or let go. -/
def released (t : Thread α) : List α :=
  t.answers.filterMap Answer.rejected? ++ t.dropped

end Thread

/-- **No value gets lost in a step, and none twice**: what the thread makes is then in its hand, in
the slot, or released. -/
theorem Steps.conserves (h : Steps c t c' t') (he : Entitled c t) :
    (t'.made : Multiset α) + (t.inHand + t.released) + c.slot.toList =
      t.made + (t'.inHand + t'.released) + c'.slot.toList := by
  cases h with
  | rests => rfl
  | replies rest answers dropped made hreplies =>
      cases hreplies with
      | rejected value =>
          change (made : Multiset α) + ((value :: supplies rest : List α) +
            (answers.filterMap Answer.rejected? ++ dropped : List α)) + _ =
            made + (supplies rest + (value :: (answers.filterMap Answer.rejected? ++ dropped) :
              List α)) + _
          simp only [← Multiset.cons_coe, Multiset.cons_add, Multiset.add_cons]
      | _ => rfl
  | turns rest answers dropped made hturns => cases hturns <;> rfl
  | makes value rest answers dropped made =>
      change ((value :: made : List α) : Multiset α) + (supplies rest + _) + _ =
        made + ((value :: supplies rest : List α) + _) + _
      simp only [← Multiset.cons_coe, Multiset.cons_add, Multiset.add_cons]
      rfl
  | @claims request value rest answers dropped made hempty hbrings =>
      cases request with
      | set | getOrInit => rfl
      | _ => cases hbrings
  | loses value rest answers dropped made =>
      change (made : Multiset α) + ((value :: supplies rest : List α) +
        (answers.filterMap Answer.rejected? ++ dropped : List α)) + _ =
        made + (supplies rest +
          (answers.filterMap Answer.rejected? ++ value :: dropped : List α)) + _
      simp only [← Multiset.coe_add, ← Multiset.cons_coe, Multiset.cons_add, Multiset.add_cons]
  | @writes request value rest answers dropped made hbrings =>
      have hhand : Thread.inHand ⟨request :: rest, .writing value, answers, dropped, made⟩ =
          value :: supplies rest := by
        cases request with
        | set value' => exact congrArg (· :: supplies rest) (Option.some.inj hbrings)
        | getOrInit => rfl
        | _ => cases hbrings
      rw [he.write rfl, hhand]
      change (made : Multiset α) + ((value :: supplies rest : List α) + _) + ([] : List α) =
        made + (supplies rest + _) + ([value] : List α)
      simp only [← Multiset.cons_coe, Multiset.cons_add, Multiset.add_cons]
      rfl
  | publishes => rfl

end

end KernelMemory.Sync.OnceCell
