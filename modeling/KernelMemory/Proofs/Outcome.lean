import KernelMemory.Store
import Mathlib.Algebra.GroupWithZero.Nat

/-!
# Outcomes of actions

What an action does is said by `Action.Ensures`: from a given state it ends with a result and a
state that meet a postcondition.  A panic counts as an ending only where it is excused; a law that
excuses no panic says that the action always returns.

* **`Ensures.bind`** — the rule of sequence, by which the law of a block is put together from the
  laws of its steps.
* **`Action.Simulates`** — an action does what another one does on related states.
* `Action.Erases` — an action does the same without a part of the state.
* `Store.run_entry`, `Store.run_setEntry`, `Store.run_clearFrame` — what the accesses to memory do
  when the window shows the frame.
-/

namespace KernelMemory

lemma Checked.bind_eq_ok {α β : Type} {x : Except Panic α} {f : α → Except Panic β} {b : β} :
    x >>= f = .ok b ↔ ∃ a, x = .ok a ∧ f a = .ok b := by
  cases x with
  | ok a => exact ⟨fun h => ⟨a, rfl, h⟩, fun ⟨_, rfl, h⟩ => h⟩
  | error p => exact ⟨fun h => (by cases h), fun ⟨_, h, _⟩ => (by cases h)⟩

/-- A sum that fits is that of its terms. -/
lemma Checked.sum_eq_ok {l : List Nat} (h : l.sum < 2 ^ 64) : Checked.sum l = .ok l.sum := by
  have hfold : ∀ (l : List Nat) (a : Nat), a + l.sum < 2 ^ 64 →
      l.foldlM Checked.add a = .ok (a + l.sum) := by
    intro l
    induction l with
    | nil => simp [pure, Except.pure]
    | cons b l ih =>
        intro a hsum
        rw [List.sum_cons] at hsum
        have hadd : Checked.add a b = .ok (a + b) := Checked.add_eq_ok_iff.mpr ⟨by omega, rfl⟩
        rw [List.foldlM_cons, Checked.bind_eq_ok]
        refine ⟨a + b, hadd, ?_⟩
        rw [ih (a + b) (by omega), List.sum_cons, Nat.add_assoc]
  rw [Checked.sum, hfold l 0 (by omega), Nat.zero_add]

/-- A search that no check stops finds what is there. -/
lemma Checked.anyM_eq_true {α : Type} {f : α → Except Panic Bool} {l : List α} {a : α}
    (hok : ∀ a ∈ l, ∃ b, f a = .ok b) (ha : a ∈ l) (hf : f a = .ok true) :
    l.anyM f = .ok true := by
  induction l with
  | nil => cases ha
  | cons a' l ih =>
      obtain ⟨⟨b, hb⟩, hok⟩ := List.forall_mem_cons.mp hok
      rw [List.anyM, Checked.bind_eq_ok]
      refine ⟨b, hb, ?_⟩
      cases b with
      | true => rfl
      | false =>
          rcases List.mem_cons.mp ha with rfl | ha
          · rw [hf] at hb
            cases hb
          · exact ih hok ha

namespace Action

variable {σ τ α β : Type} {act : Action σ α} {excuse : Panic → Prop} {s s' : σ} {a : α}
  {post post' : α → σ → Prop}

/-! ## Postconditions -/

/-- **The action meets a postcondition** from a state: it returns, and the result and the new state
are as `post` says, or it panics in a way that `excuse` admits. -/
def Ensures (act : Action σ α) (excuse : Panic → Prop) (s : σ) (post : α → σ → Prop) : Prop :=
  match act.run s with
  | .ok a s' => post a s'
  | .error p _ => excuse p

/-- No panic is excused. -/
def noPanic : Panic → Prop := fun _ => False

/-- Every panic is excused, so that only what returns is spoken of. -/
def anyPanic : Panic → Prop := fun _ => True

lemma Ensures.of_run (h : act.run s = .ok a s') (hpost : post a s') :
    Ensures act excuse s post := by
  rw [Ensures, h]
  exact hpost

lemma Ensures.pure (hpost : post a s) : Ensures (Pure.pure a) excuse s post :=
  .of_run rfl hpost

lemma Ensures.throw {p : Panic} (h : excuse p) :
    Ensures (MonadExcept.throw p : Action σ α) excuse s post :=
  h

lemma Ensures.of_ok (h : Ensures act excuse s post) (hrun : act.run s = .ok a s') :
    post a s' := by
  rw [Ensures, hrun] at h
  exact h

/-- An action returns, or panics in a way that is excused. -/
lemma Ensures.returns_or (h : Ensures act excuse s post) :
    (∃ a s', act.run s = .ok a s' ∧ post a s') ∨ ∃ p, excuse p := by
  rw [Ensures] at h
  cases hrun : act.run s with
  | ok a s' =>
      rw [hrun] at h
      exact .inl ⟨a, s', rfl, h⟩
  | error p s' =>
      rw [hrun] at h
      exact .inr ⟨p, h⟩

/-- An action for which no panic is excused returns. -/
lemma Ensures.returns (h : Ensures act noPanic s post) :
    ∃ a s', act.run s = .ok a s' ∧ post a s' :=
  h.returns_or.resolve_right fun ⟨_, hp⟩ => hp

/-- An action for which no result will do panics. -/
lemma Ensures.panics (h : Ensures act excuse s fun _ _ => False) :
    ∃ p s', act.run s = .error p s' ∧ excuse p := by
  rw [Ensures] at h
  cases hrun : act.run s with
  | ok a s' =>
      rw [hrun] at h
      exact h.elim
  | error p s' =>
      rw [hrun] at h
      exact ⟨p, s', rfl, h⟩

/-- Where panics are excused, an action does what it does. -/
lemma ensures_run : Ensures act anyPanic s fun a s' => act.run s = .ok a s' := by
  rw [Ensures]
  cases hrun : act.run s with
  | ok a s' => rfl
  | error p s' => trivial

lemma Ensures.mono (h : Ensures act excuse s post) (hpost : ∀ a s', post a s' → post' a s') :
    Ensures act excuse s post' := by
  rw [Ensures] at h ⊢
  cases hrun : act.run s with
  | ok a s' =>
      rw [hrun] at h
      exact hpost a s' h
  | error p s' =>
      rw [hrun] at h
      exact h

/-- An action meets two postconditions if it meets each; panics have to be excused for one only. -/
lemma Ensures.and {excuse' : Panic → Prop} (h : Ensures act excuse s post)
    (h' : Ensures act excuse' s post') :
    Ensures act excuse s fun a s' => post a s' ∧ post' a s' := by
  rw [Ensures] at h h' ⊢
  cases hrun : act.run s with
  | ok a s' =>
      rw [hrun] at h h'
      exact ⟨h, h'⟩
  | error p s' =>
      rw [hrun] at h
      exact h

/-! ## Sequence -/

lemma run_bind {f : α → Action σ β} (h : act.run s = .ok a s') :
    EStateM.run (act >>= f) s = (f a).run s' := by
  rw [EStateM.run_bind, h]

/-- **The rule of sequence.** -/
theorem Ensures.bind {f : α → Action σ β} {mid : α → σ → Prop} {post : β → σ → Prop}
    (h : Ensures act excuse s mid) (hf : ∀ a s', mid a s' → Ensures (f a) excuse s' post) :
    Ensures (act >>= f) excuse s post := by
  rw [Ensures] at h
  rw [Ensures, EStateM.run_bind]
  cases hrun : act.run s with
  | ok a s' =>
      rw [hrun] at h
      exact hf a s' h
  | error p s' =>
      rw [hrun] at h
      exact h

lemma Ensures.bind_run {f : α → Action σ β} {post : β → σ → Prop} (h : act.run s = .ok a s')
    (hf : Ensures (f a) excuse s' post) : Ensures (act >>= f) excuse s post := by
  rw [Ensures, run_bind h]
  exact hf

lemma run_discard_eq :
    (Functor.discard act).run s = EStateM.run (act >>= fun _ => Pure.pure ()) s := by
  rw [EStateM.run_bind]
  change EStateM.map _ act s = _
  rw [EStateM.map]
  rfl

lemma run_discard (h : act.run s = .ok a s') : (Functor.discard act).run s = .ok () s' := by
  rw [run_discard_eq, run_bind h]
  rfl

/-- What a result is used for does not matter if it is not looked at. -/
lemma Ensures.discard {p : σ → Prop} (h : Ensures act excuse s fun _ s' => p s') :
    Ensures (Functor.discard act) excuse s fun _ s' => p s' := by
  rw [Ensures, run_discard_eq]
  exact h.bind fun _ _ hp => .pure hp

lemma run_ofExcept {x : Except Panic α} (h : x = .ok a) :
    (ofExcept x : Action σ α).run s = .ok a s := by
  rw [h]
  rfl

lemma ofExcept_ensures {x : Except Panic α} (h : ∀ p, x = .error p → excuse p) :
    Ensures (ofExcept x : Action σ α) excuse s fun a s' => x = .ok a ∧ s' = s := by
  cases x with
  | ok a => exact .pure ⟨rfl, rfl⟩
  | error p => exact .throw (h p rfl)

/-! ## Parts of a state -/

variable {focus : τ → σ × (σ → τ)} {t : τ}

lemma run_within_eq : (within focus act).run t = match act.run (focus t).1 with
    | .ok a s' => .ok a ((focus t).2 s')
    | .error p s' => .error p ((focus t).2 s') := rfl

lemma run_within (h : act.run (focus t).1 = .ok a s') :
    (within focus act).run t = .ok a ((focus t).2 s') := by
  rw [run_within_eq, h]

/-- An action on a part does to the part what it does alone, and puts it back. -/
lemma Ensures.within (h : Ensures act excuse (focus t).1 post) :
    Ensures (Action.within focus act) excuse t
      (fun a t' => ∃ s', t' = (focus t).2 s' ∧ post a s') := by
  rw [Ensures] at h
  rw [Ensures, run_within_eq]
  cases hrun : act.run (focus t).1 with
  | ok a s' =>
      rw [hrun] at h
      exact ⟨s', rfl, h⟩
  | error p s' =>
      rw [hrun] at h
      exact h

/-! ## Related states -/

/-- **Two outcomes agree**: the same result or the same panic, in related states. -/
def Agrees (R : σ → τ → Prop) : EStateM.Result Panic σ α → EStateM.Result Panic τ α → Prop
  | .ok a s, .ok b t => a = b ∧ R s t
  | .error p s, .error q t => p = q ∧ R s t
  | _, _ => False

/-- **An action does what another one does** on related states. -/
def Simulates (R : σ → τ → Prop) (act : Action σ α) (act' : Action τ α) : Prop :=
  ∀ s t, R s t → Agrees R (act.run s) (act'.run t)

section

variable {R S : σ → τ → Prop} {act' : Action τ α} {x : EStateM.Result Panic σ α}
  {y : EStateM.Result Panic τ α}

lemma Agrees.mono (h : Agrees R x y) (hRS : ∀ s t, R s t → S s t) : Agrees S x y := by
  cases x <;> cases y
  case ok.ok => exact ⟨h.1, hRS _ _ h.2⟩
  case error.error => exact ⟨h.1, hRS _ _ h.2⟩
  all_goals exact h

lemma Agrees.of_ok {t' : τ} (h : Agrees R x (.ok a t')) : ∃ s', x = .ok a s' ∧ R s' t' := by
  cases x with
  | ok b s' =>
      obtain ⟨rfl, hR⟩ := h
      exact ⟨s', rfl, hR⟩
  | error p s' => exact h.elim

namespace Simulates

lemma pure (a : α) : Simulates R (Pure.pure a) (Pure.pure a) :=
  fun _ _ hR => ⟨rfl, hR⟩

lemma throw (p : Panic) :
    Simulates R (MonadExcept.throw p : Action σ α) (MonadExcept.throw p) :=
  fun _ _ hR => ⟨rfl, hR⟩

lemma modify {change : σ → σ} {change' : τ → τ} (h : ∀ s t, R s t → R (change s) (change' t)) :
    Simulates R (modify change) (modify change') :=
  fun s t hR => ⟨rfl, h s t hR⟩

lemma bind {f : α → Action σ β} {f' : α → Action τ β} (h : Simulates R act act')
    (hf : ∀ a, Simulates R (f a) (f' a)) : Simulates R (act >>= f) (act' >>= f') := by
  intro s t hR
  have hact := h s t hR
  rw [EStateM.run_bind, EStateM.run_bind]
  cases hrun : act.run s <;> cases hrun' : act'.run t <;> rw [hrun, hrun'] at hact
  case ok.ok a s' b t' =>
    obtain ⟨rfl, hR'⟩ := hact
    exact hf a s' t' hR'
  case error.error => exact hact
  all_goals exact hact.elim

lemma get_bind {f : σ → Action σ β} {f' : τ → Action τ β}
    (hf : ∀ s t, R s t → Simulates R (f s) (f' t)) :
    Simulates R (get >>= f) (get >>= f') :=
  fun s t hR => hf s t hR s t hR

lemma ite {c : Prop} [Decidable c] {act₁ : Action σ α} {act₁' : Action τ α}
    (h : Simulates R act act') (h₁ : Simulates R act₁ act₁') :
    Simulates R (if c then act else act₁) (if c then act' else act₁') := by
  split
  · exact h
  · exact h₁

lemma ofExcept (x : Except Panic α) :
    Simulates R (Action.ofExcept x) (Action.ofExcept x) := by
  cases x with
  | ok a => exact pure a
  | error p => exact throw p

lemma discard (h : Simulates R act act') :
    Simulates R (Functor.discard act) (Functor.discard act') := by
  intro s t hR
  rw [run_discard_eq, run_discard_eq]
  exact h.bind (fun _ => pure ()) s t hR

end Simulates

end

/-! ## States of which a part does not matter -/

/-- **An action does the same without a part of the state**: on what is left of the state, it gives
the same result and what is left of the new state. -/
def Erases (erase : σ → τ) (act : Action σ α) (act' : Action τ α) : Prop :=
  ∀ s, act'.run (erase s) = match act.run s with
    | .ok a s' => .ok a (erase s')
    | .error p s' => .error p (erase s')

section

variable {erase : σ → τ} {act' : Action τ α}

/-- What is left of a state is related to it. -/
lemma erases_iff : Erases erase act act' ↔ Simulates (fun s t => t = erase s) act act' := by
  constructor
  · rintro h s t rfl
    rw [h s]
    cases act.run s <;> exact ⟨rfl, rfl⟩
  · intro h s
    have hact := h s _ rfl
    cases hrun : act.run s <;> cases hrun' : act'.run (erase s) <;> rw [hrun, hrun'] at hact
    case ok.ok => rw [hact.1, hact.2]
    case error.error => rw [hact.1, hact.2]
    all_goals exact hact.elim

namespace Erases

lemma run (h : Erases erase act act') (hrun : act.run s = .ok a s') :
    act'.run (erase s) = .ok a (erase s') := by
  rw [h s, hrun]

/-- What the action does without the part, it does with it. -/
lemma lift {t : τ} (h : Erases erase act act') (hrun : act'.run (erase s) = .ok a t) :
    ∃ s', act.run s = .ok a s' ∧ erase s' = t := by
  have hact := erases_iff.mp h s _ rfl
  rw [hrun] at hact
  obtain ⟨s', hrun', ht⟩ := hact.of_ok
  exact ⟨s', hrun', ht.symm⟩

lemma pure (a : α) : Erases erase (Pure.pure a) (Pure.pure a) :=
  fun _ => rfl

lemma throw (p : Panic) :
    Erases erase (MonadExcept.throw p : Action σ α) (MonadExcept.throw p) :=
  fun _ => rfl

lemma bind {f : α → Action σ β} {f' : α → Action τ β} (h : Erases erase act act')
    (hf : ∀ a, Erases erase (f a) (f' a)) : Erases erase (act >>= f) (act' >>= f') :=
  erases_iff.mpr ((erases_iff.mp h).bind fun a => erases_iff.mp (hf a))

lemma get_bind {f : σ → Action σ β} {f' : τ → Action τ β}
    (hf : ∀ s, Erases erase (f s) (f' (erase s))) :
    Erases erase (get >>= f) (get >>= f') :=
  fun s => hf s s

lemma ite {c : Prop} [Decidable c] {act₁ : Action σ α} {act₁' : Action τ α}
    (h : Erases erase act act') (h₁ : Erases erase act₁ act₁') :
    Erases erase (if c then act else act₁) (if c then act' else act₁') :=
  erases_iff.mpr (.ite (erases_iff.mp h) (erases_iff.mp h₁))

lemma ofExcept (x : Except Panic α) :
    Erases erase (Action.ofExcept x) (Action.ofExcept x) :=
  erases_iff.mpr (.ofExcept x)

lemma discard (h : Erases erase act act') :
    Erases erase (Functor.discard act) (Functor.discard act') :=
  erases_iff.mpr (erases_iff.mp h).discard

end Erases

end

end Action

/-! ## Accesses to memory -/

/-- The window shows a frame, so that it can be used. -/
def Memory.Shows (m : Memory) (f : Frame) : Prop :=
  m.touch f = .ok ()

lemma Memory.Shows.of_window {m m' : Memory} {f : Frame} (h : m.Shows f)
    (hw : m'.window = m.window) : m'.Shows f := by
  rw [Memory.Shows, Memory.touch, hw]
  exact h

/-- A window shows the frames below its limit. -/
lemma Memory.shows_of_lt {m : Memory} {f : Frame} {n : Nat} (hw : m.window.frames? = some n)
    (hf : f.number < n) : m.Shows f := by
  have hbase : f.base.value.toNat < n * pageSize := by
    rw [Page.toNat_base]
    exact Nat.mul_lt_mul_of_pos_right hf (by decide)
  rw [Memory.Shows, Memory.touch, Window.pointer, hw]
  simp only [if_pos hbase]
  rfl

lemma Memory.readEntry_eq {m : Memory} {slot : Slot} (h : m.Shows slot.table) :
    m.readEntry slot = .ok (m.entry slot) := by
  rw [Memory.readEntry, show m.touch slot.table = .ok () from h]
  rfl

namespace Store

variable {A : Type} {s : Store A} {slot : Slot} {f : Frame} {e : Entry}

lemma run_lookup {α : Type} {look : Memory → Except Panic α} {a : α} (h : look s.memory = .ok a) :
    (Store.lookup look : Action (Store A) α).run s = .ok a s := by
  rw [Store.lookup, Action.run_bind (EStateM.run_get s)]
  exact Action.run_ofExcept h

lemma run_touch (h : s.memory.Shows f) : (Store.touch f).run s = .ok () s :=
  run_lookup (show (fun m : Memory => m.touch f) s.memory = .ok () from h)

lemma run_entry (h : s.memory.Shows slot.table) :
    (Store.entry slot).run s = .ok (s.memory.entry slot) s :=
  run_lookup (show (fun m : Memory => m.readEntry slot) s.memory = _ from Memory.readEntry_eq h)

lemma run_setEntry (h : s.memory.Shows slot.table) :
    (Store.setEntry slot e).run s = .ok () { s with memory := s.memory.setEntry slot e } := by
  rw [Store.setEntry, Action.run_bind (run_touch h)]
  rfl

lemma run_clearFrame (h : s.memory.Shows f) :
    (Store.clearFrame f).run s = .ok () { s with memory := s.memory.clear f } := by
  rw [Store.clearFrame, Action.run_bind (run_touch h)]
  rfl

lemma run_note {event : Log.Event} :
    (Store.note event).run s = .ok () { s with log := s.log.push event } := rfl

end Store

end KernelMemory
