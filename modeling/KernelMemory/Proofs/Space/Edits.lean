import KernelMemory.Proofs.Outcome
import KernelMemory.Proofs.Space.Counts
import KernelMemory.Space.Edit

/-!
# What an edit does to memory

`fill` and `vacate` write one slot and recount the nearest holder.  `Memory.put` is that edit as a
function on memory, and the laws here say that the actions carry it out, what the edit does to the
outline and to the counts, and that emptying a slot undoes filling it.

* **`Space.fill_ensures`**, **`Space.vacate_ensures`** — the actions carry out the edit.
* `Memory.outline_put`, `Memory.live_put` — the edit as a write to the outline and a recount.
* `Memory.entry_put_put` — filling and then emptying a slot.
-/

namespace KernelMemory

/-! ## The edit as a function -/

namespace Memory

variable {m : Memory} {holders : List Slot} {g : Nat → Nat} {path : Path} {e : Entry} {t : Slot}

/-- The count beside the link in a slot. -/
def live (m : Memory) (s : Slot) : Nat :=
  (m.entry s).liveChildren.val

/-- Memory after the nearest of some holders was recounted, if it owns the table it links. -/
def recount (m : Memory) (holders : List Slot) (g : Nat → Nat) : Memory :=
  match holders with
  | [] => m
  | holder :: _ =>
    if (m.entry holder).owned then
      m.setEntry holder ((m.entry holder).counting (g (m.live holder)))
    else m

/-- Memory after an entry was written and the nearest holder recounted. -/
def put (m : Memory) (path : Path) (e : Entry) (g : Nat → Nat) : Memory :=
  (m.setEntry path.slot e).recount path.holders g

/-- The recounted number fits the counter. -/
def Room (m : Memory) (holders : List Slot) (g : Nat → Nat) : Prop :=
  ∀ x, holders.head? = some x → (m.entry x).owned = true → g (m.live x) < 2048

@[simp] lemma window_recount : (m.recount holders g).window = m.window := by
  cases holders with
  | nil => rfl
  | cons x rest =>
      rw [recount]
      split <;> rfl

@[simp] lemma window_put : (m.put path e g).window = m.window := by
  rw [put, window_recount, window_setEntry]

lemma entry_recount : (m.recount holders g).entry t =
    if holders.head? = some t ∧ (m.entry t).owned = true then
      (m.entry t).counting (g (m.live t))
    else m.entry t := by
  cases holders with
  | nil => simp [recount]
  | cons x rest =>
      rw [recount, List.head?_cons]
      by_cases hx : x = t
      · subst hx
        by_cases howned : (m.entry x).owned = true
        · rw [if_pos howned, if_pos ⟨rfl, howned⟩, entry_setEntry, if_pos rfl]
        · rw [if_neg howned, if_neg fun hand => howned hand.2]
      · have hhead : ¬ (some x = some t ∧ (m.entry t).owned = true) :=
          fun hand => hx (Option.some.inj hand.1)
        rw [if_neg hhead]
        split
        · rw [entry_setEntry, if_neg hx]
        · rfl

lemma entry_put_self (hne : path.holders.head? ≠ some path.slot) :
    (m.put path e g).entry path.slot = e := by
  rw [put, entry_recount, if_neg fun hand => hne hand.1, entry_setEntry, if_pos rfl]

/-- The edit at the nearest holder and elsewhere. -/
lemma entry_put_of_ne (ht : t ≠ path.slot) : (m.put path e g).entry t =
    if path.holders.head? = some t ∧ (m.entry t).owned = true then
      (m.entry t).counting (g (m.live t))
    else m.entry t := by
  have hset : (m.setEntry path.slot e).entry t = m.entry t := by
    rw [entry_setEntry, if_neg (Ne.symm ht)]
  rw [put, entry_recount, live, live, hset]

/-- **The edit writes one slot of the outline.** -/
theorem outline_put (hne : path.holders.head? ≠ some path.slot) :
    (m.put path e g).outline = Function.update m.outline path.slot e.outline := by
  funext t
  rcases eq_or_ne t path.slot with rfl | ht
  · rw [Function.update_self, outline_apply, entry_put_self hne]
  · rw [Function.update_of_ne ht, outline_apply, outline_apply, entry_put_of_ne ht]
    split
    case isTrue hand => rw [Entry.outline, Entry.outline, if_pos hand.2, if_pos hand.2]
    case isFalse => rfl

/-- **The edit recounts the nearest holder.** -/
theorem live_put (hroom : m.Room path.holders g) (ht : t ≠ path.slot) :
    (m.put path e g).live t = m.outline.recounted m.live path.holders g t := by
  rw [live, entry_put_of_ne ht, Outline.recounted, outline_apply, Entry.outline_owned]
  split
  case isTrue hand =>
    have hlt := hroom t hand.1 hand.2
    exact Nat.mod_eq_of_lt hlt
  case isFalse => rfl

lemma live_put_self (hne : path.holders.head? ≠ some path.slot) :
    (m.put path e g).live path.slot = e.liveChildren.val := by
  rw [live, entry_put_self hne]

lemma word_eq_of_entry_eq {m' : Memory} (h : m'.entry t = m.entry t) : m'.word t = m.word t := by
  rw [← Entry.toWord_ofWord (m'.word t), ← Entry.toWord_ofWord (m.word t)]
  exact congrArg Entry.toWord h

lemma word_put (hslot : t.table ≠ path.slot.table)
    (hhead : ∀ x, path.holders.head? = some x → t.table ≠ x.table) :
    (m.put path e g).word t = m.word t := by
  refine word_eq_of_entry_eq ?_
  rw [entry_put_of_ne fun heq => hslot (congrArg Slot.table heq), if_neg]
  exact fun hand => hhead t hand.1 rfl

/-- **Emptying a slot undoes filling it**, wherever the memory in between is as the filling left it:
all that may be left of it is that the slot is empty now. -/
theorem entry_put_put {m' : Memory} (hold : (m.entry path.slot).present = false)
    (hne : path.holders.head? ≠ some path.slot) (hroom : m.Room path.holders (· + 1))
    (ht : m'.entry t = (m.put path e (· + 1)).entry t ∨
      ((m.put path e (· + 1)).entry t).present = false ∧ m'.entry t = .absent) :
    (m'.put path .absent (· - 1)).entry t = m.entry t ∨
      (m.entry t).present = false ∧ (m'.put path .absent (· - 1)).entry t = .absent := by
  rcases eq_or_ne t path.slot with rfl | hts
  · exact .inr ⟨hold, entry_put_self hne⟩
  · rw [entry_put_of_ne hts] at ht
    rw [entry_put_of_ne hts, live]
    by_cases hand : path.holders.head? = some t ∧ (m.entry t).owned = true
    · have hlt := hroom t hand.1 hand.2
      rw [if_pos hand] at ht
      rcases ht with ht | ⟨hpresent, ht⟩
      · left
        rw [ht, if_pos hand]
        refine Entry.ext rfl rfl rfl rfl rfl rfl rfl rfl rfl rfl rfl rfl (Fin.ext ?_) rfl
        simp only [live, Fin.val_ofNat] at hlt ⊢
        omega
      · right
        rw [ht]
        exact ⟨hpresent, if_neg fun hand => by cases hand.2⟩
    · rw [if_neg hand] at ht
      rcases ht with ht | ⟨hpresent, ht⟩
      · rw [ht]
        exact .inl (if_neg hand)
      · rw [ht]
        exact .inr ⟨hpresent, if_neg fun hand => by cases hand.2⟩

end Memory

/-! ## The actions carry out the edit -/

namespace Space

variable {A : Type} {s : Store A} {excuse : Panic → Prop} {holders : List Slot} {path : Path}
  {e : Entry} {table : Frame}

/-- The window shows the table of the nearest holder. -/
def HeadShown (m : Memory) (holders : List Slot) : Prop :=
  ∀ x, holders.head? = some x → m.Shows x.table

lemma gainChild_ensures (hshown : HeadShown s.memory holders)
    (hroom : s.memory.Room holders (· + 1) ∨ excuse .liveCountFull) :
    Action.Ensures (gainChild holders) excuse s fun _ s' =>
      s' = { s with memory := s.memory.recount holders (· + 1) } ∧
        s.memory.Room holders (· + 1) := by
  cases holders with
  | nil => exact .pure ⟨rfl, fun x hx => by cases hx⟩
  | cons x rest =>
      have hx : s.memory.Shows x.table := hshown x rfl
      refine .bind_run (Store.run_entry hx) ?_
      by_cases howned : (s.memory.entry x).owned = true
      · rw [if_pos howned]
        by_cases hlt : s.memory.live x + 1 < 2048
        · have hlink : (s.memory.entry x).withLiveChildren? (s.memory.live x + 1) =
              some ((s.memory.entry x).counting (s.memory.live x + 1)) := by
            rw [Entry.withLiveChildren?, dif_pos hlt]
            congr
            exact (Nat.mod_eq_of_lt hlt).symm
          rw [show (s.memory.entry x).liveChildren.val = s.memory.live x from rfl, hlink]
          refine .of_run (Store.run_setEntry hx) ⟨?_, fun y hy _ => ?_⟩
          · rw [Memory.recount, if_pos howned]
          · obtain rfl := Option.some.inj hy
            exact hlt
        · have hlink : (s.memory.entry x).withLiveChildren? (s.memory.live x + 1) = none := by
            rw [Entry.withLiveChildren?, dif_neg hlt]
          rw [show (s.memory.entry x).liveChildren.val = s.memory.live x from rfl, hlink]
          refine .throw (hroom.resolve_left fun hroom => hlt (hroom x rfl howned))
      · rw [if_neg howned]
        refine .pure ⟨?_, fun y hy hown => ?_⟩
        · rw [Memory.recount, if_neg howned]
        · obtain rfl := Option.some.inj hy
          exact absurd hown howned

lemma loseChild_ensures (hshown : HeadShown s.memory holders)
    (hlive : (∀ x, holders.head? = some x → (s.memory.entry x).owned = true →
      s.memory.live x ≠ 0) ∨ excuse (.liveCountUnderflow table)) :
    Action.Ensures (loseChild table holders) excuse s fun _ s' =>
      s' = { s with memory := s.memory.recount holders (· - 1) } := by
  cases holders with
  | nil => exact .pure rfl
  | cons x rest =>
      have hx : s.memory.Shows x.table := hshown x rfl
      refine .bind_run (Store.run_entry hx) ?_
      by_cases howned : (s.memory.entry x).owned = true
      · rw [if_pos howned]
        cases hn : (s.memory.entry x).liveChildren.val with
        | zero => exact .throw (hlive.resolve_left fun hlive => hlive x rfl howned hn)
        | succ live =>
            refine .of_run (Store.run_setEntry hx) ?_
            rw [Memory.recount, if_pos howned, Memory.live, hn]
            rfl
      · rw [if_neg howned]
        refine .pure ?_
        rw [Memory.recount, if_neg howned]

/-- What the nearest holder needs for its count to be kept. -/
structure Ready (m : Memory) (path : Path) : Prop where
  slot : m.Shows path.slot.table
  head : HeadShown m path.holders
  ne : path.holders.head? ≠ some path.slot

namespace Ready

lemma entry_setEntry (hready : Ready s.memory path) {x : Slot}
    (hx : path.holders.head? = some x) :
    (s.memory.setEntry path.slot e).entry x = s.memory.entry x := by
  rw [Memory.entry_setEntry, if_neg]
  rintro rfl
  exact hready.ne hx

lemma head_setEntry (hready : Ready s.memory path) :
    HeadShown (s.memory.setEntry path.slot e) path.holders :=
  fun x hx => (hready.head x hx).of_window (Memory.window_setEntry)

end Ready

/-- **Filling an unused slot** writes the entry and counts one more child. -/
theorem fill_ensures (hready : Ready s.memory path)
    (hold : (s.memory.entry path.slot).present = false)
    (hroom : s.memory.Room path.holders (· + 1) ∨ excuse .liveCountFull) :
    Action.Ensures (fill path e) excuse s fun _ s' =>
      s' = { s with memory := s.memory.put path e (· + 1) } ∧
        s.memory.Room path.holders (· + 1) := by
  have hroom' : (s.memory.setEntry path.slot e).Room path.holders (· + 1) ↔
      s.memory.Room path.holders (· + 1) := by
    constructor <;> intro hroom x hx howned
    · have := hroom x hx
      rw [Memory.live, hready.entry_setEntry hx] at this
      exact this howned
    · rw [hready.entry_setEntry hx] at howned
      rw [Memory.live, hready.entry_setEntry hx]
      exact hroom x hx howned
  refine .bind_run (Store.run_entry hready.slot) (.bind_run (Store.run_setEntry hready.slot) ?_)
  rw [hold]
  refine (gainChild_ensures (s := { s with memory := s.memory.setEntry path.slot e })
    hready.head_setEntry (hroom.imp_left hroom'.mpr)).mono ?_
  rintro _ s' ⟨rfl, hroom⟩
  exact ⟨rfl, hroom'.mp hroom⟩

/-- **Emptying a slot** that is in use counts one child less. -/
theorem vacate_ensures (hready : Ready s.memory path)
    (hold : (s.memory.entry path.slot).present = true)
    (hlive : (∀ x, path.holders.head? = some x → (s.memory.entry x).owned = true →
      s.memory.live x ≠ 0) ∨ excuse (.liveCountUnderflow path.slot.table)) :
    Action.Ensures (vacate path) excuse s fun _ s' =>
      s' = { s with memory := s.memory.put path .absent (· - 1) } := by
  refine .bind_run (Store.run_entry hready.slot) (.bind_run (Store.run_setEntry hready.slot) ?_)
  rw [if_pos hold]
  refine loseChild_ensures hready.head_setEntry (hlive.imp_left fun hlive x hx howned => ?_)
  rw [Memory.live, hready.entry_setEntry hx]
  rw [hready.entry_setEntry hx] at howned
  exact hlive x hx howned

end Space

end KernelMemory
