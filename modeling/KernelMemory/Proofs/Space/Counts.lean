import KernelMemory.Proofs.Space.Chart

/-!
# The counts beside the links

The entry that links an owned table counts the table's present entries.  When a slot of the table is
filled or emptied, the nearest holder on the way to the slot is recounted, and the counts of all
other tables stand.

* `Chart.Counted` — every owned table is counted right.
* `Chart.BusyBut` — no owned table is empty, one perhaps excepted.
* **`Counted.write`** — a slot is written and the nearest holder recounted.
-/

namespace KernelMemory

/-- The counts once the nearest of some holders was recounted, if it owns the table it links. -/
def Outline.recounted (o : Outline) (n : Slot → Nat) (holders : List Slot) (g : Nat → Nat) :
    Slot → Nat :=
  fun x => if holders.head? = some x ∧ (o x).owned = true then g (n x) else n x

namespace Chart

variable {C : Chart} {o o' : Outline} {n n' : Slot → Nat} {e : Entry} {s x : Slot} {f root : Frame}
  {va : VirtAddr} {h k : Nat} {holders : List Slot} {g : Nat → Nat} {but but' : Option Slot}
  {lowest : Prop}

/-- **Every owned table is counted right**, but for those that a root lends: entries that come and
go through another root are not counted by the owner. -/
def Counted (C : Chart) (o : Outline) (n : Slot → Nat) : Prop :=
  ∀ s f, C.Links o s f → (o s).owned = true → ¬ C.Lends s → n s = o.count f

/-- **No owned table is empty**, except that the given slot may link one.  Tables of the lowest
level are considered only where that is asked for: a walk for a caller leaves an empty one. -/
def BusyBut (C : Chart) (lowest : Prop) (o : Outline) (n : Slot → Nat) (but : Option Slot) : Prop :=
  ∀ s f k, C.Links o s f → (o s).owned = true → C.height f = some k → 0 < k ∨ lowest → n s = 0 →
    but = some s

/-- No owned table is empty. -/
abbrev Busy (C : Chart) (lowest : Prop) (o : Outline) (n : Slot → Nat) : Prop :=
  C.BusyBut lowest o n none

/-- Only what stands in the tables of the chart is counted. -/
lemma Counted.congr (hcount : C.Counted o n) (hfit : C.Fits o) (hkeeps : C.Keeps o o')
    (hlive : ∀ s, C.IsTable s.table → (o s).present = true → n' s = n s) : C.Counted o' n' := by
  intro s f hl howned hlends
  obtain ⟨hl, hs⟩ := (Links.keeps_iff hkeeps).mp hl
  rw [hs] at howned
  rw [hlive s hl.table hl.present, hcount s f hl howned hlends]
  exact (Outline.count_congr fun i => hkeeps.present (s := ⟨f, i⟩) (hfit.isTable_of_links hl)).symm

/-- Only what stands in the tables of the chart makes a table busy. -/
lemma BusyBut.congr (hbusy : C.BusyBut lowest o n but) (hkeeps : C.Keeps o o')
    (hlive : ∀ s, C.IsTable s.table → (o s).present = true → n' s = n s) :
    C.BusyBut lowest o' n' but := by
  intro s f k hl howned hf hk hzero
  obtain ⟨hl, hs⟩ := (Links.keeps_iff hkeeps).mp hl
  rw [hs] at howned
  rw [hlive s hl.table hl.present] at hzero
  exact hbusy s f k hl howned hf hk hzero

/-! ## Counts of a table that changes -/

/-- **A slot is written and the nearest holder recounted.**  If the entry links an owned table, then
the count that comes with it has to be right. -/
theorem Counted.write (hcount : C.Counted o n) (hfit : C.Fits o) (hroot : C.IsRoot root)
    (hl : o.Leads root va holders s.table h)
    (hn : ∀ x, x ≠ s → n' x = o.recounted n holders g x)
    (hthis : Outline.count (Function.update o s e) s.table = g (o.count s.table))
    (hself : ∀ k, C.height s.table = some (k + 1) → e.isTable = true → e.owned = true →
      n' s = Outline.count (Function.update o s e) e.frame) :
    C.Counted (Function.update o s e) n' := by
  intro x f hx howned hlends
  rcases links_update hx with ⟨rfl, ⟨k, hk⟩, htable, rfl⟩ | ⟨hxs, hx⟩
  · rw [Function.update_self] at howned
    exact hself k hk htable howned
  · rw [Function.update_of_ne hxs] at howned
    rw [hn x hxs, Outline.recounted]
    by_cases hf : f = s.table
    · subst hf
      rw [if_pos ⟨hfit.head_of_links hroot hl hx howned hlends, howned⟩, hthis,
        hcount x _ hx howned hlends]
    · have hhead : holders.head? ≠ some x := by
        intro hhead
        obtain ⟨rest, rfl⟩ : ∃ rest, holders = x :: rest := by
          cases holders with
          | nil => cases hhead
          | cons y rest => exact ⟨rest, by rw [Option.some.inj hhead]⟩
        exact hf (hx.unique (hfit.links_of_leads hroot hl).1)
      rw [if_neg fun hand => hhead hand.1, hcount x f hx howned hlends,
        Outline.count_update_of_ne (Ne.symm hf)]

lemma Counted.add (hcount : C.Counted o n) (hf : C.height f = none) (hblank : o.Blank f) :
    (C.add f h).Counted o n := by
  intro x g hx howned hlends
  refine hcount x g ((links_add hf hblank).mp hx) howned fun hlend => hlends ?_
  exact ⟨hlend.1, height_add_of_some hf hlend.2⟩

lemma Counted.drop (hcount : C.Counted o n) : (C.drop f).Counted o n := by
  intro x g hx howned hlends
  obtain ⟨hx, hne⟩ := links_drop.mp hx
  refine hcount x g hx howned fun hlend => hlends ?_
  exact ⟨hlend.1, (height_drop_of_ne hne).trans hlend.2⟩

/-! ## Empty tables -/

lemma BusyBut.weaken (hbusy : C.Busy lowest o n) : C.BusyBut lowest o n but :=
  fun s f k hl howned hf hk hzero => absurd (hbusy s f k hl howned hf hk hzero) (by simp)

lemma BusyBut.settle (hbusy : C.BusyBut lowest o n (some s))
    (hs : ∀ f k, C.Links o s f → (o s).owned = true → C.height f = some k → 0 < k ∨ lowest →
      n s ≠ 0) : C.Busy lowest o n := by
  intro x f k hl howned hf hk hzero
  obtain rfl := Option.some.inj (hbusy x f k hl howned hf hk hzero)
  exact absurd hzero (hs f k hl howned hf hk)

/-- Once a slot is filled, the only table that may be empty is one that the slot links. -/
lemma BusyBut.fill (hbusy : C.BusyBut lowest o n holders.head?)
    (hn : ∀ x, x ≠ s → n' x = o.recounted n holders (· + 1) x) :
    C.BusyBut lowest (Function.update o s e) n' (some s) := by
  intro x f k hl howned hf hk hzero
  rcases links_update hl with ⟨rfl, -⟩ | ⟨hxs, hl⟩
  · rfl
  · rw [Function.update_of_ne hxs] at howned
    rw [hn x hxs, Outline.recounted] at hzero
    split at hzero
    case isTrue => omega
    case isFalse hnot => exact absurd ⟨hbusy x f k hl howned hf hk hzero, howned⟩ hnot

/-- Once a slot is emptied, the only table that may be empty is the one it belongs to. -/
lemma BusyBut.vacate (hbusy : C.BusyBut lowest o n (some s))
    (hn : ∀ x, x ≠ s → n' x = o.recounted n holders (· - 1) x) :
    C.BusyBut lowest (Function.update o s .absent) n' holders.head? := by
  intro x f k hl howned hf hk hzero
  rcases links_update hl with ⟨-, -, htable, -⟩ | ⟨hxs, hl⟩
  · cases htable
  · rw [Function.update_of_ne hxs] at howned
    rw [hn x hxs, Outline.recounted] at hzero
    split at hzero
    case isTrue hhead => exact hhead.1
    case isFalse =>
      exact absurd (Option.some.inj (hbusy x f k hl howned hf hk hzero)).symm hxs

lemma BusyBut.add (hbusy : C.BusyBut lowest o n but) (hfit : C.Fits o) (hf : C.height f = none)
    (hblank : o.Blank f) : (C.add f h).BusyBut lowest o n but := by
  intro x g k hl howned hg hk hzero
  have hl := (links_add hf hblank).mp hl
  obtain ⟨j, hj⟩ := hfit.isTable_of_links hl
  rw [height_add_of_some hf hj] at hg
  exact hbusy x g k hl howned (hj.trans hg) hk hzero

lemma BusyBut.drop (hbusy : C.BusyBut lowest o n but) : (C.drop f).BusyBut lowest o n but :=
  fun x g k hl howned hg => hbusy x g k (links_drop.mp hl).1 howned (height_of_drop hg).2

end Chart

end KernelMemory
