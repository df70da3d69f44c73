import KernelMemory.Proofs.Frames.Lawful
import KernelMemory.Proofs.Frames.Projection
import Mathlib.Algebra.Order.Group.Multiset
import Mathlib.Data.Finset.Insert

/-!
# A ledger of frames

A `Ledger` stands before a source of frames and writes down every frame that goes out and every
frame that comes back.  It changes nothing of what the source does, so that whatever runs on the
source runs on the ledger just the same; only the record is new.

* `Ledger` — a source with a record; `Ledger.opened` — a store with nothing recorded yet.
* `Ledger.InOrder` — what was handed out and what is free balance with what came back and what was
  free at first, and no other frame passes.
* **`Ledger.instLawfulSource`** — the ledger of a well-behaved source is well-behaved.
-/

namespace KernelMemory

/-- **A source of frames that keeps a record**, from a time on at which the given frames were free.
-/
structure Ledger (A : Type) (start : Finset Frame) where
  source : A
  /-- The frames that were handed out since, the last one first. -/
  given : List Frame := []
  /-- The frames that came back since, the last one first. -/
  returned : List Frame := []

namespace Ledger

variable {A : Type} {start : Finset Frame} {s s' : Store (Ledger A start)} {f : Frame}

/-- The store without the record. -/
def plain (s : Store (Ledger A start)) : Store A where
  memory := s.memory
  source := s.source.source
  log := s.log

/-- A store with the record of a ledger. -/
def record (l : Ledger A start) (s : Store A) : Store (Ledger A start) where
  memory := s.memory
  source := { l with source := s.source }
  log := s.log

@[simp] lemma plain_record {l : Ledger A start} {s : Store A} : plain (record l s) = s := rfl

/-- The ledger once a frame was handed out. -/
def give (l : Ledger A start) (f : Frame) : Ledger A start :=
  { l with given := f :: l.given }

/-- The ledger once a frame came back. -/
def takeBack (l : Ledger A start) (f : Frame) : Ledger A start :=
  { l with returned := f :: l.returned }

/-! ## Keeping the record -/

instance [FrameSource A] : FrameSource (Ledger A start) where
  alloc s :=
    match FrameSource.alloc (plain s) with
    | .ok none s' => .ok none (record s.source s')
    | .ok (some f) s' => .ok (some f) (record (s.source.give f) s')
    | .error p s' => .error p (record s.source s')
  free f s :=
    match FrameSource.free f (plain s) with
    | .ok () s' => .ok () (record (s.source.takeBack f) s')
    | .error p s' => .error p (record s.source s')

variable [FrameSource A]

lemma run_alloc : (FrameSource.alloc : Action (Store (Ledger A start)) _).run s =
    match (FrameSource.alloc : Action (Store A) _).run (plain s) with
    | .ok none s' => .ok none (record s.source s')
    | .ok (some f) s' => .ok (some f) (record (s.source.give f) s')
    | .error p s' => .error p (record s.source s') := rfl

lemma run_free : (FrameSource.free f : Action (Store (Ledger A start)) _).run s =
    match (FrameSource.free f : Action (Store A) _).run (plain s) with
    | .ok () s' => .ok () (record (s.source.takeBack f) s')
    | .error p s' => .error p (record s.source s') := rfl

/-- A ledger changes nothing of what the source does. -/
instance : ProjectsTo (Ledger.source : Ledger A start → A) where
  alloc s := by
    change (FrameSource.alloc : Action (Store A) _).run (plain s) = _
    rw [run_alloc]
    cases hrun : (FrameSource.alloc : Action (Store A) _).run (plain s) with
    | error p s' => rfl
    | ok r s' => cases r <;> rfl
  free f s := by
    change (FrameSource.free f : Action (Store A) _).run (plain s) = _
    rw [run_free]
    cases hrun : (FrameSource.free f : Action (Store A) _).run (plain s) with
    | error p s' => rfl
    | ok _ s' => rfl

lemma plain_alloc_none
    (h : (FrameSource.alloc : Action (Store (Ledger A start)) _).run s = .ok none s') :
    (FrameSource.alloc : Action (Store A) _).run (plain s) = .ok none (plain s') ∧
      s' = record s.source (plain s') := by
  rw [run_alloc] at h
  split at h
  case h_1 heq =>
    cases h
    exact ⟨heq, rfl⟩
  all_goals cases h

lemma plain_alloc_some
    (h : (FrameSource.alloc : Action (Store (Ledger A start)) _).run s = .ok (some f) s') :
    (FrameSource.alloc : Action (Store A) _).run (plain s) = .ok (some f) (plain s') ∧
      s' = record (s.source.give f) (plain s') := by
  rw [run_alloc] at h
  split at h
  case h_2 heq =>
    cases h
    exact ⟨heq, rfl⟩
  all_goals cases h

/-! ## The ledger of a well-behaved source -/

variable [LawfulSource A] {held : Finset Frame}

/-- A store whose source gets a ledger. -/
def opened (s : Store A) : Store (Ledger A (freeFrames s)) where
  memory := s.memory
  source := { source := s.source }
  log := s.log

@[simp] lemma plain_opened (s : Store A) : plain (opened s) = s := rfl

/-- **The ledger balances**: a frame that was handed out and did not come back is one that was free
at first and is not free any more. -/
def Balanced (s : Store (Ledger A start)) : Prop :=
  (s.source.given : Multiset Frame) + (freeFrames (plain s)).val =
    s.source.returned + start.val

lemma Balanced.give {s' : Store A} (h : Balanced s) (hf : f ∈ freeFrames (plain s))
    (hfree : freeFrames s' = (freeFrames (plain s)).erase f) :
    Balanced (record (s.source.give f) s') := by
  change ((f :: s.source.given : List Frame) : Multiset Frame) + (freeFrames s').val = _
  rw [hfree, Finset.erase_val, ← Multiset.cons_coe, Multiset.cons_add, ← Multiset.add_cons,
    Multiset.cons_erase hf]
  exact h

lemma Balanced.takeBack {s' : Store A} (h : Balanced s) (hf : f ∉ freeFrames (plain s))
    (hfree : freeFrames s' = insert f (freeFrames (plain s))) :
    Balanced (record (s.source.takeBack f) s') := by
  change _ + (freeFrames s').val = ((f :: s.source.returned : List Frame) : Multiset Frame) + _
  rw [hfree, Finset.insert_val_of_notMem hf, ← Multiset.cons_coe, Multiset.cons_add,
    Multiset.add_cons]
  exact congrArg (f ::ₘ ·) h

/-- **The ledger is in order**: it balances, and no frame passes it that was not free at first.  The
given frames are those that were handed out through it and are still held. -/
structure InOrder (s : Store (Ledger A start)) (held : Finset Frame) : Prop where
  source : ∃ all, held ⊆ all ∧ Holds (plain s) all
  balanced : Balanced s
  held : held ⊆ start
  free : freeFrames (plain s) ⊆ start
  given {f : Frame} : f ∈ s.source.given → f ∈ start
  returned {f : Frame} : f ∈ s.source.returned → f ∈ start

namespace InOrder

/-- Where nothing passes, only the source needs to be in order. -/
lemma keep {s s' : Store (Ledger A start)} (h : InOrder s held)
    (hsource : ∃ all, held ⊆ all ∧ Holds (plain s') all)
    (hfree : freeFrames (plain s') = freeFrames (plain s))
    (hgiven : s'.source.given = s.source.given)
    (hreturned : s'.source.returned = s.source.returned) : InOrder s' held where
  source := hsource
  balanced := by
    rw [Balanced, hfree, hgiven, hreturned]
    exact h.balanced
  held := h.held
  free := hfree ▸ h.free
  given := hgiven ▸ h.given
  returned := hreturned ▸ h.returned

/-- A free frame goes out. -/
lemma give {s' : Store A} (h : InOrder s held) (hf : f ∈ freeFrames (plain s))
    (hsource : ∃ all, insert f held ⊆ all ∧ Holds s' all)
    (hfree : freeFrames s' = (freeFrames (plain s)).erase f) :
    InOrder (record (s.source.give f) s') (insert f held) where
  source := hsource
  balanced := h.balanced.give hf hfree
  held := Finset.insert_subset (h.free hf) h.held
  free := by
    rw [plain_record, hfree]
    exact (Finset.erase_subset _ _).trans h.free
  given {g} hg := by
    rcases List.mem_cons.mp hg with rfl | hg
    · exact h.free hf
    · exact h.given hg
  returned := h.returned

/-- A frame that is held comes back. -/
lemma takeBack {s' : Store A} (h : InOrder s held) (hf : f ∈ held)
    (hsource : ∃ all, held.erase f ⊆ all ∧ Holds s' all) (hnot : f ∉ freeFrames (plain s))
    (hfree : freeFrames s' = insert f (freeFrames (plain s))) :
    InOrder (record (s.source.takeBack f) s') (held.erase f) where
  source := hsource
  balanced := h.balanced.takeBack hnot hfree
  held := (Finset.erase_subset _ _).trans h.held
  free := by
    rw [plain_record, hfree]
    exact Finset.insert_subset (h.held hf) h.free
  given := h.given
  returned {g} hg := by
    rcases List.mem_cons.mp hg with rfl | hg
    · exact h.held hf
    · exact h.returned hg

end InOrder

/-- **The ledger of a well-behaved source is well-behaved.** -/
instance instLawfulSource : LawfulSource (Ledger A start) where
  freeFrames s := freeFrames (plain s)
  Books l := Books l.source
  -- The client may hold more frames of the source than came through the ledger.
  Holds := InOrder
  number_lt h hf := by
    obtain ⟨all, -, hall⟩ := h.source
    exact LawfulSource.number_lt hall hf
  shown h hf := by
    obtain ⟨all, -, hall⟩ := h.source
    have hshown := LawfulSource.shown hall hf
    exact hshown
  notBooks h hf := by
    obtain ⟨all, -, hall⟩ := h.source
    exact LawfulSource.notBooks hall hf
  notFree h hf := by
    obtain ⟨all, hsub, hall⟩ := h.source
    exact LawfulSource.notFree hall (hsub hf)
  congr {s s' held} h hsource hagree := by
    obtain ⟨all, hsub, hall⟩ := h.source
    have hplain : (plain s').source = (plain s).source := congrArg Ledger.source hsource
    obtain ⟨hall', hfree⟩ := LawfulSource.congr hall hplain hagree
    exact ⟨h.keep ⟨all, hsub, hall'⟩ hfree (by rw [hsource]) (by rw [hsource]), hfree⟩
  alloc_returns {s held} h := by
    obtain ⟨all, -, hall⟩ := h.source
    obtain ⟨r, s', hrun⟩ := LawfulSource.alloc_returns hall
    rw [run_alloc, hrun]
    cases r with
    | none => exact ⟨_, _, rfl⟩
    | some f => exact ⟨_, _, rfl⟩
  alloc_none {s s' held} h hrun := by
    obtain ⟨all, hsub, hall⟩ := h.source
    obtain ⟨hplain, hs'⟩ := plain_alloc_none hrun
    obtain ⟨hall', hfree, hbooks, hagree⟩ := LawfulSource.alloc_none hall hplain
    refine ⟨h.keep ⟨all, hsub, hall'⟩ hfree ?_ ?_, hfree, hbooks, hagree⟩
    · rw [hs']
      rfl
    · rw [hs']
      rfl
  alloc_some {s s' held f} h hrun := by
    obtain ⟨all, hsub, hall⟩ := h.source
    obtain ⟨hplain, hs'⟩ := plain_alloc_some hrun
    obtain ⟨hf, hall', hfree, hbooks, hagree⟩ := LawfulSource.alloc_some hall hplain
    refine ⟨hf, ?_, hfree, hbooks, hagree⟩
    rw [hs']
    exact h.give hf ⟨_, Finset.insert_subset_insert f hsub, hall'⟩ hfree
  free_returns {s held f} h hf := by
    obtain ⟨all, hsub, hall⟩ := h.source
    obtain ⟨s', hrun, hall', hfree, hbooks, hagree⟩ := LawfulSource.free_returns hall (hsub hf)
    refine ⟨record (s.source.takeBack f) s', ?_, ?_, hfree, hbooks, hagree⟩
    · rw [run_free, hrun]
    · exact h.takeBack hf ⟨_, Finset.erase_subset_erase f hsub, hall'⟩
        (LawfulSource.notFree hall (hsub hf)) hfree

lemma inOrder (h : Holds s held) : InOrder s held := h

/-- What was handed out and did not come back are the frames that were free at first and are not any
more. -/
lemma InOrder.given_eq (h : InOrder s held) : (s.source.given : Multiset Frame) =
    s.source.returned + (start \ freeFrames s).val := by
  have hsub : freeFrames s ⊆ start := h.free
  refine add_right_cancel (b := (freeFrames s).val) (h.balanced.trans ?_)
  rw [add_assoc, Finset.sdiff_val, Multiset.sub_add_cancel (Finset.val_le_iff.mpr hsub)]

lemma holds_opened {s : Store A} (h : Holds s held) : Holds (opened s) ∅ := by
  refine ⟨⟨held, Finset.empty_subset held, h⟩, ?_, Finset.empty_subset _, subset_rfl, ?_, ?_⟩
  · rw [Balanced, plain_opened]
    rfl
  · exact fun hf => by cases hf
  · exact fun hf => by cases hf

end Ledger

end KernelMemory
