import KernelMemory.Frames.Pool
import KernelMemory.Proofs.Frames.Lawful
import Mathlib.Data.Finset.Card

/-!
# The pool is well-behaved

A pool keeps its books in itself and none in memory.  They are in order if no frame is in the stack
twice, every frame in it or held can be named and used, no frame that is held is in it, and the
number of outstanding frames covers those that are held.

* **`Pool.instLawfulSource`**, **`Pool.instRestoringSource`** — the laws.
* `Pool.holds_of_nodup`, `Pool.holds_ofRange`, `Pool.holds_ofFrames` — a pool over frames that can
  be named and used starts in order.
-/

namespace KernelMemory.Pool

/-- The books of a pool are in order. -/
structure InOrder (s : Store Pool) (held : Finset Frame) : Prop where
  /-- No frame is in the stack twice. -/
  nodup : s.source.free.Nodup
  /-- An entry can name every frame that is in the stack or held. -/
  number_lt : ∀ f, f ∈ s.source.free ∨ f ∈ held → f.number < 2 ^ 40
  /-- Every frame that is in the stack or held can be used. -/
  shown : ∀ f, f ∈ s.source.free ∨ f ∈ held → s.memory.Shows f
  /-- No frame that is held is in the stack. -/
  notFree : ∀ f ∈ held, f ∉ s.source.free
  /-- The frames that are held are outstanding. -/
  outstanding : held.card ≤ s.source.outstanding

variable {s s' : Store Pool} {held : Finset Frame} {f : Frame}

/-- A pool looks at nothing in memory but at which frames are shown. -/
lemma InOrder.congr (h : InOrder s held) (hsource : s'.source = s.source)
    (hwindow : s'.memory.window = s.memory.window) : InOrder s' held where
  nodup := hsource ▸ h.nodup
  number_lt := hsource ▸ h.number_lt
  shown f hf := (h.shown f (hsource ▸ hf)).of_window hwindow
  notFree f hf := hsource ▸ h.notFree f hf
  outstanding := hsource ▸ h.outstanding

/-! ## Handing frames out -/

lemma run_alloc : (FrameSource.alloc : Action (Store Pool) _).run s =
    .ok s.source.pop.1 { s with source := s.source.pop.2 } := rfl

lemma run_alloc_cons {rest : List Frame} (hfree : s.source.free = f :: rest) :
    (FrameSource.alloc : Action (Store Pool) _).run s = .ok (some f)
      { s with source := { free := rest, outstanding := s.source.outstanding + 1 } } := by
  rw [run_alloc, pop, hfree]

/-- A request is refused where the stack is empty, and changes nothing. -/
lemma eq_of_alloc_none
    (hrun : (FrameSource.alloc : Action (Store Pool) _).run s = .ok none s') : s' = s := by
  rw [run_alloc, pop] at hrun
  split at hrun
  · cases hrun
    rfl
  · cases hrun

/-- A frame that is handed out was on top of the stack. -/
lemma free_eq_of_alloc_some
    (hrun : (FrameSource.alloc : Action (Store Pool) _).run s = .ok (some f) s') :
    ∃ rest, s.source.free = f :: rest ∧
      s' = { s with source := { free := rest, outstanding := s.source.outstanding + 1 } } := by
  rw [run_alloc, pop] at hrun
  split at hrun
  · cases hrun
  · rename_i hfree
    cases hrun
    exact ⟨_, hfree, rfl⟩

/-- The books are in order once the topmost frame is held. -/
lemma InOrder.pop {rest : List Frame} (h : InOrder s held) (hfree : s.source.free = f :: rest) :
    InOrder { s with source := { free := rest, outstanding := s.source.outstanding + 1 } }
      (insert f held) := by
  have hsub : ∀ {g}, g ∈ rest → g ∈ s.source.free := fun hg => hfree ▸ List.mem_cons_of_mem f hg
  have hold : ∀ {g}, g ∈ rest ∨ g ∈ insert f held → g ∈ s.source.free ∨ g ∈ held := by
    rintro g (hg | hg)
    · exact .inl (hsub hg)
    · rcases Finset.mem_insert.mp hg with rfl | hg
      · exact .inl (hfree ▸ List.mem_cons_self ..)
      · exact .inr hg
  have hnodup := h.nodup
  rw [hfree] at hnodup
  obtain ⟨hf, hrest⟩ := List.nodup_cons.mp hnodup
  refine ⟨hrest, fun g hg => h.number_lt g (hold hg), fun g hg => h.shown g (hold hg), ?_, ?_⟩
  · intro g hg hmem
    rcases Finset.mem_insert.mp hg with rfl | hg
    · exact hf hmem
    · exact h.notFree g hg (hsub hmem)
  · exact (Finset.card_insert_le f held).trans (Nat.succ_le_succ h.outstanding)

/-! ## Taking frames back -/

/-- The stack with a frame that came back. -/
def pushed (p : Pool) (f : Frame) : Pool where
  free := f :: p.free
  outstanding := p.outstanding - 1

/-- A frame that is held can be given back. -/
lemma run_free (h : InOrder s held) (hf : f ∈ held) :
    (FrameSource.free f : Action (Store Pool) _).run s =
      .ok () { s with source := s.source.pushed f } := by
  have hpos : 1 ≤ s.source.outstanding := le_trans (Finset.card_pos.mpr ⟨f, hf⟩) h.outstanding
  have hpush : s.source.push f = .ok (s.source.pushed f) := by
    rw [push, if_neg (h.notFree f hf), Checked.sub, if_pos hpos]
    rfl
  simp only [FrameSource.free, EStateM.run, hpush]

/-- A frame that was taken back is on top of the stack. -/
lemma free_eq_of_free (hrun : (FrameSource.free f : Action (Store Pool) _).run s = .ok () s') :
    s'.source.free = f :: s.source.free := by
  cases hpush : s.source.push f with
  | error p =>
      simp only [FrameSource.free, EStateM.run, hpush] at hrun
      cases hrun
  | ok pool =>
      simp only [FrameSource.free, EStateM.run, hpush] at hrun
      cases hrun
      rw [push] at hpush
      split at hpush
      · cases hpush
      · obtain ⟨_, -, hpool⟩ := Checked.bind_eq_ok.mp hpush
        cases hpool
        rfl

/-- The books are in order once a frame has come back. -/
lemma InOrder.push (h : InOrder s held) (hf : f ∈ held) :
    InOrder { s with source := s.source.pushed f } (held.erase f) := by
  have hold : ∀ {g}, g ∈ f :: s.source.free ∨ g ∈ held.erase f → g ∈ s.source.free ∨ g ∈ held := by
    rintro g (hg | hg)
    · rcases List.mem_cons.mp hg with rfl | hg
      · exact .inr hf
      · exact .inl hg
    · exact .inr (Finset.mem_of_mem_erase hg)
  refine ⟨List.nodup_cons.mpr ⟨h.notFree f hf, h.nodup⟩, fun g hg => h.number_lt g (hold hg),
    fun g hg => h.shown g (hold hg), ?_, ?_⟩
  · intro g hg hmem
    obtain ⟨hne, hg⟩ := Finset.mem_erase.mp hg
    rcases List.mem_cons.mp hmem with rfl | hmem
    · exact hne rfl
    · exact h.notFree g hg hmem
  · rw [Finset.card_erase_of_mem hf]
    exact Nat.sub_le_sub_right h.outstanding 1

/-! ## The laws -/

/-- **A pool is a well-behaved source of frames.** -/
instance instLawfulSource : LawfulSource Pool where
  freeFrames s := s.source.free.toFinset
  Books _ _ := False
  Holds := InOrder
  number_lt h hf := h.number_lt _ (.inl (List.mem_toFinset.mp hf))
  shown h hf := h.shown _ (.inl (List.mem_toFinset.mp hf))
  notBooks _ _ := id
  notFree h hf hfree := h.notFree _ hf (List.mem_toFinset.mp hfree)
  congr h hsource hagree := ⟨h.congr hsource hagree.window, by rw [hsource]⟩
  alloc_returns _ := ⟨_, _, run_alloc⟩
  alloc_none h hrun := by
    obtain rfl := eq_of_alloc_none hrun
    exact ⟨h, rfl, rfl, .refl _⟩
  alloc_some h hrun := by
    obtain ⟨rest, hfree, rfl⟩ := free_eq_of_alloc_some hrun
    have hnodup := h.nodup
    rw [hfree] at hnodup
    refine ⟨by simp [hfree], h.pop hfree, ?_, rfl, .refl _⟩
    rw [hfree, List.toFinset_cons, Finset.erase_insert]
    simpa using (List.nodup_cons.mp hnodup).1
  free_returns h hf := ⟨_, run_free h hf, h.push hf, List.toFinset_cons, rfl, .refl _⟩

/-- **A pool refuses a frame only while none is free.** -/
instance instGenerousSource : GenerousSource Pool where
  free_eq_empty {s s' held} _ hrun := by
    rw [run_alloc, pop] at hrun
    split at hrun
    case h_1 hfree =>
      change s.source.free.toFinset = ∅
      rw [hfree]
      rfl
    case h_2 => cases hrun

/-- **A frame that comes back at once goes where it was.** -/
instance instRestoringSource : RestoringSource Pool where
  alloc_none _ hrun := eq_of_alloc_none hrun ▸ .refl _
  free_alloc {s s₁ s₂ s₃ held f} h halloc hsame hfree := by
    obtain ⟨rest, hstack, rfl⟩ := free_eq_of_alloc_some halloc
    have hheld := (h.pop hstack).congr hsame.source hsame.memory.window
    rw [run_free hheld (Finset.mem_insert_self f held)] at hfree
    cases hfree
    refine ⟨?_, hsame.memory.window, fun _ hbooks => hbooks.elim⟩
    change s₂.source.pushed f = s.source
    rw [hsame.source, pushed]
    change ({ free := f :: rest, outstanding := s.source.outstanding + 1 - 1 } : Pool) = s.source
    rw [← hstack, Nat.add_sub_cancel]

/-- A client can use the frames that it holds. -/
instance instUsableSource : UsableSource Pool where
  usable h hf := ⟨h.number_lt _ (.inr hf), h.shown _ (.inr hf)⟩

/-- **A pool of different frames that can be named and used** is in order while nobody holds one. -/
theorem holds_of_nodup (hnodup : s.source.free.Nodup)
    (husable : ∀ f ∈ s.source.free, f.number < 2 ^ 40 ∧ s.memory.Shows f) : Holds s ∅ := by
  have hfree : ∀ {f}, f ∈ s.source.free ∨ f ∈ (∅ : Finset Frame) → f ∈ s.source.free :=
    fun hor => hor.resolve_right (Finset.notMem_empty _)
  constructor
  case nodup => exact hnodup
  case number_lt => exact fun f hf => (husable f (hfree hf)).1
  case shown => exact fun f hf => (husable f (hfree hf)).2
  case notFree => exact fun f hf => absurd hf (Finset.notMem_empty f)
  case outstanding => exact Nat.zero_le _

/-- **A pool over frames that can be named and used** starts in order. -/
theorem holds_ofRange {first count : Nat} {p : Pool} {m : Memory} {log : Array Log.Event}
    (hp : ofRange first count = .ok p) (hbound : first + count ≤ 2 ^ 40)
    (hshown : ∀ k < count, m.Shows (.ofNumber (first + k))) :
    Holds ({ memory := m, source := p, log } : Store Pool) ∅ := by
  have hfree : p.free = (List.range count).map fun k => .ofNumber (first + k) := by
    rw [ofRange] at hp
    cases hsum : Checked.add first count with
    | error e => rw [hsum] at hp; cases hp
    | ok n => rw [hsum] at hp; cases hp; rfl
  have hnumber : ∀ k < count, (Page.ofNumber (first + k) : Frame).number = first + k := fun k hk =>
    Page.number_ofNumber (by omega)
  refine holds_of_nodup ?_ fun f hf => ?_
  · change p.free.Nodup
    rw [hfree]
    refine List.Nodup.map_on ?_ List.nodup_range
    intro j hj k hk heq
    have := congrArg Page.number heq
    rw [hnumber j (List.mem_range.mp hj), hnumber k (List.mem_range.mp hk)] at this
    omega
  · have hf : f ∈ p.free := hf
    rw [hfree] at hf
    obtain ⟨k, hk, rfl⟩ := List.mem_map.mp hf
    have hk := List.mem_range.mp hk
    exact ⟨by rw [hnumber k hk]; omega, hshown k hk⟩

/-- **A pool over frames of a memory of its own** starts in order. -/
theorem holds_ofFrames {frames first count : Nat} {m : Memory} {p : Pool} {log : Array Log.Event}
    (hm : Memory.ofFrames frames = .ok m) (hp : ofRange first count = .ok p)
    (hle : first + count ≤ frames) (hbound : frames ≤ 2 ^ 40) :
    Holds ({ memory := m, source := p, log } : Store Pool) ∅ := by
  have hwindow : m.window.frames? = some frames := by
    rw [Memory.ofFrames] at hm
    split at hm
    · cases hm
    · cases hmul : Checked.mul frames pageSize with
      | error e => rw [hmul] at hm; cases hm
      | ok n => rw [hmul] at hm; cases hm; rfl
  refine holds_ofRange hp (hle.trans hbound) fun k hk => Memory.shows_of_lt hwindow ?_
  rw [Page.number_ofNumber (by omega)]
  omega

/-- A memory of eight frames, of which some from the second one on are in the pool. -/
def sample (count : Nat) : Store Pool where
  memory := { window := { offset := 4096, frames? := some 8 } }
  source := { free := (List.range count).map fun k => .ofNumber (1 + k) }

theorem holds_sample {count : Nat} (hcount : count ≤ 7) : Holds (sample count) ∅ := by
  have hm : Memory.ofFrames 8 = .ok (sample count).memory := rfl
  have hp : ofRange 1 count = .ok (sample count).source := by
    rw [ofRange, Checked.add, if_pos (by omega)]
    rfl
  exact holds_ofFrames hm hp (by omega) (by decide)

end KernelMemory.Pool
