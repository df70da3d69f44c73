import KernelMemory.Proofs.Space.Orderly
import KernelMemory.Proofs.Space.Solitary

/-!
# The tables of an address space form a tree

Where all links are made by the calls on an address space, the kernel owns every table below the
root. The tables are a tree then, and the counts beside the links are the numbers of present
entries.

* `Space.Tree` — the tables below a root are a tree of owned tables with the right counts, and none
  of them is free.
* **`Space.tree_run`** — so it is in every state that a run of calls on a new address space reaches.
-/

namespace KernelMemory.Space

variable {A : Type} [FrameSource A] [LawfulSource A]

/-- **The tables below a root form a tree** of owned tables that are counted right. -/
structure Tree (s : Store A) (root : Frame) : Prop where
  /-- Every present entry above the lowest level is a link that owns its table and counts the
  present entries of the table. -/
  link {h : Nat} {x : Slot} : s.memory.Reaches root (h + 1) x.table →
    (s.memory.entry x).present = true → (s.memory.entry x).isTable = true ∧
      (s.memory.entry x).owned = true ∧ (s.memory.entry x).liveChildren.val =
        (PageTable.ofWords (s.memory.words (s.memory.entry x).frame)).presentCount
  /-- No table is linked from two slots. -/
  once {h k : Nat} {x y : Slot} : s.memory.Reaches root (h + 1) x.table →
    s.memory.Reaches root (k + 1) y.table → (s.memory.entry x).present = true →
    (s.memory.entry y).present = true → (s.memory.entry y).frame = (s.memory.entry x).frame → y = x
  /-- No frame serves as tables of two heights. -/
  height {h k : Nat} {t : Frame} : s.memory.Reaches root h t → s.memory.Reaches root k t → h = k
  /-- No slot links the root. -/
  notRoot {h : Nat} {x : Slot} : s.memory.Reaches root (h + 1) x.table →
    (s.memory.entry x).present = true → (s.memory.entry x).frame ≠ root
  /-- Every present entry at the lowest level is a page, with nothing of the kernel's own. -/
  page {x : Slot} : s.memory.Reaches root 0 x.table →
    (s.memory.entry x).present = true → (s.memory.entry x).IsPlain
  /-- Every other entry is zero. -/
  unused {h : Nat} {x : Slot} : s.memory.Reaches root h x.table →
    (s.memory.entry x).present = false → s.memory.word x = 0
  /-- No table is free. -/
  notFree {h : Nat} {t : Frame} : s.memory.Reaches root h t → t ∉ freeFrames s

variable {C : Chart} {s : Store A} {root : Frame}

/-- **Tables with a sound chart are a tree**, if the kernel wrote all entries and no root lends its
tables. -/
theorem tree_of_sound (hs : C.Sound s) (hroot : C.IsRoot root) (htidy : C.tidy)
    (hlending : ¬ C.lending) : Tree s root := by
  have hfit := hs.describes.fits
  have ho := orderly_of_sound hs hroot hlending
  -- The kernel writes nothing but links to tables that it owns.
  have howns : ∀ {h x}, s.memory.Reaches root (h + 1) x.table →
      (s.memory.entry x).present = true → Owns s.memory root h x := by
    intro h x hr hpresent
    obtain ⟨htable, howned⟩ := hfit.inner (s := x) htidy (hfit.height_of_reaches hroot hr)
      (by simpa using hpresent)
    have howned := howned.resolve_right fun hlends => hlending hlends.1
    exact ⟨hr, by simpa using htable, by simpa using howned⟩
  constructor
  case link =>
    intro h x hr hpresent
    have hx := howns hr hpresent
    exact ⟨hx.isTable, hx.owned, ho.counted hx⟩
  case once =>
    intro h k x y hr hr' hpresent hpresent' hframe
    exact ho.sole (howns hr hpresent) hr' (howns hr' hpresent').isTable hframe
  case height => exact ho.height
  case notRoot =>
    intro h x hr hpresent heq
    exact hfit.not_isRoot ((howns hr hpresent).links hfit hroot).1 (heq ▸ hroot)
  case page =>
    intro x hr hpresent
    have hplain := hfit.leaf (s := x) htidy (hfit.height_of_reaches hroot hr)
      (by simpa using hpresent)
    rwa [Memory.outline_apply, Entry.outline_of_not_owned (by simpa using hplain.owned)] at hplain
  case unused => exact ho.unused
  case notFree => exact ho.notFree

open KernelMemory.Action

/-- **The tables of an address space form a tree**, with the right counts and none of them free, in
every state that is reached by making an address space and calls on it, whatever the calls are and
however they end. -/
theorem tree_run {held : Finset Frame} (hheld : Holds s held) (calls : List Call) :
    ∃ created s₀, AddressSpace.create.run s = .ok created s₀ ∧ ∀ space, created = .ok space →
      ∃ events s', (runCalls space calls).run s₀ = .ok events s' ∧
        events.map Event.call = calls ∧ Tree s' space.root := by
  obtain ⟨created, s₀, hcreate, hspace⟩ := (AddressSpace.create_sound False True hheld).returns
  refine ⟨created, s₀, hcreate, fun space hcreated => ?_⟩
  obtain ⟨hs, -⟩ := hspace space hcreated
  obtain ⟨events, s', hrun, hcalls, C', hkin, hs'⟩ :=
    (run_keeps hs (Chart.isRoot_single.mpr rfl) id calls).returns
  refine ⟨events, s', hrun, hcalls, tree_of_sound hs' ?_ ?_ ?_⟩
  · exact (hkin.isRoot _).mpr (Chart.isRoot_single.mpr rfl)
  · exact hkin.tidy ▸ trivial
  · exact hkin.lending ▸ id

/-- The tree of three pages, two of which have the same tables. -/
theorem tree_run_sample :
    ∃ s₀ s', AddressSpace.create.run (Pool.sample 7) = .ok (.ok ⟨.ofNumber 1⟩) s₀ ∧
      (runCalls ⟨.ofNumber 1⟩ [.map ⟨0x1000⟩ ⟨0x5000⟩ ⟨2⟩, .map ⟨0x200000⟩ ⟨0x6000⟩ ⟨2⟩,
          .map ⟨0x2000⟩ ⟨0x7000⟩ ⟨2⟩]).run s₀ =
        .ok [.map ⟨0x1000⟩ ⟨0x5000⟩ ⟨2⟩ (.ok ()), .map ⟨0x200000⟩ ⟨0x6000⟩ ⟨2⟩ (.ok ()),
          .map ⟨0x2000⟩ ⟨0x7000⟩ ⟨2⟩ (.ok ())] s' ∧
      Tree s' (.ofNumber 1) := by
  obtain ⟨s₀, s', hcreate, hrun, -⟩ := run_maps_sample
  obtain ⟨created, s₁, hcreate', hspace⟩ := tree_run (Pool.holds_sample (le_refl 7))
    [.map ⟨0x1000⟩ ⟨0x5000⟩ ⟨2⟩, .map ⟨0x200000⟩ ⟨0x6000⟩ ⟨2⟩, .map ⟨0x2000⟩ ⟨0x7000⟩ ⟨2⟩]
  rw [hcreate] at hcreate'
  cases hcreate'
  obtain ⟨events, s₂, hrun', -, htree⟩ := hspace _ rfl
  rw [hrun] at hrun'
  cases hrun'
  exact ⟨s₀, s', hcreate, hrun, htree⟩

end KernelMemory.Space
