import KernelMemory.Proofs.Frames.Pool
import KernelMemory.Proofs.Space.Orderly
import KernelMemory.Proofs.Space.Room
import KernelMemory.Proofs.Space.Runs

/-!
# Calls that fail

A call that cannot be met may have made tables before it finds out.  It gives back exactly these,
and so leaves no trace: the way back stops at the first table that was there before, whether it
holds entries, is not owned, or is an empty table of the lowest level.

* `Space.Reached` — the states of an address space, among them those in which some links on the way
  are not owned.
* **`Space.failed_call`** — a call that fails leaves all tables and the source of frames as they
  were.
-/

namespace KernelMemory.Space

variable {A : Type} [FrameSource A] [LawfulSource A]

/-- **A state of an address space.**  Tables may come from its own calls, or, linked but not owned,
from elsewhere. -/
inductive Reached (space : AddressSpace) : Store A → Prop
  /-- The address space is new. -/
  | create {s s' : Store A} {held : Finset Frame} : Holds s held →
      AddressSpace.create.run s = .ok (.ok space) s' → Reached space s'
  /-- The root and what it links was found, in order. -/
  | adopt {s : Store A} : Orderly s space.root → Reached space s
  /-- A call was made. -/
  | call {s s' : Store A} {call : Call} {event : Event} : Reached space s →
      (call.run space).run s = .ok event s' → Reached space s'

variable {C : Chart} {s s' : Store A} {root : Frame} {space : AddressSpace}

open KernelMemory.Action

/-- The tables of an address space are in order in all its states. -/
lemma Reached.orderly (hs : Reached space s) : Orderly s space.root := by
  induction hs with
  | create hheld hrun =>
      have hend : Ensures AddressSpace.create noPanic _ _ :=
        AddressSpace.create_sound False True hheld
      exact orderly_of_sound (hend.of_ok hrun space rfl).1 (Chart.isRoot_single.mpr rfl) id
  | adopt ho => exact ho
  | call _ hrun ho =>
      obtain ⟨C, hs, hroot, hlending⟩ := orderly_iff.mp ho
      obtain ⟨-, ⟨C', hkin, hs'⟩, -⟩ :=
        (call_keeps hs hroot hlending (fun h : False => h.elim)).of_ok hrun
      exact orderly_of_sound hs' ((hkin.isRoot _).mpr hroot) (hkin.lending ▸ hlending)

/-- **The tables of an address space are as they were**: the same can be reached, and every word of
them is the same. -/
structure TablesKept (s s' : Store A) (root : Frame) : Prop where
  words {h : Nat} {t : Frame} : s.memory.Reaches root h t → s'.memory.words t = s.memory.words t
  reaches (h : Nat) (t : Frame) : s'.memory.Reaches root h t ↔ s.memory.Reaches root h t

/-- What is restored is kept. -/
lemma tablesKept_of_restored {exact : Prop} (hs : C.Sound s) (hroot : C.IsRoot root)
    (h : Restored exact s s') : TablesKept s s' root := by
  have hsame := hs.describes.fits.sameTables hs.clean (h.keepsTables hs.describes)
  have hword : ∀ {k t} i, s.memory.Reaches root k t →
      s'.memory.word ⟨t, i⟩ = s.memory.word ⟨t, i⟩ :=
    fun i hr => hsame.word ⟨_, i⟩ ⟨_, hs.describes.fits.height_of_reaches hroot hr⟩
  have hentry : ∀ {k t} i, s.memory.Reaches root k t →
      s'.memory.entry ⟨t, i⟩ = s.memory.entry ⟨t, i⟩ := by
    intro k t i hr
    rw [Memory.entry, Memory.entry, hword i hr]
  have hforth : ∀ {k t}, s.memory.Reaches root k t → s'.memory.Reaches root k t :=
    fun hr => hr.congr fun k t i hr => hentry i hr
  have hback : ∀ {k t}, s'.memory.Reaches root k t → s.memory.Reaches root k t := by
    intro k t hr
    induction hr with
    | root => exact .root
    | @down k t i _ htable ih =>
        rw [hentry i ih] at htable ⊢
        exact .down ih htable
  constructor
  case words =>
    intro k t hr
    refine Vector.ext fun i hi => ?_
    exact hword ⟨i, hi⟩ hr
  case reaches => exact fun k t => ⟨hback, hforth⟩

/-- **Nothing that matters to an address space has changed**: every word of every table is the same,
the same tables can be reached, and the source and its books are the same. -/
structure Untouched (s s' : Store A) (root : Frame) : Prop where
  /-- The words of the tables are the same. -/
  words {h : Nat} {t : Frame} : s.memory.Reaches root h t → s'.memory.words t = s.memory.words t
  /-- The same tables can be reached. -/
  reaches (h : Nat) (t : Frame) : s'.memory.Reaches root h t ↔ s.memory.Reaches root h t
  /-- The source and its books are the same. -/
  books : SameBooks s s'

/-- What is restored is untouched. -/
lemma untouched_of_restored (hs : C.Sound s) (hroot : C.IsRoot root) (h : Restored True s s') :
    Untouched s s' root := by
  obtain ⟨hwords, hreaches⟩ := tablesKept_of_restored hs hroot h
  exact ⟨hwords, hreaches, h.same trivial⟩

/-- **A call that fails changes nothing.**  In every state of an address space every call returns,
and if it fails, it leaves every table that could be reached as it was, word for word, and the
source of frames too. -/
theorem failed_call [RestoringSource A] (hs : Reached space s) (call : Call) :
    ∃ event s', (call.run space).run s = .ok event s' ∧ event.call = call ∧
      (event.failed = true → Untouched s s' space.root) := by
  obtain ⟨C, hsound, hroot, hlending⟩ := orderly_iff.mp hs.orderly
  obtain ⟨event, s', hrun, hcall, -, hrestored⟩ :=
    (call_keeps hsound hroot hlending fun _ : True => ‹RestoringSource A›).returns
  exact ⟨event, s', hrun, hcall,
    fun hfailed => untouched_of_restored hsound hroot (hrestored hfailed)⟩

/-- With frames for a root and two more, two of the three tables for a page are made before the
third cannot be. -/
theorem failed_call_sample :
    ∃ s₀ s', AddressSpace.create.run (Pool.sample 3) = .ok (.ok ⟨.ofNumber 1⟩) s₀ ∧
      s₀.source.free = [.ofNumber 2, .ofNumber 3] ∧
      (Call.run ⟨.ofNumber 1⟩ (.map ⟨0x1000⟩ ⟨0x5000⟩ ⟨2⟩)).run s₀ =
        .ok (.map ⟨0x1000⟩ ⟨0x5000⟩ ⟨2⟩ (.error .outOfMemory)) s' ∧
      Untouched s₀ s' (.ofNumber 1) := by
  have hheld : Holds (Pool.sample 3) ∅ := Pool.holds_sample (by decide)
  obtain ⟨s₀, hcreate, hfree⟩ :
      ∃ s₀, AddressSpace.create.run (Pool.sample 3) = .ok (.ok ⟨.ofNumber 1⟩) s₀ ∧
        s₀.source.free = [.ofNumber 2, .ofNumber 3] := ⟨_, rfl, rfl⟩
  obtain ⟨s', hmap⟩ : ∃ s', (AddressSpace.map ⟨.ofNumber 1⟩ ⟨0x1000⟩ ⟨0x5000⟩ ⟨2⟩).run s₀ =
      .ok (.error .outOfMemory) s' :=
    AddressSpace.run_map_created ⟨2⟩ hheld hcreate (by decide) (by decide)
  have hcall : (Call.run ⟨.ofNumber 1⟩ (.map ⟨0x1000⟩ ⟨0x5000⟩ ⟨2⟩)).run s₀ =
      .ok (.map ⟨0x1000⟩ ⟨0x5000⟩ ⟨2⟩ (.error .outOfMemory)) s' := run_bind hmap
  obtain ⟨event, s'', hrun, -, huntouched⟩ :=
    failed_call (.create hheld hcreate) (.map ⟨0x1000⟩ ⟨0x5000⟩ ⟨2⟩)
  rw [hcall] at hrun
  cases hrun
  exact ⟨s₀, s', hcreate, hfree, hcall, huntouched rfl⟩

end KernelMemory.Space
