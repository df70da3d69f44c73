import KernelMemory.Proofs.Frames.Trade
import KernelMemory.Proofs.Heap.Spans
import Mathlib.Data.Finset.Union

/-!
# The frames of a heap

Over a well-behaved source, a heap is a client that keeps all frames it is given but one that it has
no span for.  Its calls always return: the addresses of its spans do not overflow, and the window
shows them.

* `Heap.frames` — the frames of the spans.
* `Heap.Stands` — a heap that holds its frames and can use them.
* **`Heap.start_trade`**, **`Heap.alloc_trade`** — a call trades frames with the source and returns.
-/

namespace KernelMemory

/-! ## Frames -/

namespace Span

variable {sp : Span} {f : Frame}

/-- The frames of a span. -/
def frameSet (sp : Span) : Finset Frame :=
  (Finset.range sp.frames).image fun k => .ofNumber (sp.first.number + k)

lemma Sound.mem_frameSet (h : sp.Sound) : f ∈ sp.frameSet ↔ sp.Covers f := by
  have hfits := h.fits
  simp only [frameSet, Finset.mem_image, Finset.mem_range, Covers]
  constructor
  · rintro ⟨k, hk, rfl⟩
    rw [Page.number_ofNumber (by omega)]
    omega
  · rintro ⟨hle, hlt⟩
    refine ⟨f.number - sp.first.number, by omega, ?_⟩
    rw [Nat.add_sub_cancel' hle, Page.ofNumber_number]

end Span

namespace Heap

open KernelMemory.Action LawfulSource

variable {h : Heap} {f : Frame} {owned held : Finset Frame} {size : Nat}

/-- The frames of the spans of a heap. -/
def frames (h : Heap) : Finset Frame :=
  h.spans.toFinset.biUnion Span.frameSet

/-- They are the frames that the heap holds. -/
lemma Sound.eq_frames (hs : Sound h owned) : owned = h.frames := by
  ext f
  simp only [hs.mem_owned, frames, Finset.mem_biUnion, List.mem_toFinset]
  exact exists_congr fun sp => and_congr_right fun hsp => ((hs.span sp hsp).mem_frameSet).symm

lemma Sound.frames (hs : Sound h owned) : Sound h h.frames :=
  hs.eq_frames ▸ hs

/-! ## Heaps that can use their frames -/

variable {A : Type} [FrameSource A] [LawfulSource A] {s s' : Store A}

/-- **A heap that holds its frames**, each of them once. -/
structure Stands (h : Heap) (s : Store A) : Prop where
  sound : Sound h h.frames
  held : ∃ rest, Disjoint h.frames rest ∧ Holds s (h.frames ∪ rest)

namespace Stands

/-- A heap that has traded for the frames of its spans still stands. -/
lemma trade {h' : Heap} (hst : h.Stands s) (htrade : Trade s h.frames s' h'.frames)
    (hsound : Sound h' h'.frames) : h'.Stands s' := by
  obtain ⟨rest, hdisjoint, hheld⟩ := hst.held
  exact ⟨hsound, rest, htrade.holds hdisjoint hheld⟩

variable [UsableSource A]

/-- A frame of the last span can be used. -/
lemma usable (hst : h.Stands s) (hcovers : h.last.Covers f) :
    f.number < 2 ^ 40 ∧ s.memory.Shows f := by
  obtain ⟨rest, -, hheld⟩ := hst.held
  have hf := hst.sound.mem_owned.mpr ⟨_, mem_spans.mpr (.inl rfl), hcovers⟩
  exact UsableSource.usable hheld (Finset.mem_union_left rest hf)

/-- The last span ends where frames still have numbers. -/
lemma stop_le (hst : h.Stands s) : h.last.first.number + h.last.frames ≤ 2 ^ 40 := by
  have hspan := hst.sound.span h.last (mem_spans.mpr (.inl rfl))
  have hpos := hspan.pos
  have hfits := hspan.fits
  have hnumber : (Page.ofNumber (h.last.first.number + (h.last.frames - 1)) : Frame).number =
      h.last.first.number + (h.last.frames - 1) := Page.number_ofNumber (by omega)
  have hcovers : h.last.Covers (.ofNumber (h.last.first.number + (h.last.frames - 1))) := by
    rw [Span.Covers, hnumber]
    omega
  have hlt := (hst.usable hcovers).1
  rw [hnumber] at hlt
  omega

/-- A frame can be added, or there is no span for it. -/
lemma addFrame?_returns (hst : h.Stands s) (f : Frame) : ∃ r, h.addFrame? f = .ok r := by
  have hle := hst.stop_le
  have hstop : h.last.stop = .ok (h.last.base.value.toNat + h.last.length) := by
    refine Checked.add_eq_ok_iff.mpr ⟨?_, rfl⟩
    rw [Span.toNat_base, Span.length]
    simp only [pageSize]
    omega
  have hlonger : Checked.add h.last.length pageSize = .ok (h.last.length + pageSize) := by
    refine Checked.add_eq_ok_iff.mpr ⟨?_, rfl⟩
    rw [Span.length]
    simp only [pageSize]
    omega
  rw [addFrame?, hstop, hlonger]
  simp only [bind, Except.bind]
  split
  · exact ⟨_, rfl⟩
  · split
    · exact ⟨_, rfl⟩
    · exact ⟨_, rfl⟩

/-- The window shows what is left of the last span. -/
lemma pointer_returns (hst : h.Stands s) (hroom : 0 < h.last.remaining) :
    ∃ p, s.memory.window.pointer h.next = .ok p := by
  have hnext := hst.sound.toNat_next hroom
  rw [Span.remaining, Span.length] at hroom
  rw [Span.toNat_base] at hnext
  have hnumber : h.next.page.number = h.next.value.toNat / pageSize := rfl
  have hcovers : h.last.Covers h.next.page := by
    rw [Span.Covers, hnumber, hnext]
    simp only [pageSize] at hroom ⊢
    omega
  have hshown := (hst.usable hcovers).2
  rw [Memory.Shows, Memory.touch, Window.pointer] at hshown
  rw [Window.pointer]
  cases hframes : s.memory.window.frames? with
  | none => exact ⟨_, rfl⟩
  | some n =>
      rw [hframes] at hshown
      have hlt : h.next.page.base.value.toNat < n * pageSize := by
        by_contra hge
        simp only [if_neg hge] at hshown
        cases hshown
      -- What is shown of a frame is shown to its end.
      have hlt' : h.next.value.toNat < n * pageSize := by
        rw [Page.toNat_base, hnumber] at hlt
        simp only [pageSize] at hlt ⊢
        omega
      exact ⟨_, if_pos hlt'⟩

/-- Handing out the next bytes returns. -/
lemma bump_returns {n : Nat} (hst : h.Stands s) (hpos : 0 < n) (hroom : n ≤ h.last.remaining) :
    Ensures (h.bump n) noPanic s fun _ _ => True := by
  have hle := hst.stop_le
  obtain ⟨p, hpointer⟩ := hst.pointer_returns (hpos.trans_le hroom)
  have hbase := Span.toNat_base h.last
  rw [Span.remaining, Span.length] at hroom
  simp only [pageSize] at hbase hroom
  have haddress : Checked.add h.last.base.value.toNat h.last.used =
      .ok (h.last.base.value.toNat + h.last.used) := Checked.add_eq_ok_iff.mpr ⟨by omega, rfl⟩
  have hused : Checked.add h.last.used n = .ok (h.last.used + n) :=
    Checked.add_eq_ok_iff.mpr ⟨by omega, rfl⟩
  refine .bind_run (run_ofExcept haddress) (.bind_run (run_ofExcept hused) ?_)
  refine .bind_run Store.run_note (.bind_run (Store.run_lookup hpointer) ?_)
  split
  · exact .pure trivial
  · exact .pure trivial

end Stands

/-! ## Calls -/

/-- **A new heap** trades for its first frame, if there is one. -/
theorem start_trade (hheld : Holds s held) :
    Ensures start noPanic s fun r s' => match r with
      | .error _ => Trade s ∅ s' ∅
      | .ok h => Trade s ∅ s' h.frames ∧ Sound h h.frames := by
  obtain ⟨f?, s₁, halloc⟩ := alloc_returns hheld
  refine .bind_run halloc ?_
  cases f? with
  | none => exact .pure (.refused hheld halloc ∅)
  | some f =>
      obtain ⟨-, hheld₁, -⟩ := alloc_some hheld halloc
      have hsound := sound_start f
      have hnoted : Trade s₁ {f} { s₁ with log := s₁.log.push (.heapStarted f) } {f} :=
        .of_eq hheld₁ (by rfl) (by rfl) _
      have htrade := (Trade.taken hheld halloc ∅).trans hnoted
      rw [hsound.eq_frames] at htrade
      exact .bind_run Store.run_note (.pure ⟨htrade, hsound.frames⟩)

/-- There is one while a frame is free. -/
lemma exists_start [GenerousSource A] (hheld : Holds s held) (hfree : 0 < (freeFrames s).card) :
    ∃ f s', start.run s = .ok (.ok { last := { first := f } }) s' ∧ Holds s' (insert f held) ∧
      (freeFrames s').card + 1 = (freeFrames s).card := by
  obtain ⟨f, s₁, halloc, hheld₁, hcard⟩ := GenerousSource.exists_take hheld hfree
  let noted : Store A := { s₁ with log := s₁.log.push (.heapStarted f) }
  obtain ⟨hheld', hfree'⟩ : Holds noted (insert f held) ∧ freeFrames noted = freeFrames s₁ :=
    congr hheld₁ rfl (.refl _)
  exact ⟨f, noted, (run_bind halloc).trans rfl, hheld', hfree' ▸ hcard⟩

variable [UsableSource A]

/-- **Growing** trades for the frames that are added. -/
theorem grow_trade (hst : h.Stands s) :
    Ensures (h.grow size) noPanic s fun r s' => Trade s h.frames s' r.1.frames ∧ r.1.Stands s' ∧
      (r.2 = .ok () → size ≤ r.1.last.remaining) := by
  induction h using Heap.grow.induct size generalizing s with
  | case1 h hfits =>
      rw [grow, dif_pos hfits]
      exact .pure ⟨.refl s _, hst, fun _ => hfits⟩
  | case2 h hfits ih =>
      obtain ⟨rest, hdisjoint, hheld⟩ := hst.held
      rw [grow, dif_neg hfits]
      obtain ⟨f?, s₁, halloc⟩ := alloc_returns hheld
      refine .bind_run halloc ?_
      cases f? with
      | none =>
          have htrade := Trade.refused hheld halloc h.frames
          exact .pure ⟨htrade, hst.trade htrade hst.sound, fun hok => by cases hok⟩
      | some f =>
          have htrade := Trade.taken hheld halloc h.frames
          obtain ⟨-, hheld₁⟩ := htrade.holds hdisjoint hheld
          have hnew : f ∉ h.frames := fun hin =>
            notFree hheld (Finset.mem_union_left rest hin) (alloc_some hheld halloc).1
          dsimp only
          split
          · next p hadd =>
            obtain ⟨r, hr⟩ := hst.addFrame?_returns f
            rw [hr] at hadd
            cases hadd
          · obtain ⟨s₂, hfree, -⟩ := free_returns hheld₁
              (Finset.mem_union_left rest (Finset.mem_insert_self f _))
            have hback := Trade.given (Finset.mem_insert_self f _) hheld₁ hfree
            rw [Finset.erase_insert hnew] at hback
            have hboth := htrade.trans hback
            exact .bind_run hfree
              (.pure ⟨hboth, hst.trade hboth hst.sound, fun hok => by cases hok⟩)
          · next larger hadd =>
            have hsound := hst.sound.addFrame? hnew hadd
            have hrest : ∀ s₂ : Store A, s₂.source = s₁.source → s₂.memory = s₁.memory →
                Ensures (larger.grow size) noPanic s₂ fun r s' => Trade s h.frames s' r.1.frames ∧
                  r.1.Stands s' ∧ (r.2 = .ok () → size ≤ r.1.last.remaining) := by
              intro s₂ hsource hmemory
              have hgrown := htrade.trans (.of_eq hheld₁ hsource hmemory _)
              rw [hsound.eq_frames] at hgrown
              refine (ih f larger hadd (hst.trade hgrown hsound.frames)).mono ?_
              rintro r s' ⟨htrade', hend⟩
              exact ⟨hgrown.trans htrade', hend⟩
            split
            · exact .bind_run Store.run_note (hrest _ rfl rfl)
            · exact hrest s₁ rfl rfl

/-- **A call of a heap** returns, and trades for the frames of the spans. -/
theorem alloc_trade (hst : h.Stands s) (size : UInt64) :
    Ensures (h.alloc size) noPanic s fun r s' => Trade s h.frames s' r.1.frames ∧
      Sound r.1 r.1.frames := by
  rw [alloc]
  split
  case isTrue hzero => exact .pure ⟨.refl s _, hst.sound⟩
  case isFalse hzero =>
    have hpos : 0 < size.toNat := Nat.pos_of_ne_zero fun heq => hzero (UInt64.toNat.inj heq)
    cases hround : roundUp? size.toNat with
    | none => exact .pure ⟨.refl s _, hst.sound⟩
    | some n =>
        obtain rfl := rounded_eq_of_roundUp? hround
        refine (grow_trade hst).bind ?_
        rintro ⟨h', r⟩ s₁ ⟨htrade, hst₁, hroom⟩
        rcases r with e | ⟨⟩
        · exact .pure ⟨htrade, hst₁.sound⟩
        · have hroom := hroom rfl
          refine ((hst₁.bump_returns (rounded_pos hpos) hroom).and (bump_ensures hroom)).mono ?_
          rintro r s₂ ⟨-, hsource, hmemory, hcarved⟩
          obtain ⟨rest, -, hheld₁⟩ := hst₁.held
          have hsound := hst₁.sound.carve (dvd_rounded size) hcarved.room
          rw [← hcarved.heap] at hsound
          have hend := htrade.trans (.of_eq hheld₁ hsource hmemory _)
          rw [hsound.eq_frames] at hend
          exact ⟨hend, hsound.frames⟩

end Heap

end KernelMemory
