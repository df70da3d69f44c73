import KernelMemory.Proofs.Heap.Blocks
import KernelMemory.Proofs.Heap.Growth
import Mathlib.Data.List.Forall2

/-!
# Requests that the heap refuses

A request that is refused leaves the frames that were taken for it with the heap.  It should leave
nothing else behind, and it does, whatever the source, with one exception: the bytes are marked as
handed out before it is seen whether they appear at the null address.  Those that do are refused
like bytes that cannot be found, and are lost.  Only a window that begins at the null address, or
wraps around to it, shows a byte there.

* `Heap.Gained` — the heap after some frames were added, and nothing else.
* `Heap.MeetsNull` — the next byte, once there is room, is seen at the null address.
* `Heap.Answered` — what comes of a request.
* **`Heap.refusals_accounted`** — the requests that are refused hand out nothing exactly if none of
  them meets the null address.
* **`Heap.refusal_loses_bytes`** — the first byte of memory is lost behind a window that begins at
  the null address.
-/

namespace KernelMemory

/-- The same run of frames with as many bytes handed out, perhaps with more frames behind it. -/
structure Span.Longer (sp sp' : Span) : Prop where
  first : sp'.first = sp.first
  frames : sp.frames ≤ sp'.frames
  used : sp'.used = sp.used

lemma Span.Longer.refl (sp : Span) : sp.Longer sp :=
  ⟨rfl, le_rfl, rfl⟩

lemma Span.Longer.trans {sp sp' sp'' : Span} (h : sp.Longer sp') (h' : sp'.Longer sp'') :
    sp.Longer sp'' :=
  ⟨h'.first.trans h.first, h.frames.trans h'.frames, h'.used.trans h.used⟩

/-- A window shows a byte at its address, or not at all. -/
lemma Window.eq_address {window : Window} {pa : PhysAddr} {p : VirtAddr}
    (h : window.pointer pa = .ok p) : p = window.address pa := by
  rw [Window.pointer] at h
  split at h
  · split at h
    · exact (Except.ok.inj h).symm
    · cases h
  · exact (Except.ok.inj h).symm

namespace Heap

/-! ## Frames that are added -/

variable {h h' h'' : Heap} {f : Frame}

/-- **Frames were added, and nothing else**: the spans are still there with as many bytes handed
out, and nothing was handed out of those that are new. -/
def Gained (h h' : Heap) : Prop :=
  ∃ longer added, h'.spans = longer ++ added ∧ List.Forall₂ Span.Longer h.spans longer ∧
    ∀ sp ∈ added, sp.used = 0

lemma longer_refl (l : List Span) : List.Forall₂ Span.Longer l l :=
  List.forall₂_same.mpr fun sp _ => .refl sp

lemma longer_trans {l l' l'' : List Span} (hl : List.Forall₂ Span.Longer l l')
    (hl' : List.Forall₂ Span.Longer l' l'') : List.Forall₂ Span.Longer l l'' := by
  induction hl generalizing l'' with
  | nil => exact hl'
  | cons hsp _ ih =>
      cases hl' with
      | cons hsp' hrest => exact .cons (hsp.trans hsp') (ih hrest)

/-- Spans that became longer have as many bytes handed out. -/
lemma map_used_longer {l l' : List Span} (hl : List.Forall₂ Span.Longer l l') :
    l'.map Span.used = l.map Span.used := by
  induction hl with
  | nil => rfl
  | cons hsp _ ih => rw [List.map_cons, List.map_cons, hsp.used, ih]

lemma Gained.refl (h : Heap) : h.Gained h :=
  ⟨h.spans, [], (List.append_nil _).symm, longer_refl _, fun _ hsp => absurd hsp List.not_mem_nil⟩

lemma Gained.trans (hg : h.Gained h') (hg' : h'.Gained h'') : h.Gained h'' := by
  obtain ⟨longer, added, hspans, hlonger, hadded⟩ := hg
  obtain ⟨longer', added', hspans', hlonger', hadded'⟩ := hg'
  rw [hspans] at hlonger'
  obtain ⟨front, back, rfl, hfront, hback⟩ : ∃ front back, longer' = front ++ back ∧
      List.Forall₂ Span.Longer longer front ∧ List.Forall₂ Span.Longer added back := by
    have hflip := hlonger'.flip
    refine ⟨longer'.take longer.length, longer'.drop longer.length,
      (List.take_append_drop _ _).symm, ?_, ?_⟩
    · exact (List.forall₂_take_append _ _ _ hflip).flip
    · exact (List.forall₂_drop_append _ _ _ hflip).flip
  refine ⟨front, back ++ added', ?_, longer_trans hlonger hfront, ?_⟩
  · rw [hspans', List.append_assoc]
  intro sp hsp
  rcases List.mem_append.mp hsp with hsp | hsp
  · have hused : sp.used ∈ added.map Span.used := map_used_longer hback ▸ List.mem_map_of_mem hsp
    obtain ⟨sp', hsp', hused⟩ := List.mem_map.mp hused
    rw [← hused, hadded sp' hsp']
  · exact hadded' sp hsp

/-- The bytes that were handed out are as many as before. -/
lemma Gained.used (hg : h.Gained h') : h'.used = h.used := by
  obtain ⟨longer, added, hspans, hlonger, hadded⟩ := hg
  have hnone : (added.map Span.used).sum = 0 := by
    refine List.sum_eq_zero fun n hn => ?_
    obtain ⟨sp, hsp, rfl⟩ := List.mem_map.mp hn
    exact hadded sp hsp
  rw [used_eq_sum, hspans, List.map_append, List.sum_append, map_used_longer hlonger, hnone,
    Nat.add_zero, used_eq_sum]

/-- A frame makes the last span longer, or a span of its own. -/
lemma Gained.of_addFrame? (hadd : h.addFrame? f = .ok (some h')) : h.Gained h' := by
  obtain ⟨last, earlier⟩ := h'
  rcases addFrame?_eq_ok hadd with ⟨rfl, rfl⟩ | ⟨-, rfl, rfl⟩
  · refine ⟨_, [], (List.append_nil _).symm, ?_, fun _ hsp => absurd hsp List.not_mem_nil⟩
    rw [spans, spans, List.reverse_cons, List.reverse_cons]
    refine List.rel_append (longer_refl _) (.cons ⟨rfl, Nat.le_succ _, rfl⟩ .nil)
  · refine ⟨h.spans, [{ first := f }], ?_, longer_refl _, ?_⟩
    · rw [spans, spans, List.reverse_cons]
    · intro sp hsp
      obtain rfl := List.mem_singleton.mp hsp
      rfl

/-! ## Requests -/

open KernelMemory.Action

variable {A : Type} [FrameSource A] {s s' : Store A} {n : Nat} {size : UInt64}

/-- **Growing adds frames and nothing else**, whatever the source. -/
theorem grow_gained : Ensures (h.grow n) anyPanic s fun r _ =>
    h.Gained r.1 ∧ (r.2 = .ok () → n ≤ r.1.last.remaining) := by
  induction h using Heap.grow.induct n generalizing s with
  | case1 h hfits =>
      rw [grow, dif_pos hfits]
      exact .pure ⟨.refl h, fun _ => hfits⟩
  | case2 h hfits ih =>
      rw [grow, dif_neg hfits]
      refine ensures_run.bind fun f? s₁ _ => ?_
      cases f? with
      | none => exact .pure ⟨.refl h, fun hok => by cases hok⟩
      | some f =>
          dsimp only
          split
          · exact .throw trivial
          · exact ensures_run.bind fun _ _ _ => .pure ⟨.refl h, fun hok => by cases hok⟩
          · next larger hadd =>
            have hrest : ∀ s₂ : Store A, Ensures (larger.grow n) anyPanic s₂ fun r _ =>
                h.Gained r.1 ∧ (r.2 = .ok () → n ≤ r.1.last.remaining) := fun s₂ =>
              (ih f larger hadd).mono fun _ _ hend =>
                ⟨(Gained.of_addFrame? hadd).trans hend.1, hend.2⟩
            split
            · exact .bind_run Store.run_note (hrest _)
            · exact hrest s₁

/-- **A request meets the null address**: once there is room for it, the next byte is seen there. -/
def MeetsNull (h : Heap) (size : UInt64) (s : Store A) : Prop :=
  size ≠ 0 ∧ rounded size < 2 ^ 64 ∧ ∃ h₁ s₁, (h.grow (rounded size)).run s = .ok (h₁, .ok ()) s₁ ∧
    (s₁.memory.window.address h₁.next).value = 0

/-- **What comes of a request.** -/
inductive Answered (h : Heap) (size : UInt64) (s : Store A) :
    Heap × Except HeapError PhysAddr → Prop
  /-- It is refused, and the frames that were taken stay. -/
  | refused {h₁ : Heap} {e : HeapError} : h.Gained h₁ → ¬ h.MeetsNull size s →
      Answered h size s (h₁, .error e)
  /-- It is refused although the next bytes are marked as handed out. -/
  | lost {h₁ : Heap} : h.Gained h₁ → h.MeetsNull size s →
      Answered h size s (h₁.carve (rounded size), .error .outOfMemory)
  /-- The next bytes are handed out. -/
  | granted {h₁ : Heap} : h.Gained h₁ → ¬ h.MeetsNull size s →
      Answered h size s (h₁.carve (rounded size), .ok h₁.next)

lemma MeetsNull.pos (hm : h.MeetsNull size s) : 0 < rounded size :=
  rounded_pos (Nat.pos_of_ne_zero fun heq => hm.1 (UInt64.toNat.inj heq))

/-- **A request is answered in one of three ways.** -/
theorem alloc_answered (h : Heap) (size : UInt64) (s : Store A) :
    Ensures (h.alloc size) anyPanic s fun r _ => h.Answered size s r := by
  rw [alloc]
  split
  case isTrue hzero => exact .pure (.refused (.refl h) fun hm => hm.1 hzero)
  case isFalse hzero =>
    cases hround : roundUp? size.toNat with
    | none =>
        have hover := roundUp?_eq_none hround
        exact .pure (.refused (.refl h) fun hm => hover.not_gt hm.2.1)
    | some n =>
        have hlt := lt_of_roundUp? hround
        obtain rfl := rounded_eq_of_roundUp? hround
        refine (ensures_run.and grow_gained).bind ?_
        rintro ⟨h₁, r⟩ s₁ ⟨hgrow, hgained, hroom⟩
        rcases r with e | ⟨⟩
        · refine .pure (.refused hgained ?_)
          rintro ⟨_, _, _, _, hgrow', _⟩
          rw [hgrow] at hgrow'
          cases hgrow'
        · refine (bump_ensures (hroom rfl)).mono ?_
          rintro ⟨h₂, answer⟩ s₂ ⟨-, -, -, heap, p, hp, hanswer⟩
          obtain rfl := Window.eq_address hp
          dsimp only at heap hanswer
          subst heap hanswer
          split
          case isTrue hnull => exact .lost hgained ⟨hzero, hlt, h₁, s₁, hgrow, hnull⟩
          case isFalse hnull =>
            refine .granted hgained ?_
            rintro ⟨_, _, _, _, hgrow', hnull'⟩
            rw [hgrow] at hgrow'
            cases hgrow'
            exact hnull hnull'

/-- Bytes that are marked as handed out are more than frames that are added. -/
lemma not_gained_carve {h₁ : Heap} (hg : h.Gained h₁) (hn : 0 < n) : ¬ h.Gained (h₁.carve n) := by
  intro hg'
  have hused := hg'.used
  rw [used_carve, hg.used] at hused
  omega

/-! ## Runs -/

/-- A request that was answered: the heap and the store it was made on, the size and the answer. -/
structure Request (A : Type) where
  heap : Heap
  store : Store A
  size : UInt64
  answer : Except HeapError PhysAddr

/-- The request lost the bytes that it asked for. -/
def Request.Lost (q : Request A) : Prop :=
  (∃ e, q.answer = .error e) ∧ q.heap.MeetsNull q.size q.store

/-- The blocks that were handed out. -/
def handedOut (requests : List (Request A)) : List Block :=
  requests.flatMap fun q => granted q.size q.answer

/-- **A heap in use**, the store, and the requests that it has answered, oldest first. -/
inductive Run : Heap → Store A → List (Request A) → Prop
  | started {h : Heap} {s s' : Store A} : start.run s = .ok (.ok h) s' → Run h s' []
  | asked {h h' : Heap} {s s' : Store A} {requests : List (Request A)} {size : UInt64}
      {answer : Except HeapError PhysAddr} : Run h s requests →
      (h.alloc size).run s = .ok (h', answer) s' → Run h' s' (requests ++ [⟨h, s, size, answer⟩])
  /-- Anything may happen to the store; bytes that are given back are only taken note of there. -/
  | elsewhere {h : Heap} {s s' : Store A} {requests : List (Request A)} : Run h s requests →
      Run h s' requests

/-- What is handed out over a run, and what is lost. -/
structure Balanced (h : Heap) (requests : List (Request A)) : Prop where
  le : ((handedOut requests).map Block.length).sum ≤ h.used
  eq_iff : h.used = ((handedOut requests).map Block.length).sum ↔ ∀ q ∈ requests, ¬ q.Lost

/-- **A request keeps the balance.** -/
theorem Balanced.asked {requests : List (Request A)} {r : Heap × Except HeapError PhysAddr}
    (hb : Balanced h requests) (ha : h.Answered size s r) :
    Balanced r.1 (requests ++ [⟨h, s, size, r.2⟩]) := by
  have hle := hb.le
  have hsum : ((handedOut (requests ++ [⟨h, s, size, r.2⟩])).map Block.length).sum =
      ((handedOut requests).map Block.length).sum + ((granted size r.2).map Block.length).sum := by
    simp [handedOut, List.flatMap_append]
  have hlost : (∀ q ∈ requests ++ [⟨h, s, size, r.2⟩], ¬ q.Lost) ↔
      (∀ q ∈ requests, ¬ q.Lost) ∧ ¬ Request.Lost ⟨h, s, size, r.2⟩ := by
    rw [List.forall_mem_append, List.forall_mem_singleton]
  cases ha with
  | refused hg hn =>
      simp only [granted, List.map_nil, List.sum_nil, Nat.add_zero] at hsum
      constructor
      · rw [hsum, hg.used]
        exact hle
      · rw [hsum, hlost, hg.used, hb.eq_iff]
        exact (and_iff_left fun hl => hn hl.2).symm
  | lost hg hm =>
      have hpos := hm.pos
      simp only [granted, List.map_nil, List.sum_nil, Nat.add_zero] at hsum
      constructor
      · rw [hsum, used_carve, hg.used]
        omega
      · rw [hsum, hlost, used_carve, hg.used]
        exact iff_of_false (by omega) fun hall => hall.2 ⟨⟨_, rfl⟩, hm⟩
  | granted hg hn =>
      simp only [granted, List.map_cons, List.map_nil, List.sum_singleton, Block.length] at hsum
      constructor
      · rw [hsum, used_carve, hg.used]
        omega
      · rw [hsum, hlost, used_carve, hg.used, Nat.add_right_cancel_iff, hb.eq_iff]
        exact (and_iff_left fun hl => hn hl.2).symm

/-- A new heap has handed out nothing. -/
lemma start_used : Ensures start anyPanic s fun r _ => ∀ h, r = .ok h → h.used = 0 := by
  refine ensures_run.bind fun f? s₁ _ => ?_
  cases f? with
  | none => exact .pure fun h hr => by cases hr
  | some f =>
      refine .bind_run Store.run_note (.pure fun h hr => ?_)
      cases hr
      rfl

/-- The balance is kept over a whole run. -/
lemma Run.balanced {requests : List (Request A)} (hr : Run h s requests) :
    Balanced h requests := by
  induction hr with
  | started hrun =>
      have hused := start_used.of_ok hrun _ rfl
      exact ⟨Nat.zero_le _, iff_of_true hused fun _ hq => absurd hq List.not_mem_nil⟩
  | asked _ hrun ih => exact ih.asked ((alloc_answered _ _ _).of_ok hrun)
  | elsewhere _ ih => exact ih

/-- **A request that is refused hands out nothing, unless it meets the null address.**  Whatever the
window and the source: frames may have been added, and nothing else has happened, exactly if the
next byte is not seen at the null address; otherwise the bytes that were asked for are lost.  So the
bytes that a heap counts as handed out are those of the requests that were granted exactly if no
request has met the null address. -/
theorem refusals_accounted :
    (∀ {h h' : Heap} {s s' : Store A} {size : UInt64} {e : HeapError},
      (h.alloc size).run s = .ok (h', .error e) s' →
        (h.Gained h' ↔ ¬ h.MeetsNull size s) ∧
          (h.MeetsNull size s → e = .outOfMemory ∧
            ∃ h₁, h.Gained h₁ ∧ h' = h₁.carve (rounded size))) ∧
      ∀ {h : Heap} {s : Store A} {requests : List (Request A)}, Run h s requests →
        (h.used = ((handedOut requests).map Block.length).sum ↔ ∀ q ∈ requests, ¬ q.Lost) := by
  constructor
  · intro h h' s s' size e hrun
    have hanswered := (alloc_answered h size s).of_ok hrun
    cases hanswered with
    | refused hg hn => exact ⟨iff_of_true hg hn, fun hm => absurd hm hn⟩
    | lost hg hm =>
        exact ⟨iff_of_false (not_gained_carve hg hm.pos) (not_not_intro hm),
          fun _ => ⟨rfl, _, hg, rfl⟩⟩
  · exact fun hr => hr.balanced.eq_iff

/-- A pool whose only frame was handed out, and a window that begins at the null address. -/
def drained (log : Array Log.Event) : Store Pool where
  memory := { window := { offset := 0 } }
  source := { outstanding := 1 }
  log

/-- A heap is started on the only frame. -/
lemma run_drained (first : Frame) :
    Run { last := { first } } (drained #[.heapStarted first]) [] :=
  .started (s := { drained #[] with source := { free := [first] } }) rfl

/-- Of a heap of one frame, one request is granted and the next refused. -/
theorem refusals_accounted_sample : ∃ (h : Heap) (s : Store Pool) (requests : List (Request Pool)),
    Run h s requests ∧ handedOut requests = [⟨1, ⟨0x1000⟩⟩] ∧
      (h.alloc 8192).run s = .ok (h, .error .outOfMemory) s ∧
      (h.Gained h ↔ ¬ h.MeetsNull 8192 s) ∧
      (h.used = ((handedOut requests).map Block.length).sum ↔ ∀ q ∈ requests, ¬ q.Lost) := by
  have hgranted : (alloc { last := { first := .ofNumber 1 } } 1).run
      (drained #[.heapStarted (.ofNumber 1)]) =
        .ok ({ last := { first := .ofNumber 1, used := 8 } }, .ok ⟨0x1000⟩)
          (drained #[.heapStarted (.ofNumber 1), .heapAllocated 8 ⟨0x1000⟩]) := by
    -- Growing does not compute, since its recursion is well-founded; it is opened once.
    change (grow { last := { first := .ofNumber 1 } } 8 >>= _).run _ = _
    rw [grow]
    rfl
  have hrefused : ∀ log, (alloc { last := { first := .ofNumber 1, used := 8 } } 8192).run
      (drained log) =
        .ok ({ last := { first := .ofNumber 1, used := 8 } }, .error .outOfMemory)
          (drained log) := by
    intro log
    change (grow { last := { first := .ofNumber 1, used := 8 } } 8192 >>= _).run _ = _
    rw [grow]
    rfl
  have hr := (run_drained (.ofNumber 1)).asked hgranted
  exact ⟨_, _, _, hr, rfl, hrefused _, (refusals_accounted.1 (hrefused _)).1,
    refusals_accounted.2 hr⟩

/-- **The first byte of memory is lost** behind a window that begins at the null address: the very
first request is refused for want of memory, and eight bytes count as handed out all the same. -/
theorem refusal_loses_bytes : ∃ (h h' : Heap) (s s' : Store Pool), Run h s [] ∧
    s.memory.window = { offset := 0 } ∧
    (h.alloc 8).run s = .ok (h', .error .outOfMemory) s' ∧
    h.used = 0 ∧ h'.used = 8 ∧ ¬ h.Gained h' := by
  have hrun : ∀ log, (alloc { last := { first := .ofNumber 0 } } 8).run (drained log) =
      .ok ({ last := { first := .ofNumber 0, used := 8 } }, .error .outOfMemory)
        (drained (log.push (.heapAllocated 8 ⟨0⟩))) := by
    intro log
    change (grow { last := { first := .ofNumber 0 } } 8 >>= _).run _ = _
    rw [grow]
    rfl
  refine ⟨_, _, _, _, run_drained (.ofNumber 0), rfl, hrun _, rfl, rfl, fun hg => ?_⟩
  exact absurd hg.used (by decide)

end Heap

end KernelMemory
