import KernelMemory.Heap
import KernelMemory.Proofs.Frames.Exclusive
import Mathlib.Algebra.BigOperators.Group.List.Basic
import Mathlib.Data.Finset.Lattice.Lemmas

/-!
# The spans of the heap

The heap holds exactly the frames of its spans, each of them once.  A frame that is added belongs to
no span yet, because the heap still holds the frames of all of them: it either continues the last
span, or stands apart from all.

* `Span.Covers`, `Span.Apart` — the frames of a span, and spans without a common frame.
* **`Heap.Sound`** — the spans are whole runs of frames that the heap holds, and have none in
  common.
* `Heap.Grown` — the spans may have become longer, or more.
* **`Heap.grow_ensures`**, **`Heap.alloc_ensures`** — a call keeps the spans sound, and hands out
  the next bytes of the last one or nothing.
-/

namespace KernelMemory

/-! ## Frames of a span -/

namespace Span

variable {sp sp' : Span} {f : Frame}

/-- A frame lies in the span. -/
def Covers (sp : Span) (f : Frame) : Prop :=
  sp.first.number ≤ f.number ∧ f.number < sp.first.number + sp.frames

/-- No frame lies in both spans. -/
def Apart (sp sp' : Span) : Prop :=
  sp.first.number + sp.frames ≤ sp'.first.number ∨ sp'.first.number + sp'.frames ≤ sp.first.number

/-- **A run of whole frames**, of which whole words have been handed out. -/
structure Sound (sp : Span) : Prop where
  /-- There is at least one frame. -/
  pos : 0 < sp.frames
  /-- The run does not go beyond the last frame. -/
  fits : sp.first.number + sp.frames ≤ 2 ^ 52
  used_le : sp.used ≤ sp.length
  used_dvd : heapAlign ∣ sp.used

lemma Apart.symm (h : sp.Apart sp') : sp'.Apart sp :=
  Or.symm h

lemma toNat_base (sp : Span) : sp.base.value.toNat = sp.first.number * pageSize :=
  Page.toNat_base sp.first

end Span

namespace Heap

variable {h h' h'' : Heap} {sp sp' : Span} {f : Frame} {n : Nat}

lemma mem_spans : sp ∈ h.spans ↔ sp = h.last ∨ sp ∈ h.earlier := by
  rw [spans, List.mem_reverse, List.mem_cons]

lemma used_eq_sum (h : Heap) : h.used = (h.spans.map Span.used).sum := by
  rw [used, List.sum_eq_foldr, List.foldr_map]

lemma total_eq_sum (h : Heap) : h.total = (h.spans.map Span.length).sum := by
  rw [total, List.sum_eq_foldr, List.foldr_map]

lemma used_eq : h.used = h.last.used + (h.earlier.map Span.used).sum := by
  rw [used_eq_sum, spans, List.map_reverse, List.sum_reverse, List.map_cons, List.sum_cons]

/-! ## Sound heaps -/

/-- **The heap holds the frames of its spans**, and no two spans have a frame in common. -/
structure Sound (h : Heap) (owned : Finset Frame) : Prop where
  few : h.earlier.length < maxSpans
  span : ∀ sp ∈ h.spans, sp.Sound
  apart : (h.last :: h.earlier).Pairwise Span.Apart
  mem_owned {f : Frame} : f ∈ owned ↔ ∃ sp ∈ h.spans, sp.Covers f

/-- The spans of one heap are spans of the other, perhaps with more frames; nothing more has been
handed out. -/
structure Grown (h h' : Heap) : Prop where
  span : ∀ sp ∈ h.spans, ∃ more, { sp with frames := sp.frames + more } ∈ h'.spans
  used : h'.used = h.used

lemma Grown.refl (h : Heap) : h.Grown h :=
  ⟨fun _ hsp => ⟨0, hsp⟩, rfl⟩

lemma Grown.trans (hg : h.Grown h') (hg' : h'.Grown h'') : h.Grown h'' where
  span sp hsp := by
    obtain ⟨more, hmem⟩ := hg.span sp hsp
    obtain ⟨more', hmem'⟩ := hg'.span _ hmem
    exact ⟨more + more', by rwa [← Nat.add_assoc]⟩
  used := hg'.used.trans hg.used

/-- A heap that gains a frame has grown. -/
lemma Grown.of_addFrame? (hadd : h.addFrame? f = .ok (some h')) : h.Grown h' := by
  rcases addFrame?_eq_ok hadd with ⟨hearlier, hlast⟩ | ⟨-, hlast, hearlier⟩
  · constructor
    · intro sp hsp
      rcases mem_spans.mp hsp with rfl | hsp
      · exact ⟨1, mem_spans.mpr (.inl hlast.symm)⟩
      · exact ⟨0, mem_spans.mpr (.inr (hearlier ▸ hsp))⟩
    · rw [used_eq, used_eq, hlast, hearlier]
  · constructor
    · intro sp hsp
      rw [mem_spans, ← List.mem_cons, ← hearlier] at hsp
      exact ⟨0, mem_spans.mpr (.inr hsp)⟩
    · rw [used_eq, used_eq, hlast, hearlier, List.map_cons, List.sum_cons, Nat.zero_add]

/-- A frame that makes the last span longer comes right behind it. -/
lemma number_of_addFrame? (hadd : h.addFrame? f = .ok (some h'))
    (hearlier : h'.earlier = h.earlier) : f.number = h.last.first.number + h.last.frames := by
  rw [addFrame?] at hadd
  obtain ⟨stop, hstop, hadd⟩ := Checked.bind_eq_ok.mp hadd
  obtain ⟨-, rfl⟩ := Checked.add_eq_ok_iff.mp hstop
  split at hadd
  case isTrue heq =>
    rw [Span.toNat_base, Page.toNat_base, Span.length] at heq
    simp only [pageSize] at heq
    omega
  case isFalse =>
    split at hadd
    · cases hadd
      exact absurd hearlier (List.cons_ne_self _ _)
    · cases hadd

/-- **A frame that the heap did not hold is added.** -/
theorem Sound.addFrame? {owned : Finset Frame} (hs : Sound h owned) (hf : f ∉ owned)
    (hadd : h.addFrame? f = .ok (some h')) : Sound h' (insert f owned) := by
  have hnew : ∀ sp ∈ h.spans, ¬ sp.Covers f := fun sp hsp hcovers =>
    hf (hs.mem_owned.mpr ⟨sp, hsp, hcovers⟩)
  have hlt := f.number_lt
  have hspan := hs.span
  have hmem : ∀ {g}, g ∈ owned ↔ h.last.Covers g ∨ ∃ sp ∈ h.earlier, sp.Covers g := fun {g} => by
    simp only [hs.mem_owned, mem_spans, or_and_right, exists_or, exists_eq_left]
  simp only [mem_spans, forall_eq_or_imp] at hnew hspan
  obtain ⟨hpos, hfits, hused, hdvd⟩ := hspan.1
  obtain ⟨hlastApart, happart⟩ := List.pairwise_cons.mp hs.apart
  obtain ⟨last, earlier⟩ := h'
  rcases addFrame?_eq_ok hadd with ⟨rfl, rfl⟩ | ⟨hroom, rfl, rfl⟩
  case inl =>
    have hnumber := number_of_addFrame? hadd rfl
    constructor
    case few => exact hs.few
    case span =>
      simp only [mem_spans, forall_eq_or_imp]
      have hfits' : h.last.first.number + (h.last.frames + 1) ≤ 2 ^ 52 := by omega
      have hused' : h.last.used ≤ (h.last.frames + 1) * pageSize :=
        hused.trans (Nat.mul_le_mul_right pageSize (Nat.le_succ _))
      exact ⟨⟨Nat.succ_pos _, hfits', hused', hdvd⟩, hspan.2⟩
    case apart =>
      refine List.pairwise_cons.mpr ⟨fun sp hsp => ?_, happart⟩
      have hnot := hnew.2 sp hsp
      have hold := hlastApart sp hsp
      have hsp := (hspan.2 sp hsp).pos
      simp only [Span.Apart, Span.Covers] at hnot hold ⊢
      omega
    case mem_owned =>
      intro g
      simp only [Finset.mem_insert, hmem, mem_spans, or_and_right, exists_or, exists_eq_left,
        ← or_assoc]
      refine or_congr_left ?_
      simp only [Span.Covers, Page.ext_iff]
      omega
  case inr =>
    constructor
    case few => simpa using hroom
    case span =>
      simp only [mem_spans, forall_eq_or_imp, List.mem_cons]
      refine ⟨⟨Nat.one_pos, hlt, Nat.zero_le _, Nat.dvd_zero _⟩, hspan⟩
    case apart =>
      refine List.pairwise_cons.mpr ⟨fun sp hsp => ?_, hs.apart⟩
      have hnot : ¬ sp.Covers f := by
        rcases List.mem_cons.mp hsp with rfl | hsp
        · exact hnew.1
        · exact hnew.2 sp hsp
      simp only [Span.Apart, Span.Covers] at hnot ⊢
      omega
    case mem_owned =>
      intro g
      simp only [Finset.mem_insert, hmem, mem_spans, List.mem_cons, or_and_right, exists_or,
        exists_eq_left]
      refine or_congr_left ?_
      simp only [Span.Covers, Page.ext_iff]
      omega

/-! ## Handing out -/

open KernelMemory.Action

variable {A : Type} {s s' : Store A} {owned : Finset Frame}

/-- The size in whole words. -/
def rounded (size : UInt64) : Nat :=
  (size.toNat + (heapAlign - 1)) / heapAlign * heapAlign

/-- The address of the next byte that is handed out. -/
def next (h : Heap) : PhysAddr :=
  .ofNat (h.last.base.value.toNat + h.last.used)

/-- The heap with the next bytes handed out. -/
def carve (h : Heap) (n : Nat) : Heap :=
  { h with last := { h.last with used := h.last.used + n } }

lemma Sound.toNat_next (hs : Sound h owned)
    (hroom : 0 < h.last.remaining) :
    h.next.value.toNat = h.last.base.value.toNat + h.last.used := by
  have hfits := (hs.span h.last (mem_spans.mpr (.inl rfl))).fits
  rw [Span.remaining, Span.length] at hroom
  simp only [pageSize] at hroom
  rw [next, Address.ofNat, UInt64.toNat_ofNat', Span.toNat_base]
  simp only [pageSize]
  omega

lemma used_carve : (h.carve n).used = h.used + n := by
  rw [used_eq, used_eq, carve]
  simp only
  omega

/-- **Whole words that are left are handed out.** -/
theorem Sound.carve (hs : Sound h owned) (hn : heapAlign ∣ n)
    (hroom : n ≤ h.last.remaining) : Sound (h.carve n) owned := by
  have hspan := hs.span
  simp only [mem_spans, forall_eq_or_imp] at hspan
  obtain ⟨hpos, hfits, hused, hdvd⟩ := hspan.1
  have hused' : h.last.used + n ≤ h.last.length := by
    rw [Span.remaining] at hroom
    omega
  constructor
  case few => exact hs.few
  case span =>
    simp only [mem_spans, forall_eq_or_imp]
    exact ⟨⟨hpos, hfits, hused', Nat.dvd_add hdvd hn⟩, hspan.2⟩
  case apart =>
    obtain ⟨hlast, hearlier⟩ := List.pairwise_cons.mp hs.apart
    exact List.pairwise_cons.mpr ⟨hlast, hearlier⟩
  case mem_owned =>
    intro f
    simp only [hs.mem_owned, mem_spans, or_and_right, exists_or, exists_eq_left]
    rfl

/-- What comes of a request of whole words, once there are enough of them: the next ones are handed
out, unless they are seen at the null address. -/
structure Carved (h : Heap) (n : Nat) (window : Window) (r : Heap × Except HeapError PhysAddr) :
    Prop where
  room : n ≤ h.last.remaining
  heap : r.1 = h.carve n
  result : ∃ p, window.pointer h.next = .ok p ∧
    r.2 = if p.value = 0 then .error .outOfMemory else .ok h.next

lemma bump_ensures (hroom : n ≤ h.last.remaining) :
    Ensures (h.bump n) anyPanic s fun r s' => s'.source = s.source ∧ s'.memory = s.memory ∧
      Carved h n s.memory.window r := by
  refine (ofExcept_ensures fun _ _ => trivial).bind ?_
  rintro sum _ ⟨hsum, rfl⟩
  obtain ⟨-, rfl⟩ := Checked.add_eq_ok_iff.mp hsum
  refine (ofExcept_ensures fun _ _ => trivial).bind ?_
  rintro used s ⟨hused, rfl⟩
  obtain ⟨-, rfl⟩ := Checked.add_eq_ok_iff.mp hused
  refine .bind_run Store.run_note ?_
  refine (ofExcept_ensures fun _ _ => trivial).bind ?_
  rintro p s' ⟨hpointer, rfl⟩
  have hcarved : ∀ r, r = (if p.value = 0 then .error .outOfMemory else .ok h.next) →
      Carved h n s.memory.window (h.carve n, r) := fun r hr => ⟨hroom, rfl, p, hpointer, hr⟩
  split
  case isTrue hnull => exact .pure ⟨rfl, rfl, hcarved _ (if_pos hnull).symm⟩
  case isFalse hnull => exact .pure ⟨rfl, rfl, hcarved _ (if_neg hnull).symm⟩

/-- Bytes that are given back are only taken note of. -/
lemma free_ensures (pointer : VirtAddr) : Ensures (h.free pointer) anyPanic s fun _ s' =>
    s'.source = s.source ∧ s'.memory = s.memory := by
  refine (ofExcept_ensures fun _ _ => trivial).bind ?_
  rintro found s ⟨-, rfl⟩
  cases found with
  | true => exact .of_run Store.run_note ⟨rfl, rfl⟩
  | false => exact .throw trivial

/-! ## Growing -/

variable [FrameSource A] [ExclusiveSource A] {others : Finset Frame} {size : Nat}

/-- **The heap holds its frames while others hold theirs.** -/
def Beside (h : Heap) (others : Finset Frame) (s : Store A) : Prop :=
  ∃ owned, Sound h owned ∧ Disjoint owned others ∧ Lent s (owned ∪ others)

/-- What is noted does not matter. -/
lemma Beside.of_eq (hb : h.Beside others s) (hsource : s'.source = s.source)
    (hmemory : s'.memory = s.memory) : h.Beside others s' := by
  obtain ⟨owned, hs, hdisjoint, hlent⟩ := hb
  exact ⟨owned, hs, hdisjoint, ExclusiveSource.of_eq hlent hsource hmemory⟩

/-- The state after a heap has grown. -/
structure GrownTo (h : Heap) (others : Finset Frame) (s : Store A) (h' : Heap) (s' : Store A) :
    Prop extends h.Grown h' where
  beside : h'.Beside others s'
  window : s'.memory.window = s.memory.window

lemma GrownTo.trans {h h' h'' : Heap} {s'' : Store A} (hg : h.GrownTo others s h' s')
    (hg' : h'.GrownTo others s' h'' s'') : h.GrownTo others s h'' s'' where
  toGrown := hg.toGrown.trans hg'.toGrown
  beside := hg'.beside
  window := hg'.window.trans hg.window

/-- **Growing** takes frames that nobody holds, and gives back the one that it has no span for. -/
theorem grow_ensures (hb : h.Beside others s) :
    Ensures (h.grow size) anyPanic s fun r s' => GrownTo h others s r.1 s' ∧
      (r.2 = .ok () → size ≤ r.1.last.remaining) := by
  induction h using Heap.grow.induct size generalizing s with
  | case1 h hfits =>
      rw [grow, dif_pos hfits]
      exact .pure ⟨⟨.refl h, hb, rfl⟩, fun _ => hfits⟩
  | case2 h hfits ih =>
      obtain ⟨owned, hs, hdisjoint, hlent⟩ := hb
      rw [grow, dif_neg hfits]
      refine ensures_run.bind fun f? s₁ halloc => ?_
      cases f? with
      | none =>
          obtain ⟨hlent₁, hwindow⟩ := ExclusiveSource.alloc_none hlent halloc
          exact .pure ⟨⟨.refl h, ⟨owned, hs, hdisjoint, hlent₁⟩, hwindow⟩, fun hok => by cases hok⟩
      | some f =>
          obtain ⟨hf, hlent₁, hwindow⟩ := ExclusiveSource.alloc_some hlent halloc
          obtain ⟨hfowned, hfothers⟩ := not_or.mp (mt Finset.mem_union.mpr hf)
          dsimp only
          split
          · exact .throw trivial
          · refine ensures_run.bind fun _ s₂ hfree => ?_
            obtain ⟨hlent₂, hwindow₂⟩ :=
              ExclusiveSource.free hlent₁ (Finset.mem_insert_self f _) hfree
            rw [Finset.erase_insert hf] at hlent₂
            exact .pure ⟨⟨.refl h, ⟨owned, hs, hdisjoint, hlent₂⟩, hwindow₂.trans hwindow⟩,
              fun hok => by cases hok⟩
          · next larger hadd =>
            have hbeside : larger.Beside others s₁ := by
              refine ⟨insert f owned, hs.addFrame? hfowned hadd, ?_, ?_⟩
              · exact Finset.disjoint_insert_left.mpr ⟨hfothers, hdisjoint⟩
              · rwa [Finset.insert_union]
            have hrest : ∀ s₂ : Store A, s₂.source = s₁.source → s₂.memory = s₁.memory →
                Ensures (larger.grow size) anyPanic s₂ fun r s' => GrownTo h others s r.1 s' ∧
                  (r.2 = .ok () → size ≤ r.1.last.remaining) := fun s₂ hsource hmemory =>
              have hgrown : h.GrownTo others s larger s₂ :=
                ⟨.of_addFrame? hadd, hbeside.of_eq hsource hmemory, hmemory ▸ hwindow⟩
              (ih f larger hadd hgrown.beside).mono fun _ _ hend =>
                ⟨hgrown.trans hend.1, hend.2⟩
            split
            · exact .bind_run Store.run_note (hrest _ rfl rfl)
            · exact hrest s₁ rfl rfl

/-! ## Calls -/

lemma rounded_eq_of_roundUp? {size : UInt64} (hn : roundUp? size.toNat = some n) :
    n = rounded size := by
  rw [roundUp?] at hn
  split at hn
  · exact (Option.some.inj hn).symm
  · cases hn

lemma dvd_rounded (size : UInt64) : heapAlign ∣ rounded size :=
  Nat.dvd_mul_left ..

lemma rounded_pos {size : UInt64} (hsize : 0 < size.toNat) : 0 < rounded size := by
  simp only [rounded, heapAlign]
  omega

/-- **A call of the heap** lets it grow, and then hands out the next bytes or fails. -/
theorem alloc_ensures (hb : h.Beside others s) (size : UInt64) :
    Ensures (h.alloc size) anyPanic s fun r s' => r.1.Beside others s' ∧
      s'.memory.window = s.memory.window ∧ ∃ h', h.Grown h' ∧
        (r.1 = h' ∧ (∃ e, r.2 = .error e) ∨
          0 < size.toNat ∧ (∃ owned, Sound h' owned) ∧
            Carved h' (rounded size) s.memory.window r) := by
  rw [alloc]
  split
  case isTrue hzero => exact .pure ⟨hb, rfl, h, .refl h, .inl ⟨rfl, _, rfl⟩⟩
  case isFalse hzero =>
    have hpos : 0 < size.toNat := Nat.pos_of_ne_zero fun heq => hzero (UInt64.toNat.inj heq)
    cases hround : roundUp? size.toNat with
    | none => exact .pure ⟨hb, rfl, h, .refl h, .inl ⟨rfl, _, rfl⟩⟩
    | some n =>
        obtain rfl := rounded_eq_of_roundUp? hround
        refine (grow_ensures hb).bind ?_
        rintro ⟨h', r⟩ s₁ ⟨hgrown, hroom⟩
        rcases r with e | ⟨⟩
        · exact .pure ⟨hgrown.beside, hgrown.window, h', hgrown.toGrown, .inl ⟨rfl, e, rfl⟩⟩
        · refine (bump_ensures (hroom rfl)).mono ?_
          rintro r s₂ ⟨hsource, hmemory, hcarved⟩
          obtain ⟨owned, hs, hdisjoint, hlent⟩ := hgrown.beside.of_eq hsource hmemory
          refine ⟨⟨owned, ?_, hdisjoint, hlent⟩, ?_, h', hgrown.toGrown,
            .inr ⟨hpos, ⟨owned, hs⟩, ?_⟩⟩
          · rw [hcarved.heap]
            exact hs.carve (dvd_rounded size) hcarved.room
          · rw [hmemory, hgrown.window]
          · rwa [← hgrown.window]

/-- A heap of one frame holds the frame. -/
lemma sound_start (f : Frame) : Sound { last := { first := f } } {f} where
  few := by
    change 0 < maxSpans
    decide
  span := by
    simp only [mem_spans, forall_eq_or_imp, List.not_mem_nil, false_imp_iff, implies_true,
      and_true]
    exact ⟨Nat.one_pos, f.number_lt, Nat.zero_le _, Nat.dvd_zero _⟩
  apart := List.pairwise_singleton ..
  mem_owned {g} := by
    simp only [mem_spans, List.not_mem_nil, or_false, exists_eq_left, Span.Covers,
      Finset.mem_singleton, Page.ext_iff]
    omega

/-- **A new heap** has one frame, which nobody held, and has handed out nothing. -/
theorem start_ensures (hlent : Lent s others) :
    Ensures start anyPanic s fun r s' => ∀ h, r = .ok h → h.Beside others s' ∧ h.used = 0 := by
  refine ensures_run.bind fun f? s₁ halloc => ?_
  cases f? with
  | none => exact .pure fun h hr => by cases hr
  | some f =>
      obtain ⟨hf, hlent₁, -⟩ := ExclusiveSource.alloc_some hlent halloc
      refine .bind_run Store.run_note (.pure fun h hr => ?_)
      cases hr
      have hdisjoint := Finset.disjoint_singleton_left.mpr hf
      exact ⟨Beside.of_eq ⟨{f}, sound_start f, hdisjoint, hlent₁⟩ rfl rfl, rfl⟩

end Heap

end KernelMemory
