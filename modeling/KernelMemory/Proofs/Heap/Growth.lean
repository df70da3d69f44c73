import KernelMemory.Proofs.Frames.Counted
import KernelMemory.Proofs.Heap.Spans

/-!
# Growth of the heap

The loop that grows the heap looks at the last span only, and a frame that begins a new span may
leave less room than there was.  So what is still missing is no measure for it.  What is accounted
for is the source: each round takes one free frame and adds one page to the heap, except for the
last round of a heap without a span to spare, which takes a frame and gives it back.

* `Heap.Takes` — rounds of the loop, each of which takes a frame because room is missing.
* `Heap.Ends` — how the loop ends: with enough room, without a free frame, or without a span for the
  frame that came.
* `Heap.Bounded` — the spans end where addresses do, or before.
* **`Heap.grow_takes`** — the loop ends, and in one of these ways.
* **`Heap.growth_accounted`** — what a request takes from the source, the heap has gained; over a
  bitmap no sum of addresses overflows.
-/

namespace KernelMemory.Heap

open KernelMemory.Action

variable {A : Type} {h h' h₁ : Heap} {f : Frame} {size n limit : Nat}

/-! ## The size of a heap -/

lemma total_eq (h : Heap) : h.total = h.last.length + (h.earlier.map Span.length).sum := by
  rw [total_eq_sum, spans, List.map_reverse, List.sum_reverse, List.map_cons, List.sum_cons]

@[simp] lemma total_carve : (h.carve n).total = h.total := by
  rw [total_eq, total_eq]
  rfl

/-- A frame adds a page. -/
lemma total_addFrame? (hadd : h.addFrame? f = .ok (some h')) : h'.total = h.total + pageSize := by
  rw [total_eq, total_eq]
  rcases addFrame?_eq_ok hadd with ⟨hearlier, hlast⟩ | ⟨-, hlast, hearlier⟩
  · rw [hearlier, hlast, Span.length, Span.length]
    simp only [pageSize]
    omega
  · rw [hearlier, hlast, List.map_cons, List.sum_cons, Span.length, Nat.one_mul]
    omega

/-! ## Ends of spans -/

/-- **The spans end below a limit**, and no more was handed out of them than they have. -/
structure Bounded (h : Heap) (limit : Nat) : Prop where
  few : h.earlier.length < maxSpans
  end_le : ∀ sp ∈ h.spans, sp.first.number + sp.frames ≤ limit
  length_lt : ∀ sp ∈ h.spans, sp.length < 2 ^ 64
  used_le : ∀ sp ∈ h.spans, sp.used ≤ sp.length

lemma bounded_start (hf : f.number < limit) : Bounded { last := { first := f } } limit := by
  constructor
  case few =>
    change 0 < maxSpans
    decide
  all_goals
    intro sp hsp
    obtain rfl := List.mem_singleton.mp (List.mem_reverse.mp hsp)
  case end_le => exact hf
  case length_lt =>
    change 1 * pageSize < 2 ^ 64
    decide
  case used_le => exact Nat.zero_le _

/-- The length of a span that becomes longer is checked. -/
lemma length_of_addFrame? (hadd : h.addFrame? f = .ok (some h'))
    (hearlier : h'.earlier = h.earlier) :
    h.last.length + pageSize < 2 ^ 64 := by
  rw [addFrame?] at hadd
  obtain ⟨stop, -, hadd⟩ := Checked.bind_eq_ok.mp hadd
  split at hadd
  case isTrue =>
    obtain ⟨length, hlength, -⟩ := Checked.bind_eq_ok.mp hadd
    exact (Checked.add_eq_ok_iff.mp hlength).1
  case isFalse =>
    split at hadd
    · cases hadd
      exact absurd hearlier (List.cons_ne_self _ _)
    · cases hadd

/-- A frame for which there is no span does not continue the last one. -/
lemma addFrame?_eq_none (hadd : h.addFrame? f = .ok none) :
    f.number ≠ h.last.first.number + h.last.frames ∧ maxSpans ≤ h.earlier.length + 1 := by
  rw [addFrame?] at hadd
  obtain ⟨stop, hstop, hadd⟩ := Checked.bind_eq_ok.mp hadd
  obtain ⟨-, rfl⟩ := Checked.add_eq_ok_iff.mp hstop
  split at hadd
  case isTrue =>
    obtain ⟨length, -, hadd⟩ := Checked.bind_eq_ok.mp hadd
    cases hadd
  case isFalse hne =>
    rw [Span.toNat_base, Page.toNat_base, Span.length, ← Nat.add_mul] at hne
    split at hadd
    · cases hadd
    · next hfull => exact ⟨fun heq => hne (by rw [heq]), not_lt.mp hfull⟩

namespace Bounded

lemma last_end_le (hb : Bounded h limit) : h.last.first.number + h.last.frames ≤ limit :=
  hb.end_le _ (mem_spans.mpr (.inl rfl))

/-- **A frame below the limit can be added.** -/
theorem addFrame? (hb : Bounded h limit) (hf : f.number < limit)
    (hadd : h.addFrame? f = .ok (some h')) : Bounded h' limit := by
  obtain ⟨last, earlier⟩ := h'
  have hend := hb.end_le
  have hlength := hb.length_lt
  have hused := hb.used_le
  simp only [mem_spans, forall_eq_or_imp] at hend hlength hused
  rcases addFrame?_eq_ok hadd with ⟨rfl, rfl⟩ | ⟨hroom, rfl, rfl⟩
  case inl =>
    have hnumber := number_of_addFrame? hadd rfl
    have hlonger := length_of_addFrame? hadd rfl
    have hpages : (h.last.frames + 1) * pageSize = h.last.length + pageSize := Nat.succ_mul ..
    constructor
    case few => exact hb.few
    all_goals simp only [mem_spans, forall_eq_or_imp]
    case end_le => exact ⟨by omega, hend.2⟩
    case length_lt => exact ⟨hpages.trans_lt hlonger, hlength.2⟩
    case used_le => exact ⟨(hused.1.trans (Nat.le_add_right ..)).trans_eq hpages.symm, hused.2⟩
  case inr =>
    constructor
    case few => exact hroom
    all_goals simp only [mem_spans, forall_eq_or_imp, List.mem_cons]
    case end_le => exact ⟨hf, hend⟩
    case length_lt => exact ⟨show 1 * pageSize < 2 ^ 64 by decide, hlength⟩
    case used_le => exact ⟨Nat.zero_le _, hused⟩

/-- **The sums of addresses fit** where the last span ends before addresses do. -/
theorem eq_addOverflow {p : Panic} (hb : Bounded h limit) (hlimit : limit ≤ 2 ^ 52)
    (hf : f.number < limit) (hadd : h.addFrame? f = .error p) :
    p = .addOverflow ∧ limit = 2 ^ 52 := by
  have hend := hb.last_end_le
  have hbase := Span.toNat_base h.last
  have hlength : h.last.length = h.last.frames * pageSize := rfl
  simp only [pageSize] at hbase hlength
  rw [Heap.addFrame?, Span.stop, Checked.add] at hadd
  split at hadd
  case isFalse hover =>
    cases hadd
    exact ⟨rfl, by omega⟩
  case isTrue =>
    simp only [bind, Except.bind] at hadd
    split at hadd
    case isFalse => split at hadd <;> cases hadd
    case isTrue heq =>
      rw [Page.toNat_base] at heq
      rw [Checked.add] at hadd
      simp only [pageSize] at heq hadd
      split at hadd
      case h_1 herror =>
        split at herror
        · cases herror
        · cases herror
          cases hadd
          exact ⟨rfl, by omega⟩
      case h_2 => cases hadd

lemma carve (hb : Bounded h limit) (hroom : n ≤ h.last.remaining) :
    Bounded (h.carve n) limit := by
  have hend := hb.end_le
  have hlength := hb.length_lt
  have hused := hb.used_le
  simp only [mem_spans, forall_eq_or_imp] at hend hlength hused
  have hused' : h.last.used + n ≤ h.last.length := by
    rw [Span.remaining] at hroom
    omega
  constructor
  case few => exact hb.few
  all_goals simp only [mem_spans, forall_eq_or_imp]
  case end_le => exact hend
  case length_lt => exact hlength
  case used_le => exact ⟨hused', hused.2⟩

/-- Below the end of addresses a span has an end, too. -/
lemma end_lt (hb : Bounded h limit) (hlimit : limit < 2 ^ 52) {sp : Span} (hsp : sp ∈ h.spans) :
    sp.base.value.toNat + sp.length < 2 ^ 64 := by
  have hend := hb.end_le sp hsp
  rw [Span.toNat_base, Span.length, ← Nat.add_mul]
  simp only [pageSize]
  omega

end Bounded

/-! ## Rounds of the loop -/

variable [FrameSource A] {s s' s₁ s₂ : Store A} {r : Heap × Except HeapError Unit}

/-- **Frames are taken one at a time**, each because the last span has less than `size` bytes left.
-/
inductive Takes (size : Nat) : Nat → Heap → Store A → Heap → Store A → Prop
  | enough {h : Heap} {s : Store A} : Takes size 0 h s h s
  | frame {n : Nat} {h h₁ h' : Heap} {f : Frame} {s s₁ s₂ s' : Store A} : h.last.remaining < size →
      (FrameSource.alloc : Action (Store A) _).run s = .ok (some f) s₁ →
      h.addFrame? f = .ok (some h₁) → s₂.source = s₁.source → s₂.memory = s₁.memory →
      Takes size n h₁ s₂ h' s' → Takes size (n + 1) h s h' s'

variable [CountedSource A] {excuse : Panic → Prop}

/-- **The ends of the loop.** -/
inductive Ends (size : Nat) (h : Heap) (s : Store A) : Heap × Except HeapError Unit → Store A → Prop
  /-- The last span has enough room. -/
  | enough : size ≤ h.last.remaining → Ends size h s (h, .ok ()) s
  /-- There is no free frame. -/
  | exhausted {s' : Store A} : h.last.remaining < size → available s = 0 →
      (FrameSource.alloc : Action (Store A) _).run s = .ok none s' →
      Ends size h s (h, .error .outOfMemory) s'
  /-- A frame that does not continue the last span would need one span too many, and is given
  back. -/
  | crowded {f : Frame} {s₁ s' : Store A} : h.last.remaining < size →
      (FrameSource.alloc : Action (Store A) _).run s = .ok (some f) s₁ →
      f.number ≠ h.last.first.number + h.last.frames → h.spans.length = maxSpans →
      (FrameSource.free f : Action (Store A) _).run s₁ = .ok () s' →
      Ends size h s (h, .error .outOfMemory) s'

omit [CountedSource A] in
lemma Takes.eq_of_fits (ht : Takes size n h s h' s') (hfits : size ≤ h.last.remaining) :
    h' = h ∧ s' = s := by
  cases ht with
  | enough => exact ⟨rfl, rfl⟩
  | frame hmissing => exact absurd hfits hmissing.not_ge

lemma Ends.eq_of_fits (he : Ends size h s r s') (hfits : size ≤ h.last.remaining) :
    s' = s := by
  cases he with
  | enough => rfl
  | exhausted hmissing => exact absurd hfits hmissing.not_ge
  | crowded hmissing => exact absurd hfits hmissing.not_ge

/-- What the rounds take from the source, the heap gains. -/
structure Took (n : Nat) (h : Heap) (s : Store A) (h' : Heap) (s' : Store A) : Prop where
  bounded : Bounded h' (CountedSource.limit A)
  steady : Steady s'
  available : available s = available s' + n
  total : h'.total = h.total + n * pageSize

lemma Takes.took (ht : Takes size n h s h' s') (hb : Bounded h (CountedSource.limit A))
    (hs : Steady s) : Took n h s h' s' := by
  induction ht with
  | enough => exact ⟨hb, hs, rfl, by rw [Nat.zero_mul, Nat.add_zero]⟩
  | @frame n h h₁ h' f s s₁ s₂ s' _ halloc hadd hsource hmemory _ ih =>
      obtain ⟨hs₁, hf, havailable⟩ := CountedSource.alloc_some hs halloc
      obtain ⟨hs₂, hsame⟩ := CountedSource.of_eq hs₁ hsource hmemory
      obtain ⟨hb', hs', havailable', htotal⟩ := ih (hb.addFrame? hf hadd) hs₂
      refine ⟨hb', hs', by omega, ?_⟩
      rw [htotal, total_addFrame? hadd, Nat.succ_mul]
      omega

/-- The end of the loop takes nothing. -/
lemma Ends.kept (he : Ends size h s r s') (hs : Steady s) :
    r.1 = h ∧ Steady s' ∧ available s' = available s := by
  cases he with
  | enough => exact ⟨rfl, hs, rfl⟩
  | exhausted _ _ halloc =>
      obtain ⟨hs', hnone, hnone'⟩ := CountedSource.alloc_none hs halloc
      exact ⟨rfl, hs', hnone'.trans hnone.symm⟩
  | crowded _ halloc _ _ hfree =>
      obtain ⟨s'', hfree', hs'', havailable⟩ := CountedSource.free_alloc hs halloc
      rw [hfree] at hfree'
      cases hfree'
      exact ⟨rfl, hs'', havailable⟩

/-- **The loop ends** after some rounds, or where a sum of addresses overflows. -/
theorem grow_takes (hb : Bounded h (CountedSource.limit A)) (hs : Steady s)
    (hover : CountedSource.limit A = 2 ^ 52 → excuse .addOverflow) :
    Ensures (h.grow size) excuse s fun r s' =>
      ∃ n h₁ s₁, Takes size n h s h₁ s₁ ∧ Ends size h₁ s₁ r s' := by
  induction h using Heap.grow.induct size generalizing s with
  | case1 h hfits =>
      rw [grow, dif_pos hfits]
      exact .pure ⟨0, h, s, .enough, .enough hfits⟩
  | case2 h hfits ih =>
      have hmissing := not_le.mp hfits
      rw [grow, dif_neg hfits]
      obtain ⟨f?, s₁, halloc⟩ := CountedSource.alloc_returns hs
      refine .bind_run halloc ?_
      cases f? with
      | none =>
          have hnone := (CountedSource.alloc_none hs halloc).2.1
          exact .pure ⟨0, h, s, .enough, .exhausted hmissing hnone halloc⟩
      | some f =>
          obtain ⟨hs₁, hf, -⟩ := CountedSource.alloc_some hs halloc
          dsimp only
          split
          · next p hadd =>
            obtain ⟨rfl, hlimit⟩ := hb.eq_addOverflow CountedSource.limit_le hf hadd
            exact .throw (hover hlimit)
          · next hadd =>
            obtain ⟨hapart, hfull⟩ := addFrame?_eq_none hadd
            obtain ⟨s', hfree, -⟩ := CountedSource.free_alloc hs halloc
            have hspans : h.spans.length = maxSpans := by
              have hfew := hb.few
              rw [spans, List.length_reverse, List.length_cons]
              omega
            exact .bind_run hfree
              (.pure ⟨0, h, s, .enough, .crowded hmissing halloc hapart hspans hfree⟩)
          · next larger hadd =>
            have hrest : ∀ s₂ : Store A, s₂.source = s₁.source → s₂.memory = s₁.memory →
                Ensures (larger.grow size) excuse s₂ fun r s' =>
                  ∃ n h₁ s₁, Takes size n h s h₁ s₁ ∧ Ends size h₁ s₁ r s' := by
              intro s₂ hsource hmemory
              have hs₂ := (CountedSource.of_eq hs₁ hsource hmemory).1
              refine (ih f larger hadd (hb.addFrame? hf hadd) hs₂).mono ?_
              rintro r s' ⟨n, h₁, s₃, htakes, hends⟩
              exact ⟨n + 1, h₁, s₃, .frame hmissing halloc hadd hsource hmemory htakes, hends⟩
            split
            · exact .bind_run Store.run_note (hrest _ rfl rfl)
            · exact hrest s₁ rfl rfl

/-! ## Requests -/

/-- The bytes that would be handed out do not lie in memory. -/
def Outside (p : Panic) : Prop :=
  ∃ address frames, p = .outsideMemory address frames

lemma outside_of_pointer {window : Window} {pa : PhysAddr} {p : Panic}
    (hpointer : window.pointer pa = .error p) : Outside p := by
  rw [Window.pointer] at hpointer
  split at hpointer
  · next frames _ =>
    split at hpointer
    · cases hpointer
    · cases hpointer
      exact ⟨pa, frames, rfl⟩
  · cases hpointer

omit [FrameSource A] [CountedSource A] in
/-- Handing out bytes that are left fails at most because they do not lie in memory. -/
lemma bump_halts (hb : Bounded h limit) (hlimit : limit ≤ 2 ^ 52) (hpos : 0 < n)
    (hroom : n ≤ h.last.remaining) (hout : ∀ p, Outside p → excuse p) :
    Ensures (h.bump n) excuse s fun _ _ => True := by
  have hend := hb.last_end_le
  have hlength := hb.length_lt _ (mem_spans.mpr (.inl rfl))
  have hbase := Span.toNat_base h.last
  rw [Span.remaining] at hroom
  rw [Span.length] at hlength hroom
  simp only [pageSize] at hbase hlength hroom
  have haddress : Checked.add h.last.base.value.toNat h.last.used =
      .ok (h.last.base.value.toNat + h.last.used) := Checked.add_eq_ok_iff.mpr ⟨by omega, rfl⟩
  have hused : Checked.add h.last.used n = .ok (h.last.used + n) :=
    Checked.add_eq_ok_iff.mpr ⟨by omega, rfl⟩
  refine .bind_run (run_ofExcept haddress) (.bind_run (run_ofExcept hused) ?_)
  refine .bind_run Store.run_note ?_
  refine (ofExcept_ensures fun p hpointer => hout p (outside_of_pointer hpointer)).bind ?_
  rintro p s ⟨-, rfl⟩
  split
  · exact .pure trivial
  · exact .pure trivial

/-- Once the loop has ended, bytes are handed out if there is room, or the request fails as the loop
did. -/
def Answers (h : Heap) (size : Nat) :
    Except HeapError Unit → Heap × Except HeapError PhysAddr → Prop
  | .ok (), r => r.1 = h.carve size
  | .error e, r => r = (h, .error e)

/-- **What a request takes is what the heap gains.** -/
structure Accounted (h : Heap) (size : UInt64) (s : Store A) (r : Heap × Except HeapError PhysAddr)
    (s' : Store A) : Prop where
  /-- The source is left alone if the last span has room, or the size is none. -/
  untouched : size = 0 ∨ 2 ^ 64 ≤ rounded size ∨ rounded size ≤ h.last.remaining →
    s'.source = s.source ∧ s'.memory = s.memory
  /-- Frames are taken one at a time, until the loop ends. -/
  grown : size ≠ 0 → rounded size < 2 ^ 64 → ∃ n h₁ s₁ e s₂, Takes (rounded size) n h s h₁ s₁ ∧
    Ends (rounded size) h₁ s₁ (h₁, e) s₂ ∧ s'.source = s₂.source ∧ s'.memory = s₂.memory ∧
    Answers h₁ (rounded size) e r
  total_le : h.total ≤ r.1.total
  /-- The free frames that are gone are pages of the heap. -/
  counted : available s = available s' + (r.1.total - h.total) / pageSize

lemma roundUp?_eq_none {size : UInt64} (hnone : roundUp? size.toNat = none) :
    2 ^ 64 ≤ rounded size := by
  rw [roundUp?] at hnone
  split at hnone
  case isTrue => cases hnone
  case isFalse hge => exact not_lt.mp hge

lemma lt_of_roundUp? {size : UInt64} (hsome : roundUp? size.toNat = some n) : n < 2 ^ 64 := by
  rw [roundUp?] at hsome
  split at hsome
  case isTrue hlt =>
    cases hsome
    exact hlt
  case isFalse => cases hsome

/-- A request that is refused at once takes nothing. -/
lemma Accounted.refused {size : UInt64} {e : HeapError}
    (hsize : size = 0 ∨ 2 ^ 64 ≤ rounded size) : Accounted h size s (h, .error e) s where
  untouched _ := ⟨rfl, rfl⟩
  grown hne hlt := (hsize.elim hne hlt.not_ge).elim
  total_le := Nat.le_refl _
  counted := by rw [Nat.sub_self, Nat.zero_div, Nat.add_zero]

/-- A request that lets the heap grow takes what the rounds take. -/
lemma Accounted.of_ends {size : UInt64} {e : Except HeapError Unit}
    {r : Heap × Except HeapError PhysAddr} (hpos : 0 < size.toNat) (hlt : rounded size < 2 ^ 64)
    (htook : Took n h s h₁ s₁) (htakes : Takes (rounded size) n h s h₁ s₁)
    (hends : Ends (rounded size) h₁ s₁ (h₁, e) s₂) (hsource : s'.source = s₂.source)
    (hmemory : s'.memory = s₂.memory)
    (hr : Answers h₁ (rounded size) e r) : Accounted h size s r s' := by
  have htotal : r.1.total = h.total + n * pageSize := by
    rw [← htook.total]
    rcases e with e | ⟨⟩
    · exact congrArg (fun r => total r.1) hr
    · exact (congrArg total hr).trans total_carve
  obtain ⟨-, hs₂, havailable⟩ := hends.kept htook.steady
  constructor
  case untouched =>
    intro hsize
    have hfits : rounded size ≤ h.last.remaining := by
      rcases hsize with rfl | hover | hfits
      · exact absurd hpos (Nat.lt_irrefl 0)
      · exact absurd hlt hover.not_gt
      · exact hfits
    obtain ⟨rfl, rfl⟩ := htakes.eq_of_fits hfits
    obtain rfl := hends.eq_of_fits hfits
    exact ⟨hsource, hmemory⟩
  case grown => exact fun _ _ => ⟨n, h₁, s₁, e, s₂, htakes, hends, hsource, hmemory, hr⟩
  case total_le => exact htotal ▸ Nat.le_add_right ..
  case counted =>
    rw [htotal, Nat.add_sub_cancel_left, Nat.mul_div_cancel _ (by decide),
      (CountedSource.of_eq hs₂ hsource hmemory).2, havailable, htook.available]

/-- A request is accounted for, and leaves the spans and the source in order. -/
lemma alloc_accounted (hb : Bounded h (CountedSource.limit A)) (hs : Steady s) (size : UInt64)
    (hover : CountedSource.limit A = 2 ^ 52 → excuse .addOverflow)
    (hout : ∀ p, Outside p → excuse p) :
    Ensures (h.alloc size) excuse s fun r s' => Accounted h size s r s' ∧
      Bounded r.1 (CountedSource.limit A) ∧ Steady s' := by
  rw [alloc]
  split
  case isTrue hzero => exact .pure ⟨.refused (.inl hzero), hb, hs⟩
  case isFalse hzero =>
    cases hround : roundUp? size.toNat with
    | none => exact .pure ⟨.refused (.inr (roundUp?_eq_none hround)), hb, hs⟩
    | some n =>
        have hlt := lt_of_roundUp? hround
        obtain rfl := rounded_eq_of_roundUp? hround
        have hpos : 0 < size.toNat := Nat.pos_of_ne_zero fun heq => hzero (UInt64.toNat.inj heq)
        refine (grow_takes hb hs hover).bind ?_
        rintro ⟨h', e⟩ s₂ ⟨n, h₁, s₁, htakes, hends⟩
        have htook := htakes.took hb hs
        obtain ⟨rfl, hs₂, -⟩ := hends.kept htook.steady
        rcases e with e | ⟨⟩
        · exact .pure ⟨.of_ends hpos hlt htook htakes hends rfl rfl rfl, htook.bounded, hs₂⟩
        · have hroom : rounded size ≤ h'.last.remaining := by
            cases hends
            assumption
          refine ((bump_halts htook.bounded CountedSource.limit_le (rounded_pos hpos) hroom
            hout).and (bump_ensures hroom)).mono ?_
          rintro r s' ⟨-, hsource, hmemory, hcarved⟩
          refine ⟨.of_ends hpos hlt htook htakes hends hsource hmemory hcarved.heap, ?_, ?_⟩
          · rw [hcarved.heap]
            exact htook.bounded.carve hroom
          · exact (CountedSource.of_eq hs₂ hsource hmemory).1

/-- A heap can be started while a frame is free. -/
lemma start_returns (hs : Steady s) (hfree : available s ≠ 0) :
    ∃ h s', start.run s = .ok (.ok h) s' := by
  obtain ⟨f?, s₁, halloc⟩ := CountedSource.alloc_returns hs
  cases f? with
  | none => exact absurd (CountedSource.alloc_none hs halloc).2.1 hfree
  | some f => exact ⟨{ last := { first := f } }, _, (run_bind halloc).trans rfl⟩

/-- **A heap that is in use**: it was started, and has been asked for bytes since, while others used
the source and memory as they liked. -/
inductive InUse : Heap → Store A → Prop
  | started {h : Heap} {s s' : Store A} : Steady s → start.run s = .ok (.ok h) s' → InUse h s'
  | asked {h : Heap} {s s' : Store A} {size : UInt64} {r : Heap × Except HeapError PhysAddr} :
      InUse h s → (h.alloc size).run s = .ok r s' → InUse r.1 s'
  | elsewhere {h : Heap} {s s' : Store A} : InUse h s → Steady s' → InUse h s'

/-- The spans of a heap in use end where its source ends, or before. -/
lemma InUse.bounded (hu : InUse h s) : Bounded h (CountedSource.limit A) ∧ Steady s := by
  induction hu with
  | @started h s s' hs hrun =>
      obtain ⟨f?, s₁, halloc⟩ := CountedSource.alloc_returns hs
      rw [start, run_bind halloc] at hrun
      cases f? with
      | none => cases hrun
      | some f =>
          obtain ⟨hs₁, hf, -⟩ := CountedSource.alloc_some hs halloc
          cases hrun
          exact ⟨bounded_start hf, (CountedSource.of_eq hs₁ (by rfl) (by rfl)).1⟩
  | @asked h s s' size r _ hrun ih =>
      have haccounted : Ensures (h.alloc size) anyPanic s _ :=
        alloc_accounted ih.1 ih.2 size (fun _ => trivial) fun _ _ => trivial
      exact (haccounted.of_ok hrun).2
  | elsewhere _ hs ih => exact ⟨ih.1, hs⟩

/-- **Growth ends, and every frame is accounted for.**  A request of a heap that is in use returns,
but for a sum of addresses that overflows where the source has the very last frame, or for bytes
outside memory.  Over a bitmap no sum overflows. -/
theorem growth_accounted :
    (∀ {A : Type} [FrameSource A] [CountedSource A] {h : Heap} {s : Store A} (size : UInt64),
      InUse h s →
        Ensures (h.alloc size)
          (fun p => p = .addOverflow ∧ CountedSource.limit A = 2 ^ 52 ∨ Outside p) s
          (Accounted h size s)) ∧
      ∀ {h : Heap} {s : Store Bitmap} (size : UInt64), InUse h s →
        Ensures (h.alloc size) Outside s fun r s' => Accounted h size s r s' ∧
          ∀ sp ∈ r.1.spans, sp.base.value.toNat + sp.length < 2 ^ 64 ∧ sp.used ≤ sp.length := by
  constructor
  · intro A _ _ h s size hu
    obtain ⟨hb, hs⟩ := hu.bounded
    exact (alloc_accounted hb hs size (fun hlimit => .inl ⟨rfl, hlimit⟩) fun _ => .inr).mono
      fun _ _ hafter => hafter.1
  · intro h s size hu
    obtain ⟨hb, hs⟩ := hu.bounded
    have hlimit : CountedSource.limit Bitmap < 2 ^ 52 := by decide
    refine (alloc_accounted hb hs size (fun heq => absurd heq hlimit.ne) fun _ => id).mono ?_
    rintro r s' ⟨haccounted, hb', -⟩
    exact ⟨haccounted, fun sp hsp => ⟨hb'.end_lt hlimit hsp, hb'.used_le sp hsp⟩⟩

/-- A heap of one frame that is asked for two, over a pool and over a bitmap with room for four. -/
theorem growth_accounted_sample :
    (∃ (h : Heap) (s : Store Pool), InUse h s ∧ h.last.remaining < rounded 8192 ∧
      Ensures (h.alloc 8192) (fun p => p = .addOverflow ∧ CountedSource.limit Pool = 2 ^ 52 ∨
        Outside p) s (Accounted h 8192 s)) ∧
      ∃ (h : Heap) (s : Store Bitmap), InUse h s ∧
        Ensures (h.alloc 8192) Outside s fun r s' => Accounted h 8192 s r s' ∧
          ∀ sp ∈ r.1.spans, sp.base.value.toNat + sp.length < 2 ^ 64 ∧ sp.used ≤ sp.length := by
  constructor
  · have hstart : start.run (Pool.sample 7) = .ok (.ok { last := { first := .ofNumber 1 } })
        { Pool.sample 7 with
          source := { free := (Pool.sample 7).source.free.tail, outstanding := 1 }
          log := #[.heapStarted (.ofNumber 1)] } := rfl
    have hsteady : Steady (Pool.sample 7) := ⟨∅, Pool.holds_sample (le_refl 7)⟩
    have hu := InUse.started hsteady hstart
    exact ⟨_, _, hu, by decide, growth_accounted.1 8192 hu⟩
  · have hspares : Region.Spares (Bitmap.reservation (Bitmap.managed [⟨0x1000, 0x3000, .usable⟩]))
        ⟨0x1000, 0x3000, .usable⟩ := by decide
    obtain ⟨event, hinstall⟩ := Bitmap.install_eq_some (m := { window := { offset := 0 } })
      (Bitmap.place?_cons_of_spares hspares []) (Bitmap.setAside_of_spares hspares) rfl rfl
    have hreached := Bitmap.Reached.installed ∅ hinstall (by decide)
    -- The first frame was not in the region; it is given back all the same.
    have hlt : (Address.ofNat 0x123 : PhysAddr).page.number < 4 := by decide
    obtain ⟨s, -, hsteady, hfree⟩ := hreached.available_of_free hlt
    obtain ⟨h, s', hstart⟩ := start_returns hsteady hfree
    have hu := InUse.started hsteady hstart
    exact ⟨h, s', hu, growth_accounted.2 8192 hu⟩

end KernelMemory.Heap
