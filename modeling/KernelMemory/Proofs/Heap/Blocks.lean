import KernelMemory.Proofs.Frames.Pool
import KernelMemory.Proofs.Heap.Spans

/-!
# What the heap hands out

The heap is one user of a source of frames among others.  Whatever all of them do, the blocks that
it hands out are aligned, lie in its spans and have no byte in common, because each begins where
the one before it ended or in a span of other frames.

* `Heap.Block` — bytes that were handed out.
* `Heap.Reached` — the states that the heap and the other users lead to.
* **`Heap.blocks_proper`** — what holds of the blocks and spans in all of them.
-/

namespace KernelMemory

/-- **A window maps a span**: its bytes appear one behind the other, none at the null address. -/
def Span.Mapped (sp : Span) (window : Window) : Prop :=
  ∀ d < sp.length, ∃ p, window.pointer (.ofNat (sp.base.value.toNat + d)) = .ok p ∧
    p.value ≠ 0 ∧ p.value.toNat = (window.address sp.base).value.toNat + d

/-- A window that does not begin at the null address maps the spans below its limit, if it does not
wrap around. -/
lemma Span.mapped_of_le {sp : Span} {window : Window} {frames : Nat}
    (hframes : window.frames? = some frames) (hsp : sp.first.number + sp.frames ≤ frames)
    (hnull : 0 < window.offset.toNat) (hwrap : window.offset.toNat + frames * pageSize ≤ 2 ^ 64) :
    sp.Mapped window := by
  intro d hd
  have hbase := Span.toNat_base sp
  simp only [Span.length, pageSize] at hd hbase hwrap
  have hvalue : (Address.ofNat (sp.base.value.toNat + d) : PhysAddr).value.toNat =
      sp.base.value.toNat + d := by
    rw [Address.ofNat, UInt64.toNat_ofNat']
    omega
  have haddress : ∀ pa : PhysAddr, pa.value.toNat < frames * pageSize →
      (window.address pa).value.toNat = window.offset.toNat + pa.value.toNat := by
    intro pa hpa
    simp only [pageSize] at hpa
    rw [Window.address, UInt64.toNat_add]
    omega
  have hlt : sp.base.value.toNat + d < frames * pageSize := by
    simp only [pageSize]
    omega
  refine ⟨window.address (.ofNat (sp.base.value.toNat + d)), ?_, fun heq => ?_, ?_⟩
  · rw [Window.pointer, hframes]
    exact if_pos (hvalue.trans_lt hlt)
  · have hzero := haddress _ (hvalue.trans_lt hlt)
    rw [heq, UInt64.toNat_zero] at hzero
    omega
  · rw [haddress _ (hvalue.trans_lt hlt), haddress _ (by omega), hvalue, Nat.add_assoc]

namespace Heap

/-! ## Blocks -/

/-- Bytes that were handed out: the size that was asked for, and the address of the first. -/
structure Block where
  size : UInt64
  address : PhysAddr
deriving DecidableEq, Repr

namespace Block

/-- The size in whole words. -/
def length (b : Block) : Nat :=
  rounded b.size

/-- The block lies in what a span has handed out. -/
def In (b : Block) (sp : Span) : Prop :=
  sp.base.value.toNat ≤ b.address.value.toNat ∧
    b.address.value.toNat + b.length ≤ sp.base.value.toNat + sp.used

/-- No byte lies in both blocks. -/
def Apart (b b' : Block) : Prop :=
  b.address.value.toNat + b.length ≤ b'.address.value.toNat ∨
    b'.address.value.toNat + b'.length ≤ b.address.value.toNat

end Block

/-- The block that a call has handed out, if it did. -/
def granted (size : UInt64) : Except HeapError PhysAddr → List Block
  | .ok address => [⟨size, address⟩]
  | .error _ => []

/-! ## States -/

/-- A heap, the store, the frames of the other users and the blocks that were handed out, oldest
first. -/
structure World (A : Type) where
  heap : Heap
  store : Store A
  others : Finset Frame
  blocks : List Block := []

/-- **The states that a heap and other users of its source lead to.** -/
inductive Reached {A : Type} [FrameSource A] [ExclusiveSource A] : World A → Prop
  | start {s s' : Store A} {others : Finset Frame} {heap : Heap} : Lent s others →
      Heap.start.run s = .ok (.ok heap) s' → Reached { heap, store := s', others }
  | alloc {w : World A} {size : UInt64} {r : Except HeapError PhysAddr} {heap : Heap}
      {s' : Store A} : Reached w → (w.heap.alloc size).run w.store = .ok (heap, r) s' →
      Reached { w with heap, store := s', blocks := w.blocks ++ granted size r }
  | free {w : World A} {pointer : VirtAddr} {s' : Store A} : Reached w →
      (w.heap.free pointer).run w.store = .ok () s' → Reached { w with store := s' }
  /-- Another user is given a frame. -/
  | take {w : World A} {f : Frame} {s' : Store A} : Reached w →
      (FrameSource.alloc : Action (Store A) _).run w.store = .ok (some f) s' →
      Reached { w with store := s', others := insert f w.others }
  /-- Another user is refused a frame. -/
  | refused {w : World A} {s' : Store A} : Reached w →
      (FrameSource.alloc : Action (Store A) _).run w.store = .ok none s' →
      Reached { w with store := s' }
  /-- Another user gives back a frame of its own. -/
  | give {w : World A} {f : Frame} {s' : Store A} : Reached w → f ∈ w.others →
      (FrameSource.free f : Action (Store A) _).run w.store = .ok () s' →
      Reached { w with store := s', others := w.others.erase f }
  /-- Anything may happen to the store that the source does not notice. -/
  | elsewhere {w : World A} {s' : Store A} : Reached w →
      s'.memory.window = w.store.memory.window → (∀ held, Lent w.store held → Lent s' held) →
      Reached { w with store := s' }

/-! ## The invariant -/

open KernelMemory.Action

variable {A : Type} [FrameSource A] [ExclusiveSource A] {w : World A} {s' : Store A}
  {h h' : Heap} {owned : Finset Frame} {b b' : Block} {sp sp' : Span} {n : Nat} {window : Window}

/-- The window maps all spans of the heap. -/
def Mapped (h : Heap) (window : Window) : Prop :=
  ∀ sp ∈ h.spans, sp.Mapped window

/-- Where the blocks are in the spans of a heap. -/
structure Filled (h : Heap) (blocks : List Block) : Prop where
  inside : ∀ b ∈ blocks, ∃ sp ∈ h.spans, b.In sp
  pos : ∀ b ∈ blocks, 0 < b.size.toNat
  aligned : ∀ b ∈ blocks, heapAlign ∣ b.address.value.toNat
  apart : blocks.Pairwise Block.Apart

/-- **The heap holds the frames of its spans, and the blocks are apart in them.** -/
structure World.Sound (w : World A) : Prop where
  beside : w.heap.Beside w.others w.store
  filled : Filled w.heap w.blocks
  used : w.heap.Mapped w.store.memory.window → w.heap.used = (w.blocks.map Block.length).sum

lemma Grown.mapped (hg : Grown h h') (hm : h'.Mapped window) : h.Mapped window := by
  intro sp hsp d hd
  obtain ⟨more, hmem⟩ := hg.span sp hsp
  refine hm _ hmem d (hd.trans_le ?_)
  exact Nat.mul_le_mul_right pageSize (Nat.le_add_right ..)

lemma Filled.grown {blocks : List Block} (hf : Filled h blocks) (hg : Grown h h') :
    Filled h' blocks where
  inside b hb := by
    obtain ⟨sp, hsp, hin⟩ := hf.inside b hb
    obtain ⟨more, hmem⟩ := hg.span sp hsp
    exact ⟨_, hmem, hin⟩
  pos := hf.pos
  aligned := hf.aligned
  apart := hf.apart

/-- A block stays where it is when more is handed out. -/
lemma inside_carve (hb : ∃ sp ∈ h.spans, b.In sp) : ∃ sp ∈ (h.carve n).spans, b.In sp := by
  obtain ⟨sp, hsp, hlow, hhigh⟩ := hb
  rcases mem_spans.mp hsp with rfl | hsp
  · exact ⟨_, mem_spans.mpr (.inl rfl), hlow,
      hhigh.trans (Nat.add_le_add_left (Nat.le_add_right ..) _)⟩
  · exact ⟨sp, mem_spans.mpr (.inr hsp), hlow, hhigh⟩

/-- The bytes of spans that are apart are apart. -/
lemma Block.In.apart (hb : b.In sp) (hb' : b'.In sp') (hsp : sp.Sound) (hsp' : sp'.Sound)
    (happart : sp.Apart sp') : b.Apart b' := by
  have hused := hsp.used_le
  have hused' := hsp'.used_le
  simp only [Block.In, Span.toNat_base, Span.length, pageSize] at hb hb' hused hused'
  simp only [Span.Apart] at happart
  simp only [Block.Apart]
  omega

/-- **The next bytes of the last span make a block** that is apart from all others. -/
theorem Filled.carve {blocks : List Block} {size : UInt64} (hf : Filled h blocks)
    (hs : Sound h owned) (hsize : 0 < size.toNat) (hroom : rounded size ≤ h.last.remaining) :
    Filled (h.carve (rounded size)) (blocks ++ [⟨size, h.next⟩]) := by
  have hs' := hs.carve (dvd_rounded size) hroom
  have hlast : (h.carve (rounded size)).last ∈ (h.carve (rounded size)).spans :=
    mem_spans.mpr (.inl rfl)
  have hnext := hs.toNat_next ((rounded_pos hsize).trans_le hroom)
  have hnew : Block.In ⟨size, h.next⟩ (h.carve (rounded size)).last := by
    change h.last.base.value.toNat ≤ h.next.value.toNat ∧ h.next.value.toNat + rounded size ≤
      h.last.base.value.toNat + (h.last.used + rounded size)
    omega
  constructor
  case inside =>
    rw [List.forall_mem_append, List.forall_mem_singleton]
    exact ⟨fun b hb => inside_carve (hf.inside b hb), _, hlast, hnew⟩
  case pos =>
    rw [List.forall_mem_append, List.forall_mem_singleton]
    exact ⟨hf.pos, hsize⟩
  case aligned =>
    rw [List.forall_mem_append, List.forall_mem_singleton]
    refine ⟨hf.aligned, ?_⟩
    change heapAlign ∣ h.next.value.toNat
    rw [hnext, Span.toNat_base]
    exact Nat.dvd_add (Nat.dvd_mul_left_of_dvd (by decide) _)
      (hs.span _ (mem_spans.mpr (.inl rfl))).used_dvd
  case apart =>
    refine List.pairwise_append.mpr ⟨hf.apart, List.pairwise_singleton .., fun b hb b' hb' => ?_⟩
    obtain rfl := List.mem_singleton.mp hb'
    obtain ⟨sp, hsp, hin⟩ := hf.inside b hb
    rcases mem_spans.mp hsp with rfl | hsp
    · exact .inl (hin.2.trans_eq hnext.symm)
    · have happart := (List.pairwise_cons.mp hs'.apart).1 sp hsp
      exact hin.apart hnew (hs'.span sp (mem_spans.mpr (.inr hsp))) (hs'.span _ hlast) happart.symm

lemma Mapped.of_carve (hm : (h.carve n).Mapped window) : h.Mapped window := by
  intro sp hsp
  rcases mem_spans.mp hsp with rfl | hsp
  · exact hm (h.carve n).last (mem_spans.mpr (.inl rfl))
  · exact hm sp (mem_spans.mpr (.inr hsp))

/-- A window that maps the last span shows its next byte, and not at the null address. -/
lemma Mapped.next (hm : h.Mapped window) (hroom : 0 < h.last.remaining) :
    ∃ p, window.pointer h.next = .ok p ∧ p.value ≠ 0 := by
  have hlt : h.last.used < h.last.length := Nat.lt_of_sub_pos hroom
  obtain ⟨p, hp, hnull, -⟩ := hm _ (mem_spans.mpr (.inl rfl)) h.last.used hlt
  exact ⟨p, hp, hnull⟩

/-- **A call of the heap** keeps the blocks apart, whatever comes of it. -/
theorem World.Sound.alloc {size : UInt64} {r : Except HeapError PhysAddr} (hw : w.Sound)
    (hrun : (w.heap.alloc size).run w.store = .ok (h, r) s') :
    World.Sound { w with heap := h, store := s', blocks := w.blocks ++ granted size r } := by
  obtain ⟨hbeside, hwindow, h', hgrown, hend⟩ := (alloc_ensures hw.beside size).of_ok hrun
  have hfilled := hw.filled.grown hgrown
  have hused : h'.Mapped w.store.memory.window → h'.used = (w.blocks.map Block.length).sum :=
    fun hm => hgrown.used.trans (hw.used (hgrown.mapped hm))
  rcases hend with ⟨rfl, e, rfl⟩ | ⟨hsize, ⟨owned, hs⟩, hroom, rfl, p, hp, rfl⟩
  · refine ⟨hbeside, ?_, fun hm => ?_⟩
    · rwa [granted, List.append_nil]
    · rw [granted, List.append_nil]
      exact hused (hwindow ▸ hm)
  · have hpos := (rounded_pos hsize).trans_le hroom
    split
    -- The bytes are gone, although they were not handed out; but then a byte is mapped to null.
    case isTrue hnull =>
      have hkept : Filled (h'.carve (rounded size)) w.blocks :=
        ⟨fun b hb => inside_carve (hfilled.inside b hb), hfilled.pos, hfilled.aligned,
          hfilled.apart⟩
      refine ⟨hbeside, ?_, fun hm => ?_⟩
      · rwa [granted, List.append_nil]
      · obtain ⟨p', hp', hnonnull⟩ := Mapped.next (hwindow ▸ hm.of_carve) hpos
        rw [hp] at hp'
        cases hp'
        exact absurd hnull hnonnull
    case isFalse hnull =>
      refine ⟨hbeside, hfilled.carve hs hsize hroom, fun hm => ?_⟩
      rw [granted, List.map_append, List.sum_append, used_carve, hused (hwindow ▸ hm.of_carve)]
      simp [Block.length]

/-- What the other users do is no concern of the heap. -/
lemma World.Sound.beside_others {others : Finset Frame} (hw : w.Sound)
    (hbeside : w.heap.Beside others s') (hwindow : s'.memory.window = w.store.memory.window) :
    World.Sound { w with store := s', others } where
  beside := hbeside
  filled := hw.filled
  used hm := hw.used (hwindow ▸ hm)

/-- **The heap and its blocks stay sound**, whatever the users of the source do. -/
theorem Reached.sound (hw : Reached w) : w.Sound := by
  induction hw with
  | start hlent hrun =>
      obtain ⟨hbeside, hused⟩ := (start_ensures hlent).of_ok hrun _ rfl
      exact ⟨hbeside, ⟨by simp, by simp, by simp, .nil⟩, fun _ => hused⟩
  | alloc _ hrun ih => exact ih.alloc hrun
  | free _ hrun ih =>
      obtain ⟨hsource, hmemory⟩ := (free_ensures _).of_ok hrun
      exact ih.beside_others (ih.beside.of_eq hsource hmemory) (hmemory ▸ rfl)
  | @take w f s' _ hrun ih =>
      obtain ⟨owned, hs, hdisjoint, hlent⟩ := ih.beside
      obtain ⟨hf, hlent', hwindow⟩ := ExclusiveSource.alloc_some hlent hrun
      refine ih.beside_others ⟨owned, hs, ?_, ?_⟩ hwindow
      · refine Finset.disjoint_insert_right.mpr ⟨fun hin => hf ?_, hdisjoint⟩
        exact Finset.mem_union_left _ hin
      · rwa [Finset.union_insert]
  | refused _ hrun ih =>
      obtain ⟨owned, hs, hdisjoint, hlent⟩ := ih.beside
      obtain ⟨hlent', hwindow⟩ := ExclusiveSource.alloc_none hlent hrun
      exact ih.beside_others ⟨owned, hs, hdisjoint, hlent'⟩ hwindow
  | give _ hf hrun ih =>
      obtain ⟨owned, hs, hdisjoint, hlent⟩ := ih.beside
      obtain ⟨hlent', hwindow⟩ :=
        ExclusiveSource.free_other hlent hf (Finset.disjoint_right.mp hdisjoint hf) hrun
      refine ih.beside_others ⟨owned, hs, ?_, hlent'⟩ hwindow
      exact hdisjoint.mono_right (Finset.erase_subset ..)
  | elsewhere _ hwindow hlent ih =>
      obtain ⟨owned, hs, hdisjoint, hheld⟩ := ih.beside
      exact ih.beside_others ⟨owned, hs, hdisjoint, hlent _ hheld⟩ hwindow

/-! ## What it says -/

/-- A block that is given back is found in its span. -/
lemma contains_of_in (hm : h.Mapped window) (hs : Sound h owned) (hsp : sp ∈ h.spans)
    (hin : b.In sp) (hpos : 0 < b.length) : ∃ p, window.pointer b.address = .ok p ∧
      p.value ≠ 0 ∧ h.contains window p = .ok true := by
  obtain ⟨hlow, hhigh⟩ := hin
  have hused := (hs.span sp hsp).used_le
  have hbase : ∀ sp ∈ h.spans, window.pointer sp.base = .ok (window.address sp.base) := by
    intro sp hsp
    obtain ⟨p, hp, -, hvalue⟩ := hm sp hsp 0 (Nat.mul_pos (hs.span sp hsp).pos (by decide))
    rw [Nat.add_zero, Address.ofNat_toNat] at hp
    rw [hp]
    exact congrArg _ (Address.ext (UInt64.toNat.inj hvalue))
  obtain ⟨d, hd⟩ := Nat.exists_eq_add_of_le hlow
  have hdlt : d < sp.length := by omega
  obtain ⟨p, hp, hnull, hvalue⟩ := hm sp hsp d hdlt
  rw [← hd, Address.ofNat_toNat] at hp
  have htest : ∀ sp ∈ h.spans, (do
      let start := (← window.pointer sp.base).value.toNat
      return start ≤ p.value.toNat && p.value.toNat - start < sp.length) =
        Except.ok (ε := Panic) (decide ((window.address sp.base).value.toNat ≤ p.value.toNat) &&
          decide (p.value.toNat - (window.address sp.base).value.toNat < sp.length)) := by
    intro sp hsp
    rw [hbase sp hsp]
    rfl
  refine ⟨p, hp, hnull, Checked.anyM_eq_true (fun sp' hsp' => ⟨_, htest sp' hsp'⟩) hsp ?_⟩
  rw [htest sp hsp, Except.ok.injEq, Bool.and_eq_true, decide_eq_true_iff, decide_eq_true_iff]
  omega

/-- **What holds of a heap in use**, as far as the window maps its spans. -/
structure World.Proper (w : World A) : Prop where
  /-- A block begins at a multiple of eight. -/
  aligned : ∀ b ∈ w.blocks, 8 ∣ b.address.value.toNat
  /-- A block lies in one span. -/
  inside : ∀ b ∈ w.blocks, ∃ sp ∈ w.heap.spans,
    sp.base.value.toNat ≤ b.address.value.toNat ∧
      b.address.value.toNat + b.length ≤ sp.base.value.toNat + sp.length
  /-- No byte lies in two blocks. -/
  apart : w.blocks.Pairwise Block.Apart
  few : w.heap.spans.length ≤ maxSpans
  /-- A span is a run of whole frames, of which whole words have been handed out. -/
  spans : ∀ sp ∈ w.heap.spans, sp.Sound
  /-- No frame lies in two spans. -/
  spans_apart : w.heap.spans.Pairwise Span.Apart
  /-- The heap took the frames of its spans, and no others. -/
  owned : ∃ owned, Lent w.store (owned ∪ w.others) ∧ Disjoint owned w.others ∧
    ∀ f, f ∈ owned ↔ ∃ sp ∈ w.heap.spans, sp.Covers f
  used : w.heap.used = (w.blocks.map Block.length).sum
  /-- A block can be given back, which is only taken note of. -/
  free : ∀ b ∈ w.blocks, ∃ p, w.store.memory.window.pointer b.address = .ok p ∧ p.value ≠ 0 ∧
    (w.heap.free p).run w.store =
      .ok () { w.store with log := w.store.log.push (.heapFreeIgnored p) }

/-- **Blocks of the heap are aligned, owned and apart.**  The heap may have been asked for any
sizes, and other users may have taken and given back frames in between, as long as the source never
hands out a frame that is still held, and the window maps the spans. -/
theorem blocks_proper (hw : Reached w) (hm : w.heap.Mapped w.store.memory.window) : w.Proper := by
  obtain ⟨⟨owned, hs, hdisjoint, hlent⟩, hfilled, hused⟩ := hw.sound
  constructor
  case aligned => exact hfilled.aligned
  case inside =>
    intro b hb
    obtain ⟨sp, hsp, hlow, hhigh⟩ := hfilled.inside b hb
    exact ⟨sp, hsp, hlow, hhigh.trans (Nat.add_le_add_left (hs.span sp hsp).used_le _)⟩
  case apart => exact hfilled.apart
  case few =>
    rw [spans, List.length_reverse]
    exact hs.few
  case spans => exact hs.span
  case spans_apart => exact List.pairwise_reverse.mpr (hs.apart.imp Span.Apart.symm)
  case owned => exact ⟨owned, hlent, hdisjoint, fun f => hs.mem_owned⟩
  case used => exact hused hm
  case free =>
    intro b hb
    obtain ⟨sp, hsp, hin⟩ := hfilled.inside b hb
    obtain ⟨p, hp, hnull, hcontains⟩ :=
      contains_of_in hm hs hsp hin (rounded_pos (hfilled.pos b hb))
    refine ⟨p, hp, hnull, ?_⟩
    rw [free, run_bind (Store.run_lookup hcontains)]
    rfl

/-- A memory with seven free frames, of which the first few were handed out. -/
def sample (taken : Nat) (log : Array Log.Event) : Store Pool :=
  { Pool.sample 7 with
    source := { free := (Pool.sample 7).source.free.drop taken, outstanding := taken }
    log }

/-- Another user takes the frame behind the first span, so that a second span is begun. -/
theorem blocks_proper_sample : ∃ w : World Pool, Reached w ∧
    w.blocks = [⟨1, ⟨0x1000⟩⟩, ⟨4090, ⟨0x3000⟩⟩] ∧ w.others = {.ofNumber 2} ∧ w.Proper := by
  have hstart : start.run (Pool.sample 7) = .ok (.ok { last := { first := .ofNumber 1 } })
      (sample 1 #[.heapStarted (.ofNumber 1)]) := rfl
  have hfirst : (alloc { last := { first := .ofNumber 1 } } 1).run
      (sample 1 #[.heapStarted (.ofNumber 1)]) =
        .ok ({ last := { first := .ofNumber 1, used := 8 } }, .ok ⟨0x1000⟩)
          (sample 1 #[.heapStarted (.ofNumber 1), .heapAllocated 8 ⟨0x1000⟩]) := by
    -- Growing does not compute, since its recursion is well-founded; it is opened step by step.
    change (grow { last := { first := .ofNumber 1 } } 8 >>= _).run _ = _
    rw [grow]
    rfl
  have htake : (FrameSource.alloc : Action (Store Pool) _).run
      (sample 1 #[.heapStarted (.ofNumber 1), .heapAllocated 8 ⟨0x1000⟩]) = .ok (some (.ofNumber 2))
        (sample 2 #[.heapStarted (.ofNumber 1), .heapAllocated 8 ⟨0x1000⟩]) := rfl
  have hsecond : (alloc { last := { first := .ofNumber 1, used := 8 } } 4090).run
      (sample 2 #[.heapStarted (.ofNumber 1), .heapAllocated 8 ⟨0x1000⟩]) =
        .ok ({ last := { first := .ofNumber 3, used := 4096 },
               earlier := [{ first := .ofNumber 1, used := 8 }] }, .ok ⟨0x3000⟩)
          (sample 3 #[.heapStarted (.ofNumber 1), .heapAllocated 8 ⟨0x1000⟩,
            .heapSpanAdded (.ofNumber 3) 2, .heapAllocated 4096 ⟨0x3000⟩]) := by
    change (grow { last := { first := .ofNumber 1, used := 8 } } 4096 >>= _).run _ = _
    rw [grow]
    change (grow { last := { first := .ofNumber 3 }, earlier := _ } 4096 >>= _).run _ = _
    rw [grow]
    rfl
  have hlent := LawfulSource.lent (Pool.holds_sample (le_refl 7))
  have hreached := (((Reached.start hlent hstart).alloc hfirst).take htake).alloc hsecond
  refine ⟨_, hreached, rfl, rfl, blocks_proper hreached fun sp hsp => ?_⟩
  refine Span.mapped_of_le (show _ = some 8 from rfl) ?_ (by decide) (by decide)
  rcases mem_spans.mp hsp with rfl | hsp
  · decide
  · obtain rfl := List.mem_singleton.mp hsp
    decide

end Heap

end KernelMemory
