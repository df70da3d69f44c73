import KernelMemory.Frames.Bitmap
import KernelMemory.Proofs.Frames.Lawful
import Mathlib.Data.Finset.Image
import Mathlib.Data.List.Find

/-!
# The bitmap is well-behaved

A bitmap keeps its books in memory: one bit for each frame that it manages.  They are in order if
there is a bit for every frame, every frame that is free or held can be used and holds no bits
itself, and the bits of the frames that are held are set.

* `Bitmap.taken_take`, `Bitmap.taken_release` — one bit is set or cleared, and no other.
* `Bitmap.findFree?_eq_find?` — the scan by words is a scan by bits.
* **`Bitmap.instLawfulSource`**, **`Bitmap.instRestoringSource`** — the laws.
-/

namespace KernelMemory.Bitmap

/-! ## Bits of a word -/

section

variable {w : UInt64} {i j : Nat}

lemma testBit_toNat_ofNat (hi : i < wordBits) :
    (UInt64.ofNat (2 ^ i)).toNat.testBit j = decide (i = j) := by
  have hlt : 2 ^ i < 2 ^ 64 := Nat.pow_lt_pow_right (by decide) hi
  rw [UInt64.toNat_ofNat_of_lt' hlt, Nat.testBit_two_pow]

lemma testBit_set (hi : i < wordBits) :
    (w ||| UInt64.ofNat (2 ^ i)).toNat.testBit j = (w.toNat.testBit j || decide (i = j)) := by
  rw [UInt64.toNat_or, Nat.testBit_or, testBit_toNat_ofNat hi]

/-- A bit is cleared. -/
lemma testBit_clear (hi : i < wordBits) :
    (w &&& ~~~ UInt64.ofNat (2 ^ i)).toNat.testBit j = (w.toNat.testBit j && !decide (i = j)) := by
  have hnot : (~~~ UInt64.ofNat (2 ^ i)).toNat = 2 ^ 64 - ((UInt64.ofNat (2 ^ i)).toNat + 1) := by
    rw [UInt64.toNat_not]
    change 2 ^ 64 - 1 - _ = _
    omega
  rw [UInt64.toNat_and, Nat.testBit_and, hnot, Nat.testBit_two_pow_sub_succ (UInt64.toNat_lt _),
    testBit_toNat_ofNat hi]
  rcases lt_or_ge j 64 with hj | hj
  · simp [hj]
  · have hlt : w.toNat < 2 ^ j := w.toNat_lt.trans_le (Nat.pow_le_pow_right (by decide) hj)
    simp [Nat.testBit_lt_two_pow hlt]

/-- A bit that was clear is cleared again. -/
lemma clear_set (hi : i < wordBits) (hclear : w.toNat.testBit i = false) :
    (w ||| UInt64.ofNat (2 ^ i)) &&& ~~~ UInt64.ofNat (2 ^ i) = w := by
  refine UInt64.toNat.inj (Nat.eq_of_testBit_eq fun j => ?_)
  rw [testBit_clear hi, testBit_set hi]
  rcases eq_or_ne i j with rfl | hne
  · simp [hclear]
  · simp [hne]

end

/-! ## Bits in memory -/

/-- The bits of a bitmap can be told apart. -/
structure Placed (b : Bitmap) : Prop where
  /-- There is a bit for every frame. -/
  covers : b.frames ≤ b.words * wordBits
  /-- The words do not run over the end of physical memory. -/
  room {k : Nat} : k < b.words → b.home.number + k / tableEntries < 2 ^ 52

/-- The bits of a bitmap can be told apart, and each belongs to a frame of its own. -/
structure Sized (b : Bitmap) : Prop extends Placed b where
  /-- There is a frame for every bit. -/
  narrow : b.frames ≤ 2 ^ 52

/-- A frame holds bits of the bitmap. -/
def HasBits (b : Bitmap) (f : Frame) : Prop :=
  ∃ k < b.words, (b.slot k).table = f

variable {b : Bitmap} {m m' : Memory} {n n' k k' : Nat} {w : UInt64} {f : Frame}

lemma word_lt (hn : n < b.words * wordBits) : n / wordBits < b.words :=
  (Nat.div_lt_iff_lt_mul (by decide)).mpr hn

lemma Placed.bit_lt (hb : b.Placed) (hn : n < b.frames) : n < b.words * wordBits :=
  hn.trans_le hb.covers

lemma Placed.isInitialized (hb : b.Placed) (hn : n < b.frames) : b.isInitialized = true := by
  rw [Bitmap.isInitialized, bne_iff_ne]
  intro hzero
  have := hb.covers
  rw [hzero, Nat.zero_mul] at this
  omega

/-- Each word has a place of its own. -/
lemma Placed.slot_inj (hb : b.Placed) (hk : k < b.words) (hk' : k' < b.words)
    (heq : b.slot k = b.slot k') : k = k' := by
  have htable := congrArg (fun t : Slot => t.table.number) heq
  have hindex := congrArg (fun t : Slot => t.index.val) heq
  simp only [slot, Page.number_ofNumber (hb.room hk), Page.number_ofNumber (hb.room hk')] at htable
  simp only [slot] at hindex
  have := Nat.div_add_mod k tableEntries
  have := Nat.div_add_mod k' tableEntries
  rw [Nat.add_left_cancel htable, hindex] at *
  omega

/-- What is written to a word is seen in the bits of that word and nowhere else. -/
lemma Placed.taken_setWord (hb : b.Placed) (hn : n < b.words * wordBits)
    (hn' : n' < b.words * wordBits) :
    b.taken (m.setWord (b.slot (n / wordBits)) w) n' =
      if n / wordBits = n' / wordBits then w.toNat.testBit (n' % wordBits) else b.taken m n' := by
  rw [taken, bits, Memory.word_setWord]
  by_cases hword : n / wordBits = n' / wordBits
  · rw [if_pos hword, if_pos (congrArg b.slot hword)]
  · rw [if_neg hword, if_neg fun heq => hword (hb.slot_inj (word_lt hn) (word_lt hn') heq)]
    rfl

lemma mod_eq_iff (hword : n / wordBits = n' / wordBits) :
    n % wordBits = n' % wordBits ↔ n = n' := by
  simp only [wordBits] at hword ⊢
  omega

/-- **Taking a frame** sets its bit and no other. -/
theorem Placed.taken_take (hb : b.Placed) (hn : n < b.words * wordBits)
    (hn' : n' < b.words * wordBits) :
    b.taken (b.take m n) n' = false ↔ n ≠ n' ∧ b.taken m n' = false := by
  rw [take, hb.taken_setWord hn hn', testBit_set (Nat.mod_lt _ (by decide))]
  split
  case isTrue hword =>
    rw [Bool.or_eq_false_iff, decide_eq_false_iff_not, hword, mod_eq_iff hword, and_comm]
    rfl
  case isFalse hword =>
    exact ⟨fun hclear => ⟨fun heq => hword (congrArg (· / wordBits) heq), hclear⟩, And.right⟩

/-- **Releasing a frame** clears its bit and no other. -/
theorem Placed.taken_release (hb : b.Placed) (hn : n < b.words * wordBits)
    (hn' : n' < b.words * wordBits) :
    b.taken (b.release m n) n' = false ↔ n = n' ∨ b.taken m n' = false := by
  rw [release, hb.taken_setWord hn hn', testBit_clear (Nat.mod_lt _ (by decide))]
  split
  case isTrue hword =>
    rw [Bool.and_eq_false_iff, Bool.not_eq_false', decide_eq_true_iff, hword, mod_eq_iff hword,
      or_comm]
    rfl
  case isFalse hword =>
    exact ⟨.inr, fun hor => hor.resolve_left fun heq => hword (congrArg (· / wordBits) heq)⟩

lemma agreesOn_setWord (hn : n < b.words * wordBits) :
    m.AgreesOn (fun f => ¬ b.HasBits f) (m.setWord (b.slot (n / wordBits)) w) := by
  refine ⟨rfl, fun t ht => ?_⟩
  rw [Memory.word_setWord, if_neg]
  rintro rfl
  exact ht ⟨_, word_lt hn, rfl⟩

/-- Releasing a frame that has just been taken leaves all bits as they were. -/
lemma agreesOn_release_take (hfree : b.taken m n = false)
    (hsame : (b.take m n).AgreesOn b.HasBits m') : m.AgreesOn b.HasBits (b.release m' n) := by
  refine ⟨hsame.window, fun t ht => ?_⟩
  rw [release, Memory.word_setWord]
  split
  case isTrue hslot =>
    rw [hslot, hsame.word t ht, take, Memory.word_setWord, if_pos hslot, hslot]
    rw [taken, bits, hslot] at hfree
    exact clear_set (Nat.mod_lt _ (by decide)) hfree
  case isFalse hslot => rw [hsame.word t ht, take, Memory.word_setWord, if_neg hslot]

lemma taken_congr (hsame : m.AgreesOn b.HasBits m') (hn : n < b.words * wordBits) :
    b.taken m' n = b.taken m n := by
  rw [taken, bits, hsame.word _ ⟨_, word_lt hn, rfl⟩]
  rfl

/-! ## The lowest free frame -/

/-- The bits of a word are those of its frames. -/
lemma taken_add {i : Nat} (hi : i < wordBits) :
    b.taken m (k * wordBits + i) = (b.bits m k).testBit i := by
  have hword : (k * wordBits + i) / wordBits = k := by
    simp only [wordBits] at hi ⊢
    omega
  have hbit : (k * wordBits + i) % wordBits = i := by
    simp only [wordBits] at hi ⊢
    omega
  rw [taken, hword, hbit]

/-- **The scan by words finds what a scan by bits finds.** -/
theorem findFree?_eq_find? {count : Nat} : b.findFree? m k count =
    (List.range' (k * wordBits) (count * wordBits)).find? fun n => !b.taken m n := by
  induction count generalizing k with
  | zero => simp [findFree?]
  | succ count ih =>
      have hsplit : List.range' (k * wordBits) ((count + 1) * wordBits) =
          (List.range wordBits).map (k * wordBits + ·) ++
            List.range' ((k + 1) * wordBits) (count * wordBits) := by
        rw [Nat.succ_mul k, ← List.range'_eq_map_range, List.range'_append_1, Nat.succ_mul,
          Nat.add_comm]
      have hword : ((List.range wordBits).map (k * wordBits + ·)).find? (fun n => !b.taken m n) =
          (lowestClear? (b.bits m k) wordBits).map (k * wordBits + ·) := by
        rw [lowestClear?_eq_find?, List.find?_map]
        congr 1
        refine List.find?_congr fun i hi => ?_
        rw [Function.comp_apply, taken_add (List.mem_range.mp hi)]
      rw [findFree?, hsplit, List.find?_append, hword, ← ih]
      cases lowestClear? (b.bits m k) wordBits <;> rfl

lemma lowestFree?_spec (hfind : b.lowestFree? m = some n) :
    n < b.frames ∧ b.taken m n = false := by
  rw [lowestFree?, Option.filter_eq_some_iff, findFree?_eq_find?] at hfind
  exact ⟨of_decide_eq_true hfind.2, by simpa using List.find?_some hfind.1⟩

/-- The scan finds a frame if one is free. -/
lemma Placed.lowestFree?_isSome (hb : b.Placed) (hn : n < b.frames)
    (hfree : b.taken m n = false) : (b.lowestFree? m).isSome = true := by
  rw [lowestFree?, findFree?_eq_find?]
  cases hfind : (List.range' (0 * wordBits) (b.words * wordBits)).find? fun n => !b.taken m n with
  | none =>
      have hall := List.find?_eq_none.mp hfind n (by
        rw [List.mem_range'_1]
        have := hb.bit_lt hn
        omega)
      simp [hfree] at hall
  | some n' =>
      obtain ⟨-, -, hlowest⟩ := List.find?_range'_eq_some.mp hfind
      have hle : n' ≤ n := by
        by_contra hlt
        have := hlowest n (by omega) (by omega)
        simp [hfree] at this
      rw [Option.filter_some, if_pos (decide_eq_true (hle.trans_lt hn))]
      rfl

/-! ## Handing frames out and taking them back -/

open KernelMemory.Action

/-- The books of a bitmap are in order. -/
structure InOrder (s : Store Bitmap) (held : Finset Frame) : Prop where
  /-- The bits can be told apart. -/
  sized : s.source.Sized
  /-- A frame that is free or held can be named by an entry and used, and holds no bits. -/
  usable {f : Frame} : f.number < s.source.frames →
    s.source.taken s.memory f.number = false ∨ f ∈ held →
      f.number < 2 ^ 40 ∧ s.memory.Shows f ∧ ¬ s.source.HasBits f
  /-- A frame that is held is managed and taken. -/
  held {f : Frame} : f ∈ held → f.number < s.source.frames ∧ s.source.taken s.memory f.number = true

/-- The frames that are managed and not taken. -/
def freeSet (s : Store Bitmap) : Finset Frame :=
  ((Finset.range s.source.frames).filter fun n => s.source.taken s.memory n = false).image
    Page.ofNumber

variable {s s' : Store Bitmap} {held : Finset Frame}

lemma Sized.mem_freeSet (hb : s.source.Sized) :
    f ∈ freeSet s ↔ f.number < s.source.frames ∧ s.source.taken s.memory f.number = false := by
  simp only [freeSet, Finset.mem_image, Finset.mem_filter, Finset.mem_range]
  constructor
  · rintro ⟨n, hn, rfl⟩
    have hlt : n < 2 ^ 52 := hn.1.trans_le hb.narrow
    rwa [Page.number_ofNumber hlt]
  · exact fun hf => ⟨f.number, hf, Page.ofNumber_number f⟩

lemma InOrder.usable_of_free (h : InOrder s held) (hf : f ∈ freeSet s) :
    f.number < 2 ^ 40 ∧ s.memory.Shows f ∧ ¬ s.source.HasBits f := by
  obtain ⟨hlt, hclear⟩ := h.sized.mem_freeSet.mp hf
  exact h.usable hlt (.inl hclear)

/-- A bitmap looks at nothing but its bits and at which frames are shown. -/
lemma InOrder.congr (h : InOrder s held) (hsource : s'.source = s.source)
    (hsame : s.memory.AgreesOn s.source.HasBits s'.memory) :
    InOrder s' held ∧ freeSet s' = freeSet s := by
  have htaken : ∀ {n}, n < s.source.frames →
      s'.source.taken s'.memory n = s.source.taken s.memory n := by
    intro n hn
    rw [hsource]
    exact taken_congr hsame (h.sized.bit_lt hn)
  have hb : s'.source.Sized := hsource ▸ h.sized
  refine ⟨⟨hb, fun hf hor => ?_, fun hf => ?_⟩, ?_⟩
  · rw [hsource] at hf
    rw [htaken hf] at hor
    obtain ⟨hnumber, hshown, hbits⟩ := h.usable hf hor
    rw [hsource]
    exact ⟨hnumber, hshown.of_window hsame.window, hbits⟩
  · obtain ⟨hlt, hset⟩ := h.held hf
    rw [htaken hlt, hsource]
    exact ⟨hlt, hset⟩
  · ext f
    rw [hb.mem_freeSet, h.sized.mem_freeSet, hsource]
    refine and_congr_right fun hf => ?_
    rw [taken_congr hsame (h.sized.bit_lt hf)]

/-- A request is refused, and nothing changes, or it takes a free frame. -/
lemma Sized.run_alloc (hb : s.source.Sized) :
    (FrameSource.alloc : Action (Store Bitmap) _).run s = .ok none s ∨
      ∃ f, f ∈ freeSet s ∧ (FrameSource.alloc : Action (Store Bitmap) _).run s =
        .ok (some f) { s with memory := s.source.take s.memory f.number } := by
  have hrun : ∀ {r s'}, allocate.run s = .ok r s' →
      (FrameSource.alloc : Action (Store Bitmap) _).run s = .ok r.toOption s' := by
    intro r s' hallocate
    change EStateM.run (allocate >>= fun r => Pure.pure r.toOption) s = _
    rw [run_bind hallocate]
    rfl
  by_cases hinit : s.source.isInitialized
  case neg => exact .inl (hrun (if_neg hinit))
  cases hfind : s.source.lowestFree? s.memory with
  | none =>
      have hallocate : allocate.run s = .ok (.error .outOfMemory) s := by
        rw [EStateM.run, allocate, if_pos hinit, hfind]
      exact .inl (hrun hallocate)
  | some n =>
      obtain ⟨hn, hfree⟩ := lowestFree?_spec hfind
      have hnumber : (Page.ofNumber n : Frame).number = n :=
        Page.number_ofNumber (hn.trans_le hb.narrow)
      have hallocate : allocate.run s =
          .ok (.ok (.ofNumber n)) { s with memory := s.source.take s.memory n } := by
        rw [EStateM.run, allocate, if_pos hinit, hfind]
      refine .inr ⟨.ofNumber n, ?_, ?_⟩
      · rw [hb.mem_freeSet, hnumber]
        exact ⟨hn, hfree⟩
      · rw [hnumber]
        exact hrun hallocate

lemma Sized.eq_of_alloc_none (hb : s.source.Sized)
    (hrun : (FrameSource.alloc : Action (Store Bitmap) _).run s = .ok none s') : s' = s := by
  rcases hb.run_alloc with hrun' | ⟨f, -, hrun'⟩
  · rw [hrun'] at hrun
    cases hrun
    rfl
  · rw [hrun'] at hrun
    cases hrun

lemma Sized.of_alloc_some (hb : s.source.Sized)
    (hrun : (FrameSource.alloc : Action (Store Bitmap) _).run s = .ok (some f) s') :
    f ∈ freeSet s ∧ s' = { s with memory := s.source.take s.memory f.number } := by
  rcases hb.run_alloc with hrun' | ⟨g, hg, hrun'⟩
  · rw [hrun'] at hrun
    cases hrun
  · rw [hrun'] at hrun
    cases hrun
    exact ⟨hg, rfl⟩

/-- A frame that is held can be given back. -/
lemma InOrder.run_free (h : InOrder s held) (hf : f ∈ held) :
    (FrameSource.free f : Action (Store Bitmap) _).run s =
      .ok () { s with memory := s.source.release s.memory f.number } := by
  obtain ⟨hlt, hset⟩ := h.held hf
  have hinit := h.sized.isInitialized hlt
  have hfree : (Bitmap.free f.base).run s =
      .ok () { s with memory := s.source.release s.memory f.number } := by
    rw [Bitmap.free, run_bind (EStateM.run_get s)]
    simp only [Address.page_base]
    rw [if_neg (by simp [hinit]), if_neg (Nat.not_le.mpr hlt), if_pos hset]
    rfl
  exact hfree

/-- The books are in order once a free frame is held. -/
lemma InOrder.take (h : InOrder s held) (hf : f.number < s.source.frames)
    (hfree : s.source.taken s.memory f.number = false) :
    InOrder { s with memory := s.source.take s.memory f.number } (insert f held) ∧
      freeSet { s with memory := s.source.take s.memory f.number } = (freeSet s).erase f := by
  have htaken : ∀ {g : Frame}, g.number < s.source.frames →
      (s.source.taken (s.source.take s.memory f.number) g.number = false ↔
        g ≠ f ∧ s.source.taken s.memory g.number = false) := by
    intro g hg
    rw [h.sized.taken_take (h.sized.bit_lt hf) (h.sized.bit_lt hg)]
    exact and_congr_left' ⟨fun hne heq => hne (heq ▸ rfl), fun hne heq => hne (Page.ext heq.symm)⟩
  refine ⟨⟨h.sized, fun hg hor => ?_, fun {g} hg => ?_⟩, ?_⟩
  · refine (h.usable hg ?_).imp_right (And.imp_left fun hshown => hshown.of_window rfl)
    rcases hor with hclear | hin
    · exact .inl ((htaken hg).mp hclear).2
    · rcases Finset.mem_insert.mp hin with rfl | hin
      · exact .inl hfree
      · exact .inr hin
  · rcases eq_or_ne g f with rfl | hne
    · refine ⟨hf, Bool.eq_true_of_not_eq_false fun hclear => ?_⟩
      exact ((htaken hf).mp hclear).1 rfl
    · obtain ⟨hlt, hset⟩ := h.held (Finset.mem_of_mem_insert_of_ne hg hne)
      refine ⟨hlt, Bool.eq_true_of_not_eq_false fun hclear => ?_⟩
      rw [((htaken hlt).mp hclear).2] at hset
      cases hset
  · ext g
    have hb : Sized (Store.source { s with memory := s.source.take s.memory f.number }) := h.sized
    rw [hb.mem_freeSet, Finset.mem_erase, h.sized.mem_freeSet]
    constructor
    · rintro ⟨hlt, hclear⟩
      obtain ⟨hne, hclear⟩ := (htaken hlt).mp hclear
      exact ⟨hne, hlt, hclear⟩
    · rintro ⟨hne, hlt, hclear⟩
      exact ⟨hlt, (htaken hlt).mpr ⟨hne, hclear⟩⟩

/-- The books are in order once a frame has come back. -/
lemma InOrder.release (h : InOrder s held) (hf : f ∈ held) :
    InOrder { s with memory := s.source.release s.memory f.number } (held.erase f) ∧
      freeSet { s with memory := s.source.release s.memory f.number } = insert f (freeSet s) := by
  obtain ⟨hlt, -⟩ := h.held hf
  have htaken : ∀ {g : Frame}, g.number < s.source.frames →
      (s.source.taken (s.source.release s.memory f.number) g.number = false ↔
        g = f ∨ s.source.taken s.memory g.number = false) := by
    intro g hg
    rw [h.sized.taken_release (h.sized.bit_lt hlt) (h.sized.bit_lt hg)]
    exact or_congr_left ⟨fun heq => Page.ext heq.symm, fun heq => heq ▸ rfl⟩
  refine ⟨⟨h.sized, fun {g} hg hor => ?_, fun {g} hg => ?_⟩, ?_⟩
  · refine (h.usable hg ?_).imp_right (And.imp_left fun hshown => hshown.of_window rfl)
    rcases hor with hclear | hin
    · rcases (htaken hg).mp hclear with rfl | hclear
      · exact .inr hf
      · exact .inl hclear
    · exact .inr (Finset.mem_of_mem_erase hin)
  · obtain ⟨hne, hin⟩ := Finset.mem_erase.mp hg
    obtain ⟨hglt, hset⟩ := h.held hin
    refine ⟨hglt, Bool.eq_true_of_not_eq_false fun hclear => ?_⟩
    rw [((htaken hglt).mp hclear).resolve_left hne] at hset
    cases hset
  · ext g
    have hb : Sized (Store.source { s with memory := s.source.release s.memory f.number }) :=
      h.sized
    rw [hb.mem_freeSet, Finset.mem_insert, h.sized.mem_freeSet]
    constructor
    · rintro ⟨hglt, hclear⟩
      exact ((htaken hglt).mp hclear).imp_right fun hclear => ⟨hglt, hclear⟩
    · rintro (rfl | ⟨hglt, hclear⟩)
      · exact ⟨hlt, (htaken hlt).mpr (.inl rfl)⟩
      · exact ⟨hglt, (htaken hglt).mpr (.inr hclear)⟩

/-! ## The laws -/

/-- **A bitmap is a well-behaved source of frames.** -/
instance instLawfulSource : LawfulSource Bitmap where
  freeFrames := freeSet
  Books := HasBits
  Holds := InOrder
  number_lt h hf := (h.usable_of_free hf).1
  shown h hf := (h.usable_of_free hf).2.1
  notBooks h hf := (h.usable_of_free hf).2.2
  notFree h hf hfree := by
    have hset := (h.held hf).2
    rw [(h.sized.mem_freeSet.mp hfree).2] at hset
    cases hset
  congr h hsource hsame := h.congr hsource hsame
  alloc_returns h := by
    rcases h.sized.run_alloc with hrun | ⟨f, -, hrun⟩
    · exact ⟨_, _, hrun⟩
    · exact ⟨_, _, hrun⟩
  alloc_none h hrun := by
    obtain rfl := h.sized.eq_of_alloc_none hrun
    exact ⟨h, rfl, rfl, .refl _⟩
  alloc_some h hrun := by
    obtain ⟨hf, rfl⟩ := h.sized.of_alloc_some hrun
    obtain ⟨hlt, hclear⟩ := h.sized.mem_freeSet.mp hf
    obtain ⟨hheld, hfree⟩ := h.take hlt hclear
    exact ⟨hf, hheld, hfree, rfl, agreesOn_setWord (h.sized.bit_lt hlt)⟩
  free_returns h hf := by
    obtain ⟨hheld, hfree⟩ := h.release hf
    exact ⟨_, h.run_free hf, hheld, hfree, rfl, agreesOn_setWord (h.sized.bit_lt (h.held hf).1)⟩

/-- **A frame that comes back at once leaves the bits as they were.** -/
instance instRestoringSource : RestoringSource Bitmap where
  alloc_none h hrun := h.sized.eq_of_alloc_none hrun ▸ .refl _
  free_alloc {s s₁ s₂ s₃ held f} h halloc hsame hfree := by
    obtain ⟨hf, rfl⟩ := h.sized.of_alloc_some halloc
    obtain ⟨hlt, hclear⟩ := h.sized.mem_freeSet.mp hf
    obtain ⟨hheld, -⟩ := (h.take hlt hclear).1.congr hsame.source hsame.memory
    rw [hheld.run_free (Finset.mem_insert_self f held)] at hfree
    cases hfree
    have hsource : s₂.source = s.source := hsame.source
    refine ⟨hsource, ?_⟩
    rw [hsource]
    exact agreesOn_release_take hclear hsame.memory

instance instUsableSource : UsableSource Bitmap where
  usable h hf := by
    obtain ⟨hnumber, hshown, -⟩ := h.usable (h.held hf).1 (.inr hf)
    exact ⟨hnumber, hshown⟩

/-- **A bitmap refuses a frame only while none is free.** -/
instance instGenerousSource : GenerousSource Bitmap where
  free_eq_empty {s s' held} h hrun := by
    refine Finset.eq_empty_of_forall_notMem fun f hf => ?_
    obtain ⟨hlt, hclear⟩ := h.sized.mem_freeSet.mp hf
    obtain ⟨n, hn⟩ := Option.isSome_iff_exists.mp (h.sized.lowestFree?_isSome hlt hclear)
    have hallocate : allocate.run s =
        .ok (.ok (.ofNumber n)) { s with memory := s.source.take s.memory n } := by
      change (if s.source.isInitialized then _ else _) = _
      rw [if_pos (h.sized.isInitialized hlt), hn]
    change EStateM.run (allocate >>= fun r => Pure.pure r.toOption) s = _ at hrun
    rw [run_bind hallocate] at hrun
    cases hrun

end KernelMemory.Bitmap
