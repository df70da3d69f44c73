import KernelMemory.Proofs.Frames.Bitmap

/-!
# Installing a bitmap

The bits of a bitmap are put at the start of a usable region, which loses the room for them.
Afterwards exactly those frames are free that lie wholly in one of the usable regions that remain,
so that no frame with bits is among them unless usable regions overlap.

* `Region.Contains` — a frame lies wholly in a region.
* **`Bitmap.taken_install`** — which bits are set once the bitmap is installed.
* **`Bitmap.holds_install`** — the books are in order then.
-/

namespace KernelMemory

/-! ## Frames of a region -/

namespace Region

variable {r r' : Region} {n : Nat}

/-- All bytes of a frame lie in the region. -/
def Contains (r : Region) (n : Nat) : Prop :=
  r.base.toNat ≤ n * pageSize ∧ (n + 1) * pageSize ≤ r.top

lemma top_lt : r.top < 2 ^ 64 := by
  rw [top]
  omega

/-- The whole pages of a region are a range of its bytes. -/
lemma pageSpan?_spec {start stop : Nat} (hspan : r.pageSpan? = some (start, stop)) :
    start % pageSize = 0 ∧ r.base.toNat ≤ start ∧ start < stop ∧ stop ≤ r.top := by
  simp only [pageSpan?, pageSize] at hspan ⊢
  split at hspan
  · cases hspan
    omega
  · cases hspan

/-- The whole pages of a region are the frames that lie in it. -/
lemma contains_iff : r.Contains n ↔ ∃ start stop, r.pageSpan? = some (start, stop) ∧
    start / pageSize ≤ n ∧ n < stop / pageSize := by
  have htop := r.top_lt
  simp only [Contains, pageSpan?, pageSize]
  constructor
  · rintro ⟨hbase, hend⟩
    refine ⟨_, _, if_pos ⟨?_, ?_⟩, ?_, ?_⟩ <;> omega
  · rintro ⟨start, stop, hspan, hstart, hstop⟩
    split at hspan
    · cases hspan
      omega
    · cases hspan

end Region

namespace Bitmap

variable {b : Bitmap} {m : Memory} {n first count : Nat} {regions regions' : List Region}

/-! ## Writing the bits -/

/-- Several words are filled with ones. -/
lemma Placed.word_fill (hb : b.Placed) {ks : List Nat} (hks : ∀ k ∈ ks, k < b.words) {k : Nat}
    (hk : k < b.words) :
    (ks.foldl (fun m k => m.setWord (b.slot k) 0xffffffffffffffff) m).word (b.slot k) =
      if k ∈ ks then 0xffffffffffffffff else m.word (b.slot k) := by
  induction ks generalizing m with
  | nil => rfl
  | cons k' ks ih =>
      have hrest : ∀ j ∈ ks, j < b.words := fun j hj => hks j (List.mem_cons_of_mem k' hj)
      rw [List.foldl_cons, ih hrest, Memory.word_setWord]
      by_cases hmem : k ∈ ks
      · rw [if_pos hmem, if_pos (List.mem_cons_of_mem k' hmem)]
      · rw [if_neg hmem]
        by_cases heq : k' = k
        · rw [if_pos (heq ▸ rfl), if_pos (heq ▸ List.mem_cons_self ..)]
        · rw [if_neg fun hslot => heq (hb.slot_inj (hks k' (List.mem_cons_self ..)) hk hslot),
            if_neg]
          exact fun hin => (List.mem_cons.mp hin).elim (fun h => heq h.symm) hmem

lemma Placed.taken_fill (hb : b.Placed) (hn : n < b.words * wordBits) :
    b.taken (b.fill m) n = true := by
  have hk := word_lt hn
  rw [taken, bits, fill, hb.word_fill (fun k hk => List.mem_range.mp hk) hk,
    if_pos (List.mem_range.mpr hk)]
  change (2 ^ 64 - 1).testBit (n % wordBits) = true
  rw [Nat.testBit_two_pow_sub_one]
  exact decide_eq_true (Nat.mod_lt _ (by decide))

/-- A range of frames is released, as far as they are managed. -/
lemma Placed.taken_releaseRange (hb : b.Placed) (hn : n < b.words * wordBits) :
    b.taken (b.releaseRange m first count) n = false ↔
      b.taken m n = false ∨ n < b.frames ∧ first ≤ n ∧ n < first + count := by
  have hfold : ∀ ks : List Nat, (∀ k ∈ ks, first + k < b.frames) → ∀ m,
      (b.taken (ks.foldl (fun m k => b.release m (first + k)) m) n = false ↔
        b.taken m n = false ∨ ∃ k ∈ ks, first + k = n) := by
    intro ks
    induction ks with
    | nil => simp
    | cons k ks ih =>
        intro hks m
        rw [List.forall_mem_cons] at hks
        rw [List.foldl_cons, ih hks.2, hb.taken_release (hb.bit_lt hks.1) hn,
          List.exists_mem_cons_iff, or_assoc, or_left_comm]
  rw [releaseRange, hfold]
  · refine or_congr_right ⟨?_, ?_⟩
    · rintro ⟨k, hk, rfl⟩
      have := List.mem_range.mp hk
      omega
    · rintro ⟨hframes, hle, hlt⟩
      exact ⟨n - first, List.mem_range.mpr (by omega), by omega⟩
  · intro k hk
    have := List.mem_range.mp hk
    omega

/-- The frames of the usable regions are released. -/
lemma Placed.taken_releaseUsable (hb : b.Placed) (hn : n < b.words * wordBits) :
    b.taken (b.releaseUsable m regions) n = false ↔
      b.taken m n = false ∨ n < b.frames ∧ ∃ r ∈ regions, r.isUsable = true ∧ r.Contains n := by
  have hfold : ∀ (spans : List (Nat × Nat)) (m : Memory),
      (b.taken (spans.foldl (fun m span => b.releaseRange m (span.1 / pageSize)
          (span.2 / pageSize - span.1 / pageSize)) m) n = false ↔
        b.taken m n = false ∨
          n < b.frames ∧ ∃ span ∈ spans, span.1 / pageSize ≤ n ∧ n < span.2 / pageSize) := by
    intro spans
    induction spans with
    | nil => simp
    | cons span spans ih =>
        intro m
        have hrange : span.1 / pageSize ≤ n ∧
            n < span.1 / pageSize + (span.2 / pageSize - span.1 / pageSize) ↔
            span.1 / pageSize ≤ n ∧ n < span.2 / pageSize := by
          omega
        rw [List.foldl_cons, ih, hb.taken_releaseRange hn, hrange, List.exists_mem_cons_iff,
          and_or_left, or_assoc]
  rw [releaseUsable, hfold]
  refine or_congr_right (and_congr_right fun _ => ⟨?_, ?_⟩)
  · rintro ⟨⟨start, stop⟩, hmem, hin⟩
    obtain ⟨r, hr, hspan⟩ := List.mem_filterMap.mp hmem
    obtain ⟨hr, husable⟩ := List.mem_filter.mp hr
    exact ⟨r, hr, husable, Region.contains_iff.mpr ⟨start, stop, hspan, hin⟩⟩
  · rintro ⟨r, hr, husable, hin⟩
    obtain ⟨start, stop, hspan, hin⟩ := Region.contains_iff.mp hin
    exact ⟨⟨start, stop⟩, List.mem_filterMap.mpr ⟨r, List.mem_filter.mpr ⟨hr, husable⟩, hspan⟩, hin⟩

/-- What each step leaves alone, all steps leave alone. -/
lemma agreesOn_foldl {α : Type} {step : Memory → α → Memory} {on : Frame → Prop} {as : List α}
    (hstep : ∀ a ∈ as, ∀ m : Memory, m.AgreesOn on (step m a)) :
    m.AgreesOn on (as.foldl step m) := by
  induction as generalizing m with
  | nil => exact .refl m
  | cons a as ih =>
      rw [List.forall_mem_cons] at hstep
      exact (hstep.1 m).trans (ih hstep.2)

lemma Placed.agreesOn_releaseRange (hb : b.Placed) :
    m.AgreesOn (fun f => ¬ b.HasBits f) (b.releaseRange m first count) := by
  refine agreesOn_foldl fun k hk m => agreesOn_setWord (hb.bit_lt ?_)
  have := List.mem_range.mp hk
  omega

/-- Only frames with bits are written to. -/
lemma Placed.agreesOn_install (hb : b.Placed) :
    m.AgreesOn (fun f => ¬ b.HasBits f) (b.releaseUsable (b.fill m) regions) := by
  have hfill : m.AgreesOn (fun f => ¬ b.HasBits f) (b.fill m) := by
    refine agreesOn_foldl fun k hk m => ⟨rfl, fun t ht => ?_⟩
    rw [Memory.word_setWord, if_neg]
    rintro rfl
    exact ht ⟨k, List.mem_range.mp hk, rfl⟩
  exact hfill.trans (agreesOn_foldl fun _ _ _ => hb.agreesOn_releaseRange)

/-! ## Room for the bits -/

/-- Room was set aside at the start of a usable region. -/
structure SetAside (reservation start : Nat) (r r' : Region) : Prop where
  /-- The region is usable. -/
  usable : r.isUsable = true
  /-- What is left of it is usable too. -/
  usable' : r'.isUsable = true
  /-- The room lies in the whole pages of the region. -/
  span : ∃ stop, r.pageSpan? = some (start, stop) ∧ start + reservation ≤ stop
  /-- What is left begins behind the room. -/
  base : r'.base.toNat = start + reservation
  /-- What is left ends where the region ends. -/
  top : r'.top = r.top

/-- What is left of the region lay in it before. -/
lemma SetAside.contains {reservation start : Nat} {r r' : Region}
    (hset : SetAside reservation start r r') (hin : r'.Contains n) : r.Contains n := by
  obtain ⟨stop, hspan, -⟩ := hset.span
  obtain ⟨-, hbase, -⟩ := Region.pageSpan?_spec hspan
  obtain ⟨hstart, hend⟩ := hin
  rw [hset.base] at hstart
  rw [hset.top] at hend
  exact ⟨(hbase.trans (Nat.le_add_right ..)).trans hstart, hend⟩

lemma setAside_of_shrink {reservation start stop : Nat} {r r' : Region}
    (husable : r.isUsable = true) (hspan : r.pageSpan? = some (start, stop))
    (hroom : start + reservation ≤ stop) (hshrink : shrink r start reservation = .ok r') :
    SetAside reservation start r r' := by
  rw [shrink] at hshrink
  obtain ⟨base, hbase, hshrink⟩ := Checked.bind_eq_ok.mp hshrink
  obtain ⟨length, hlength, hshrink⟩ := Checked.bind_eq_ok.mp hshrink
  obtain ⟨hbaseLt, rfl⟩ := Checked.add_eq_ok_iff.mp hbase
  obtain ⟨hle, rfl⟩ := Checked.sub_eq_ok_iff.mp hlength
  cases hshrink
  have htop := r.top_lt
  have hnumber : (UInt64.ofNat (start + reservation)).toNat = start + reservation :=
    UInt64.toNat_ofNat_of_lt' hbaseLt
  refine ⟨husable, husable, ⟨stop, hspan, hroom⟩, hnumber, ?_⟩
  have hrest : r.top - (start + reservation) < 2 ^ 64 := (Nat.sub_le ..).trans_lt htop
  rw [Region.top, hnumber, UInt64.toNat_ofNat_of_lt' hrest]
  omega

/-- The room lies in the first usable region that is large enough. -/
lemma place?_spec {reservation start : Nat}
    (hplace : place? reservation regions = .ok (some (start, regions'))) :
    ∃ before r r' after, regions = before ++ r :: after ∧ regions' = before ++ r' :: after ∧
      SetAside reservation start r r' := by
  induction regions generalizing regions' with
  | nil => cases hplace
  | cons r regions ih =>
      have hrest : (do return (← place? reservation regions).map fun found =>
            (found.1, r :: found.2)) = Except.ok (some (start, regions')) →
          ∃ before r' r'' after, r :: regions = before ++ r' :: after ∧
            regions' = before ++ r'' :: after ∧ SetAside reservation start r' r'' := by
        intro hplace
        obtain ⟨found, hfound, hmap⟩ := Checked.bind_eq_ok.mp hplace
        obtain ⟨⟨start', rest⟩, rfl, heq⟩ := Option.map_eq_some_iff.mp (Except.ok.inj hmap)
        cases heq
        obtain ⟨before, r', r'', after, rfl, rfl, hset⟩ := ih hfound
        exact ⟨r :: before, r', r'', after, rfl, rfl, hset⟩
      rw [place?] at hplace
      split at hplace
      case h_1 start' stop hspan =>
        split at hspan
        case isTrue husable =>
          split at hplace
          case isTrue hroom =>
            obtain ⟨r', hshrink, heq⟩ := Checked.bind_eq_ok.mp hplace
            cases heq
            have hlt := (Region.pageSpan?_spec hspan).2.2.1
            refine ⟨[], r, r', regions, rfl, rfl, setAside_of_shrink husable hspan ?_ hshrink⟩
            omega
          case isFalse => exact hrest hplace
        case isFalse => cases hspan
      case h_2 => exact hrest hplace

/-! ## The bitmap as it is installed -/

/-- What a bitmap for some regions needs. -/
lemma plan_spec {p : Plan} (hplan : plan regions = .ok p) :
    p.frames ≤ p.words * wordBits ∧ p.words * 8 ≤ p.reservation ∧ p.reservation % pageSize = 0 ∧
      p.frames = (regions.map Region.top).foldl max 0 / pageSize := by
  rw [plan] at hplan
  obtain ⟨bytes, hbytes, hplan⟩ := Checked.bind_eq_ok.mp hplan
  obtain ⟨reservation, hreservation, hplan⟩ := Checked.bind_eq_ok.mp hplan
  obtain ⟨-, rfl⟩ := Checked.mul_eq_ok_iff.mp hbytes
  obtain ⟨-, rfl⟩ := Checked.mul_eq_ok_iff.mp hreservation
  cases hplan
  refine ⟨?_, ?_, Nat.mul_mod_left .., rfl⟩
  · simp only [wordBits]
    omega
  · simp only [pageSize]
    omega

/-- The bitmap that was planned, at the start of the room that was set aside for it. -/
def planned (p : Plan) (start : Nat) : Bitmap where
  home := (Address.ofNat start).page
  words := p.words
  frames := p.frames

/-- A bitmap is installed, or there is no room for one. -/
lemma install_spec {m' : Memory} {event : Log.Event}
    (hinstall : install m regions = .ok (b, m', regions', event)) :
    b = {} ∧ m' = m ∧ regions' = regions ∨
      ∃ p start, plan regions = .ok p ∧
        place? p.reservation regions = .ok (some (start, regions')) ∧
        b = planned p start ∧ m' = b.releaseUsable (b.fill m) regions' := by
  rw [install] at hinstall
  obtain ⟨p, hplan, hinstall⟩ := Checked.bind_eq_ok.mp hinstall
  obtain ⟨found, hplace, hinstall⟩ := Checked.bind_eq_ok.mp hinstall
  rcases found with _ | ⟨start, rest⟩
  · cases hinstall
    exact .inl ⟨rfl, rfl, rfl⟩
  · obtain ⟨-, -, hinstall⟩ := Checked.bind_eq_ok.mp hinstall
    obtain ⟨bytes, -, hinstall⟩ := Checked.bind_eq_ok.mp hinstall
    cases hinstall
    exact .inr ⟨p, start, hplan, hplace, rfl, rfl⟩

section

variable {p : Plan} {start : Nat} {r r' : Region}

lemma number_home (hset : SetAside p.reservation start r r') :
    (planned p start).home.number = start / pageSize := by
  obtain ⟨stop, hspan, -⟩ := hset.span
  have htop := r.top_lt
  obtain ⟨-, -, hlt, hle⟩ := Region.pageSpan?_spec hspan
  have hnumber : (UInt64.ofNat start).toNat = start :=
    UInt64.toNat_ofNat_of_lt' ((hlt.trans_le hle).trans htop)
  change (UInt64.ofNat start).toNat / pageSize = start / pageSize
  rw [hnumber]

/-- The bits fit the room. -/
lemma word_lt_room (hplan : plan regions = .ok p) (hset : SetAside p.reservation start r r')
    {k : Nat} (hk : k < p.words) :
    start / pageSize + k / tableEntries < (start + p.reservation) / pageSize := by
  obtain ⟨-, hroom, haligned, -⟩ := plan_spec hplan
  obtain ⟨stop, hspan, -⟩ := hset.span
  obtain ⟨hstart, -⟩ := Region.pageSpan?_spec hspan
  simp only [pageSize, tableEntries] at haligned hstart ⊢
  omega

lemma placed_planned (hplan : plan regions = .ok p)
    (hset : SetAside p.reservation start r r') : (planned p start).Placed := by
  obtain ⟨hcovers, -⟩ := plan_spec hplan
  refine ⟨hcovers, fun hk => ?_⟩
  obtain ⟨stop, hspan, hroom⟩ := hset.span
  obtain ⟨-, -, -, hle⟩ := Region.pageSpan?_spec hspan
  have hword := word_lt_room hplan hset hk
  have htop := r.top_lt
  rw [number_home hset]
  simp only [pageSize] at hword ⊢
  omega

lemma sized_planned (hplan : plan regions = .ok p) (hset : SetAside p.reservation start r r') :
    (planned p start).Sized := by
  refine ⟨placed_planned hplan hset, ?_⟩
  obtain ⟨-, -, -, hframes⟩ := plan_spec hplan
  have hmax : (regions.map Region.top).foldl max 0 ≤ 2 ^ 64 := by
    refine List.foldlRecOn (motive := fun n => n ≤ 2 ^ 64) _ _ (Nat.zero_le _) ?_
    intro n hn top htop
    obtain ⟨r, -, rfl⟩ := List.mem_map.mp htop
    exact max_le hn r.top_lt.le
  change p.frames ≤ 2 ^ 52
  rw [hframes]
  exact Nat.div_le_of_le_mul hmax

/-- The frames with bits lie in the room. -/
lemma room_of_hasBits (hplan : plan regions = .ok p)
    (hset : SetAside p.reservation start r r') {f : Frame}
    (hbits : (planned p start).HasBits f) :
    start ≤ f.number * pageSize ∧ (f.number + 1) * pageSize ≤ start + p.reservation := by
  obtain ⟨k, hk, rfl⟩ := hbits
  obtain ⟨stop, hspan, hroom⟩ := hset.span
  obtain ⟨hstart, -⟩ := Region.pageSpan?_spec hspan
  have hword := word_lt_room hplan hset hk
  have hnumber : ((planned p start).slot k).table.number = start / pageSize + k / tableEntries := by
    rw [slot, Page.number_ofNumber ((placed_planned hplan hset).room hk), number_home hset]
  rw [hnumber]
  simp only [pageSize, tableEntries] at hword hstart ⊢
  omega

lemma contains_of_hasBits (hplan : plan regions = .ok p)
    (hset : SetAside p.reservation start r r') {f : Frame}
    (hbits : (planned p start).HasBits f) :
    r.Contains f.number ∧ ¬ r'.Contains f.number := by
  obtain ⟨hle, hlt⟩ := room_of_hasBits hplan hset hbits
  obtain ⟨stop, hspan, hroom⟩ := hset.span
  obtain ⟨-, hbase, -, htop⟩ := Region.pageSpan?_spec hspan
  rw [Region.Contains, Region.Contains, hset.base]
  simp only [pageSize] at hle hlt ⊢
  omega

/-- A frame of a usable region that remains lay in a usable region before. -/
lemma SetAside.old {reservation : Nat} {before after : List Region} {r₁ : Region}
    (hset : SetAside reservation start r r') (hr₁ : r₁ ∈ before ++ r' :: after)
    (husable : r₁.isUsable = true) (hin : r₁.Contains n) :
    ∃ r₀ ∈ before ++ r :: after, r₀.isUsable = true ∧ r₀.Contains n := by
  rcases List.mem_append.mp hr₁ with hr₁ | hr₁
  · exact ⟨r₁, List.mem_append_left _ hr₁, husable, hin⟩
  · rcases List.mem_cons.mp hr₁ with rfl | hr₁
    · exact ⟨r, List.mem_append_right _ (List.mem_cons_self ..), hset.usable, hset.contains hin⟩
    · exact ⟨r₁, List.mem_append_right _ (List.mem_cons_of_mem r hr₁), husable, hin⟩

/-- No usable region that remains has a frame with bits, if no two usable regions have a frame in
common. -/
lemma not_hasBits_of_remaining {before after : List Region} {r₁ : Region} {f : Frame}
    (hplan : plan regions = .ok p) (hset : SetAside p.reservation start r r')
    (hdisjoint : (before ++ r :: after).Pairwise fun r r' => r.isUsable = true →
      r'.isUsable = true → ∀ n, r.Contains n → ¬ r'.Contains n)
    (hr₁ : r₁ ∈ before ++ r' :: after) (husable : r₁.isUsable = true)
    (hin : r₁.Contains f.number) : ¬ (planned p start).HasBits f := by
  intro hbits
  obtain ⟨hinR, hnotin⟩ := contains_of_hasBits hplan hset hbits
  rw [List.pairwise_append, List.pairwise_cons] at hdisjoint
  obtain ⟨-, ⟨hafter, -⟩, hbefore⟩ := hdisjoint
  rcases List.mem_append.mp hr₁ with hr₁ | hr₁
  · exact hbefore r₁ hr₁ r (List.mem_cons_self ..) husable hset.usable _ hin hinR
  · rcases List.mem_cons.mp hr₁ with rfl | hr₁
    · exact hnotin hin
    · exact hafter r₁ hr₁ hset.usable husable _ hinR hin

end

/-- **Exactly the frames of the usable regions that remain are free** once a bitmap is installed. -/
theorem taken_install (hb : b.Placed) (hn : n < b.words * wordBits) :
    b.taken (b.releaseUsable (b.fill m) regions) n = false ↔
      n < b.frames ∧ ∃ r ∈ regions, r.isUsable = true ∧ r.Contains n := by
  rw [hb.taken_releaseUsable hn, hb.taken_fill hn]
  simp

/-- The books of a bitmap that was not installed are in order. -/
lemma holds_uninitialized {s : Store Bitmap} (h : s.source = {}) : Holds s ∅ := by
  obtain ⟨m, b, log⟩ := s
  obtain rfl : b = {} := h
  constructor
  case sized => exact ⟨⟨Nat.le_refl _, fun hk => absurd hk (Nat.not_lt_zero _)⟩, Nat.zero_le _⟩
  case usable => exact fun hf => absurd hf (Nat.not_lt_zero _)
  case held => exact fun hf => absurd hf (Finset.notMem_empty _)

/-- A bitmap that was not installed has no frame. -/
lemma freeFrames_uninitialized {s : Store Bitmap} (h : s.source = {}) : freeFrames s = ∅ := by
  change freeSet s = ∅
  rw [freeSet, h]
  rfl

/-- **The books are in order once a bitmap is installed**, for regions of memory that the window
shows, none of which share a usable frame. -/
theorem holds_install {m' : Memory} {event : Log.Event} {log : Array Log.Event}
    (hinstall : install m regions = .ok (b, m', regions', event))
    (hnarrow : ∀ r ∈ regions, r.isUsable = true → r.top ≤ 2 ^ 52)
    (hshown : ∀ r ∈ regions, r.isUsable = true → ∀ f : Frame, r.Contains f.number → m.Shows f)
    (hdisjoint : regions.Pairwise fun r r' => r.isUsable = true → r'.isUsable = true →
      ∀ n, r.Contains n → ¬ r'.Contains n) :
    Holds ({ memory := m', source := b, log } : Store Bitmap) ∅ := by
  rcases install_spec hinstall with ⟨rfl, rfl, -⟩ | ⟨p, start, hplan, hplace, rfl, rfl⟩
  · exact holds_uninitialized rfl
  obtain ⟨before, r, r', after, rfl, rfl, hset⟩ := place?_spec hplace
  have hb : (planned p start).Sized := sized_planned hplan hset
  refine ⟨hb, fun {f} hf hor => ?_, fun hf => absurd hf (Finset.notMem_empty _)⟩
  have hclear := hor.resolve_right (Finset.notMem_empty f)
  obtain ⟨-, r₁, hr₁, husable, hin⟩ := (taken_install hb.toPlaced (hb.bit_lt hf)).mp hclear
  have hnone := not_hasBits_of_remaining hplan hset hdisjoint hr₁ husable hin
  obtain ⟨r₀, hr₀, husable₀, hin₀⟩ := hset.old hr₁ husable hin
  have hnumber : f.number < 2 ^ 40 := by
    have hend := hin₀.2.trans (hnarrow r₀ hr₀ husable₀)
    simp only [pageSize] at hend
    omega
  exact ⟨hnumber, (hshown r₀ hr₀ husable₀ f hin₀).of_window hb.agreesOn_install.window, hnone⟩

end Bitmap

end KernelMemory
