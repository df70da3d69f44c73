import KernelMemory.Proofs.Frames.Install
import KernelMemory.Proofs.Frames.Padding
import Mathlib.Algebra.Order.Floor.Div
import Mathlib.Data.List.MinMax

/-!
# What the bits cost

Installing a bitmap never fails.  How many frames it manages and how much room it needs follow from
the regions alone, and so does the region that gives the room away: it is the first usable one whose
whole pages are enough.  Everything else is as before, and the free frames are the whole pages of
the usable regions that remain.

* `Bitmap.managed`, `Bitmap.reservation` — the frames that have a bit, and the room for the bits.
* `Region.Spares` — a region has room to give away.
* `Bitmap.place?_eq_some`, `Bitmap.place?_eq_none` — which region gives the room.
* `Bitmap.install_returns` — something is installed.
* **`Bitmap.install_exact`** — what is installed, for all regions.
-/

namespace KernelMemory

namespace Region

variable {r : Region} {n size start stop : Nat}

/-! ## Whole pages -/

/-- The least page boundary that is not below the base. -/
def alignedBase (r : Region) : Nat :=
  (r.base.toNat ⌈/⌉ pageSize) * pageSize

/-- The greatest page boundary that is not above the end. -/
def alignedTop (r : Region) : Nat :=
  r.top / pageSize * pageSize

/-- The region is usable and has whole pages, of the given size at least. -/
def Spares (size : Nat) (r : Region) : Prop :=
  r.isUsable = true ∧ r.alignedBase < r.alignedTop ∧ size ≤ r.alignedTop - r.alignedBase

instance : Decidable (r.Spares size) :=
  inferInstanceAs (Decidable (_ ∧ _ ∧ _))

/-- No byte lies in both regions. -/
def Apart (r r' : Region) : Prop :=
  ∀ a, r.base.toNat ≤ a → a < r.top → r'.base.toNat ≤ a → r'.top ≤ a

lemma alignedTop_le : r.alignedTop ≤ r.top :=
  Nat.div_mul_le_self ..

lemma pageSpan?_eq : r.pageSpan? =
    if r.alignedBase < r.alignedTop then some (r.alignedBase, r.alignedTop) else none := by
  have htop : r.alignedTop < 2 ^ 64 := alignedTop_le.trans_lt top_lt
  rw [pageSpan?, alignedBase, alignedTop, Nat.ceilDiv_eq_add_pred_div,
    Nat.add_sub_assoc (by decide)]
  refine if_congr ⟨And.right, fun hlt => ⟨?_, hlt⟩⟩ rfl rfl
  exact hlt.trans htop

/-- A frame lies in a region if it lies in the whole pages of the region. -/
lemma contains_iff_aligned :
    r.Contains n ↔ r.alignedBase ≤ n * pageSize ∧ (n + 1) * pageSize ≤ r.alignedTop := by
  rw [Contains, alignedBase, alignedTop, Nat.ceilDiv_eq_add_pred_div]
  simp only [pageSize]
  omega

/-- The first whole page lies in the region. -/
lemma Spares.contains (hr : r.Spares size) : r.Contains (r.alignedBase / pageSize) := by
  have hlt := hr.2.1
  rw [contains_iff_aligned]
  simp only [alignedBase, alignedTop, pageSize] at hlt ⊢
  omega

end Region

namespace Bitmap

variable {b : Bitmap} {m : Memory} {regions : List Region} {n size : Nat}

/-! ## The plan -/

/-- The number of frames below the highest end of a region. -/
def managed (regions : List Region) : Nat :=
  (regions.map Region.top).max?.getD 0 / pageSize

/-- The size of whole words for a bit of each frame, in whole pages. -/
def reservation (frames : Nat) : Nat :=
  ((frames ⌈/⌉ wordBits * 8) ⌈/⌉ pageSize) * pageSize

lemma managed_lt : managed regions < 2 ^ 52 := by
  have hmax : (regions.map Region.top).max?.getD 0 < 2 ^ 64 := by
    cases hmax : (regions.map Region.top).max? with
    | none => decide
    | some top =>
        obtain ⟨r, -, rfl⟩ := List.mem_map.mp (List.max?_mem hmax)
        exact r.top_lt
  rw [managed]
  simp only [pageSize]
  omega

/-- What a bitmap for the regions needs. -/
def needed (regions : List Region) : Plan where
  frames := managed regions
  words := managed regions ⌈/⌉ wordBits
  reservation := reservation (managed regions)

/-- A bitmap can be planned for all regions. -/
lemma plan_eq : plan regions = .ok (needed regions) := by
  have hmax : (regions.map Region.top).foldl max 0 = (regions.map Region.top).max?.getD 0 := by
    cases regions with
    | nil => rfl
    | cons r regions =>
        rw [List.map_cons, List.max?_cons', List.foldl_cons, Nat.zero_max]
        rfl
  have hlt : managed regions < 2 ^ 52 := managed_lt
  have hwords : managed regions ⌈/⌉ wordBits ≤ 2 ^ 52 := by
    rw [Nat.ceilDiv_eq_add_pred_div]
    simp only [wordBits]
    omega
  have hbytes : managed regions ⌈/⌉ wordBits * 8 < 2 ^ 64 := by omega
  have hsize : reservation (managed regions) < 2 ^ 64 := by
    rw [reservation, Nat.ceilDiv_eq_add_pred_div (_ * 8)]
    simp only [pageSize]
    omega
  rw [plan, hmax]
  refine Checked.bind_eq_ok.mpr ⟨_, Checked.mul_eq_ok_iff.mpr ⟨hbytes, rfl⟩, ?_⟩
  exact Checked.bind_eq_ok.mpr ⟨_, Checked.mul_eq_ok_iff.mpr ⟨hsize, rfl⟩, rfl⟩

/-! ## The region that gives the room -/

section

variable {r : Region} {before after : List Region}

/-- What is left of a region that gives its first whole pages away. -/
def remaining (size : Nat) (r : Region) : Region :=
  { r with
    base := UInt64.ofNat (r.alignedBase + size)
    length := UInt64.ofNat (r.top - (r.alignedBase + size)) }

lemma shrink_eq (hr : r.Spares size) :
    shrink r r.alignedBase size = .ok (remaining size r) := by
  obtain ⟨-, hlt, hsize⟩ := hr
  have hle := r.alignedTop_le
  have htop := r.top_lt
  rw [shrink]
  refine Checked.bind_eq_ok.mpr ⟨_, Checked.add_eq_ok_iff.mpr ⟨by omega, rfl⟩, ?_⟩
  exact Checked.bind_eq_ok.mpr ⟨_, Checked.sub_eq_ok_iff.mpr ⟨by omega, rfl⟩, rfl⟩

lemma setAside_of_spares (hr : r.Spares size) :
    SetAside size r.alignedBase r (remaining size r) := by
  obtain ⟨husable, hlt, hsize⟩ := hr
  have hspan : r.pageSpan? = some (r.alignedBase, r.alignedTop) := by
    rw [Region.pageSpan?_eq, if_pos hlt]
  exact setAside_of_shrink husable hspan (by omega) (shrink_eq ⟨husable, hlt, hsize⟩)

/-- What is done with the first region of a list. -/
lemma place?_cons_of_not_spares (hr : ¬ r.Spares size) (rest : List Region) :
    place? size (r :: rest) =
      (place? size rest).map fun found? => found?.map fun (start, rest) => (start, r :: rest) := by
  have hrest : (do return (← place? size rest).map fun (start, rest) => (start, r :: rest)) =
      (place? size rest).map fun found? => found?.map fun (start, rest) => (start, r :: rest) := by
    cases place? size rest <;> rfl
  rw [place?, ← hrest, Region.pageSpan?_eq]
  by_cases husable : r.isUsable = true
  · by_cases hlt : r.alignedBase < r.alignedTop
    · have hsize : ¬ size ≤ r.alignedTop - r.alignedBase := fun hsize => hr ⟨husable, hlt, hsize⟩
      simp [husable, hlt, hsize]
    · simp [husable, hlt]
  · simp [husable]

lemma place?_cons_of_spares (hr : r.Spares size) (rest : List Region) :
    place? size (r :: rest) = .ok (some (r.alignedBase, remaining size r :: rest)) := by
  obtain ⟨husable, hlt, hsize⟩ := hr
  rw [place?, Region.pageSpan?_eq, if_pos husable, if_pos hlt]
  simp only [if_pos hsize, shrink_eq ⟨husable, hlt, hsize⟩]
  rfl

lemma place?_eq_none (h : ∀ r ∈ regions, ¬ r.Spares size) : place? size regions = .ok none := by
  induction regions with
  | nil => rfl
  | cons r regions ih =>
      rw [List.forall_mem_cons] at h
      rw [place?_cons_of_not_spares h.1, ih h.2]
      rfl

lemma place?_eq_some (hbefore : ∀ r ∈ before, ¬ r.Spares size) (hr : r.Spares size) :
    place? size (before ++ r :: after) =
      .ok (some (r.alignedBase, before ++ remaining size r :: after)) := by
  induction before with
  | nil => exact place?_cons_of_spares hr after
  | cons r' before ih =>
      rw [List.forall_mem_cons] at hbefore
      rw [List.cons_append, place?_cons_of_not_spares hbefore.1, ih hbefore.2]
      rfl

/-- The first region that can spare room loses it, or there is no room. -/
lemma place?_cases (size : Nat) (regions : List Region) :
    (∀ r ∈ regions, ¬ r.Spares size) ∧ place? size regions = .ok none ∨
      ∃ before r after, regions = before ++ r :: after ∧ (∀ r ∈ before, ¬ r.Spares size) ∧
        r.Spares size ∧
        place? size regions = .ok (some (r.alignedBase, before ++ remaining size r :: after)) := by
  by_cases hsome : ∃ r ∈ regions, r.Spares size
  · obtain ⟨r, hfind⟩ := Option.isSome_iff_exists.mp <| List.find?_isSome.mpr <|
      hsome.imp fun r hr => hr.imp_right (decide_eq_true (p := r.Spares size))
    obtain ⟨hr, before, after, rfl, hbefore⟩ := List.find?_eq_some_iff_append.mp hfind
    have hr : r.Spares size := of_decide_eq_true hr
    have hbefore : ∀ r ∈ before, ¬ r.Spares size := fun r hr => by simpa using hbefore r hr
    exact .inr ⟨before, r, after, rfl, hbefore, hr, place?_eq_some hbefore hr⟩
  · have hnone : ∀ r ∈ regions, ¬ r.Spares size := fun r hr hspares => hsome ⟨r, hr, hspares⟩
    exact .inl ⟨hnone, place?_eq_none hnone⟩

/-! ## The bitmap as it is installed -/

lemma lt_managed (hr : r ∈ regions) (hin : r.Contains n) : n < managed regions := by
  have hle : r.top ≤ (regions.map Region.top).max?.getD 0 :=
    List.le_max?_getD_of_mem (List.mem_map_of_mem hr)
  have hend := hin.2
  rw [managed]
  simp only [pageSize] at hend ⊢
  omega

variable {start : Nat} {r' : Region} {regions' : List Region}

/-- The bits that belong to no frame are set once the bitmap is installed. -/
lemma padded_install (hset : SetAside (reservation (managed regions)) start r r')
    (hb : b = planned (needed regions) start) :
    b.Padded (b.releaseUsable (b.fill m) regions') := by
  have hplaced : b.Placed := hb ▸ placed_planned plan_eq hset
  refine ⟨hplaced, hb ▸ managed_lt, ?_, fun hn hlt => ?_⟩
  · subst hb
    change (managed regions ⌈/⌉ wordBits) * wordBits < managed regions + wordBits
    rw [Nat.ceilDiv_eq_add_pred_div]
    simp only [wordBits]
    omega
  · rw [← Bool.not_eq_false, taken_install hplaced hlt]
    exact fun h => hn.not_gt h.1

/-- A bitmap is installed where the window shows the first byte of the room for it. -/
lemma install_of_pointer {pointer : VirtAddr}
    (hplace : place? (reservation (managed regions)) regions = .ok (some (start, regions')))
    (hset : SetAside (reservation (managed regions)) start r r')
    (hb : b = planned (needed regions) start)
    (hpointer : m.window.pointer (.ofNat start) = .ok pointer) : ∃ event,
      install m regions = .ok (b, b.releaseUsable (b.fill m) regions', regions', event) := by
  obtain ⟨bytes, hbytes⟩ : ∃ bytes, b.freeBytes (b.releaseUsable (b.fill m) regions') = .ok bytes :=
    ⟨_, (padded_install hset hb).freeBytes_eq⟩
  refine ⟨.bitmapReady (managed regions) (reservation (managed regions)) (.ofNat start) bytes, ?_⟩
  subst hb
  refine Checked.bind_eq_ok.mpr ⟨_, plan_eq, ?_⟩
  refine Checked.bind_eq_ok.mpr ⟨_, hplace, ?_⟩
  refine Checked.bind_eq_ok.mpr ⟨_, hpointer, ?_⟩
  exact Checked.bind_eq_ok.mpr ⟨_, hbytes, rfl⟩

/-- A bitmap is installed if the window shows the room for it. -/
lemma install_eq_some
    (hplace : place? (reservation (managed regions)) regions = .ok (some (start, regions')))
    (hset : SetAside (reservation (managed regions)) start r r')
    (hb : b = planned (needed regions) start) (hshown : m.Shows (Address.ofNat start).page) :
    ∃ event,
      install m regions = .ok (b, b.releaseUsable (b.fill m) regions', regions', event) := by
  have hbase : (Address.ofNat start : PhysAddr).page.base = .ofNat start := by
    obtain ⟨stop, hspan, -⟩ := hset.span
    obtain ⟨haligned, -, hlt, hle⟩ := Region.pageSpan?_spec hspan
    have htop := r.top_lt
    refine Address.ext (UInt64.toNat.inj ?_)
    rw [Page.toNat_base]
    simp only [Address.page, Address.ofNat, pageSize, UInt64.toNat_ofNat'] at haligned ⊢
    omega
  rw [Memory.Shows, Memory.touch, hbase] at hshown
  cases hpointer : m.window.pointer (.ofNat start) with
  | ok pointer => exact install_of_pointer hplace hset hb hpointer
  | error p =>
      rw [hpointer] at hshown
      cases hshown

/-- **What is installed** if the region `r` gives the room and `r'` is left of it. -/
structure Installed (m : Memory) (regions : List Region) (r r' : Region) (regions' : List Region)
    (b : Bitmap) (m' : Memory) : Prop where
  /-- What is left begins behind the room. -/
  base : r'.base.toNat = r.alignedBase + reservation (managed regions)
  /-- What is left ends where the region ends. -/
  top : r'.top = r.top
  kind : r'.kind = r.kind
  initialized : b.isInitialized = true
  frames : b.frames = managed regions
  /-- Exactly the whole pages of the usable regions that remain are free. -/
  isFree (f : Frame) : b.isFree m' f = true ↔ ∃ r ∈ regions', r.isUsable = true ∧
    r.alignedBase ≤ f.number * pageSize ∧ (f.number + 1) * pageSize ≤ r.alignedTop
  /-- No frame of the room is free, unless it lies in several usable regions. -/
  kept (f : Frame) : (regions.filter Region.isUsable).Pairwise Region.Apart →
    r.alignedBase ≤ f.number * pageSize →
    f.number * pageSize < r.alignedBase + reservation (managed regions) → b.isFree m' f = false
  /-- Nothing is written outside the room. -/
  written : m.AgreesOn (fun f => ¬ (r.alignedBase ≤ f.number * pageSize ∧
    f.number * pageSize < r.alignedBase + reservation (managed regions))) m'

lemma isFree_install (hset : SetAside (reservation (managed regions)) start r r')
    (hb : b = planned (needed regions) start) (hregions : regions = before ++ r :: after)
    (hregions' : regions' = before ++ r' :: after) (f : Frame) :
    b.isFree (b.releaseUsable (b.fill m) regions') f = true ↔
      ∃ r ∈ regions', r.isUsable = true ∧ r.Contains f.number := by
  have hplaced : b.Placed := hb ▸ placed_planned plan_eq hset
  have hframes : b.frames = managed regions := hb ▸ rfl
  rw [isFree, Bool.and_eq_true, decide_eq_true_iff, Bool.not_eq_true']
  constructor
  · rintro ⟨hlt, hclear⟩
    exact ((taken_install hplaced (hplaced.bit_lt hlt)).mp hclear).2
  · rintro ⟨r₁, hr₁, husable, hin⟩
    have hlt : f.number < b.frames := by
      rw [hframes]
      rw [hregions'] at hr₁
      rcases List.mem_append.mp hr₁ with hr₁ | hr₁
      · exact lt_managed (by simp [hregions, hr₁]) hin
      · rcases List.mem_cons.mp hr₁ with rfl | hr₁
        · exact lt_managed (by simp [hregions]) (hset.contains hin)
        · exact lt_managed (by simp [hregions, hr₁]) hin
    exact ⟨hlt, (taken_install hplaced (hplaced.bit_lt hlt)).mpr ⟨hlt, r₁, hr₁, husable, hin⟩⟩

/-- No region but the one that gives the room has bytes of it. -/
lemma not_contains_room (hr : r.Spares size)
    (hdisjoint : ((before ++ r :: after).filter Region.isUsable).Pairwise Region.Apart)
    (hr' : r' ∈ before ∨ r' ∈ after) (husable : r'.isUsable = true)
    (hle : r.alignedBase ≤ n * pageSize) (hlt : n * pageSize < r.alignedBase + size) :
    ¬ r'.Contains n := by
  intro hin
  have hbase : r.base.toNat ≤ n * pageSize := by
    refine le_trans ?_ hle
    rw [Region.alignedBase, Nat.ceilDiv_eq_add_pred_div]
    simp only [pageSize]
    omega
  have htop : n * pageSize < r.top := by
    obtain ⟨-, hspan, hsize⟩ := hr
    have := r.alignedTop_le
    omega
  have hin' : n * pageSize < r'.top := by
    have := hin.2
    simp only [pageSize] at this ⊢
    omega
  rw [List.pairwise_filter, List.pairwise_append, List.pairwise_cons] at hdisjoint
  obtain ⟨-, ⟨hafter, -⟩, hbefore⟩ := hdisjoint
  rcases hr' with hr' | hr'
  · have happart := hbefore r' hr' r (List.mem_cons_self ..) husable hr.1
    exact (happart _ hin.1 hin' hbase).not_gt htop
  · have happart := hafter r' hr' hr.1 husable
    exact (happart _ hbase htop hin.1).not_gt hin'

lemma installed (hr : r.Spares (reservation (managed regions)))
    (hb : b = planned (needed regions) r.alignedBase) (hregions : regions = before ++ r :: after)
    (hr' : r' = remaining (reservation (managed regions)) r)
    (hregions' : regions' = before ++ r' :: after) :
    Installed m regions r r' regions' b (b.releaseUsable (b.fill m) regions') := by
  have hset : SetAside (reservation (managed regions)) r.alignedBase r r' :=
    hr' ▸ setAside_of_spares hr
  have hplaced : b.Placed := hb ▸ placed_planned plan_eq hset
  have hframes : b.frames = managed regions := hb ▸ rfl
  constructor
  case base => exact hset.base
  case top => exact hset.top
  case kind => rw [hr', remaining]
  case initialized =>
    have hmem : r ∈ regions := by simp [hregions]
    have hpos := lt_managed hmem hr.contains
    have hcovers := hplaced.covers
    rw [isInitialized, bne_iff_ne]
    intro hzero
    rw [hzero, Nat.zero_mul, hframes] at hcovers
    exact Nat.not_lt_zero _ (hpos.trans_le hcovers)
  case frames => exact hframes
  case isFree =>
    intro f
    simp only [isFree_install hset hb hregions hregions', Region.contains_iff_aligned]
  case kept =>
    intro f hdisjoint hle hlt
    rw [hregions] at hdisjoint
    rw [← Bool.not_eq_true, isFree_install hset hb hregions hregions']
    rintro ⟨r₁, hr₁, husable, hin⟩
    rw [hregions', List.mem_append, List.mem_cons] at hr₁
    rcases hr₁ with hr₁ | rfl | hr₁
    · exact not_contains_room hr hdisjoint (.inl hr₁) husable hle hlt hin
    · have hbase := hin.1
      rw [hset.base] at hbase
      omega
    · exact not_contains_room hr hdisjoint (.inr hr₁) husable hle hlt hin
  case written =>
    refine hplaced.agreesOn_install.anti fun f hroom hbits => hroom ?_
    subst hb
    have hin := room_of_hasBits plan_eq hset hbits
    simp only [pageSize] at hin ⊢
    exact ⟨hin.1, lt_of_lt_of_le (by omega) hin.2⟩

/-- No region can spare room, and nothing is installed. -/
lemma install_none (hnone : ∀ r ∈ regions, ¬ r.Spares (reservation (managed regions))) :
    ∃ event, install m regions = .ok ({}, m, regions, event) :=
  ⟨_, Checked.bind_eq_ok.mpr ⟨_, plan_eq, Checked.bind_eq_ok.mpr ⟨_, place?_eq_none hnone, rfl⟩⟩⟩

/-- The first region that can spare room loses it to the bitmap. -/
lemma install_some
    (hshown : ∀ r ∈ regions, r.isUsable = true → ∀ f : Frame, r.Contains f.number → m.Shows f)
    (hsome : ∃ r ∈ regions, r.Spares (reservation (managed regions))) :
    ∃ before r r' after b m' event, regions = before ++ r :: after ∧
      (∀ r ∈ before, ¬ r.Spares (reservation (managed regions))) ∧
      r.Spares (reservation (managed regions)) ∧
      install m regions = .ok (b, m', before ++ r' :: after, event) ∧
      Installed m regions r r' (before ++ r' :: after) b m' := by
  obtain ⟨before, r, after, hregions, hbefore, hr, hplace⟩ :=
    (place?_cases (reservation (managed regions)) regions).resolve_left
      fun hnone => hsome.elim fun r hr => hnone.1 r hr.1 hr.2
  have hhome : m.Shows (Address.ofNat r.alignedBase).page := by
    refine hshown r (by simp [hregions]) hr.1 _ ?_
    have hnumber : (Address.ofNat r.alignedBase).page.number = r.alignedBase / pageSize :=
      number_home (p := needed regions) (setAside_of_spares hr)
    rw [hnumber]
    exact hr.contains
  obtain ⟨event, hinstall⟩ := install_eq_some hplace (setAside_of_spares hr) rfl hhome
  exact ⟨before, r, _, after, _, _, event, hregions, hbefore, hr, hinstall,
    installed hr rfl hregions rfl rfl⟩

/-- If the first region gives the room, the frames of the others are free. -/
lemma install_first (hr : r.Spares (reservation (managed (r :: after))))
    (hshown : m.Shows (Address.ofNat r.alignedBase).page) :
    ∃ b m' event, install m (r :: after) =
        .ok (b, m', remaining (reservation (managed (r :: after))) r :: after, event) ∧
      ∀ r' ∈ after, r'.isUsable = true → ∀ f : Frame, r'.Contains f.number →
        b.isFree m' f = true := by
  have hset := setAside_of_spares hr
  obtain ⟨event, hinstall⟩ := install_eq_some (place?_cons_of_spares hr after) hset rfl hshown
  refine ⟨_, _, event, hinstall, fun r' hr' husable f hin => ?_⟩
  have hregions : r :: after = [] ++ r :: after := rfl
  exact (isFree_install hset rfl hregions rfl f).mpr ⟨r', List.mem_cons_of_mem _ hr', husable, hin⟩

/-- **Installing a bitmap returns.** -/
theorem install_returns
    (hshown : ∀ r ∈ regions, r.isUsable = true → ∀ f : Frame, r.Contains f.number → m.Shows f) :
    ∃ b m' regions' event, install m regions = .ok (b, m', regions', event) := by
  by_cases hsome : ∃ r ∈ regions, r.Spares (reservation (managed regions))
  · obtain ⟨before, r, r', after, b, m', event, -, -, -, hinstall, -⟩ := install_some hshown hsome
    exact ⟨b, m', _, event, hinstall⟩
  · obtain ⟨event, hinstall⟩ := install_none fun r hr hspares => hsome ⟨r, hr, hspares⟩
    exact ⟨{}, m, regions, event, hinstall⟩

/-- **A bitmap is installed as it was planned**, whatever the regions are, as long as the window
shows the usable ones. -/
theorem install_exact (m : Memory) (regions : List Region)
    (hshown : ∀ r ∈ regions, r.isUsable = true → ∀ f : Frame, r.Contains f.number → m.Shows f) :
    ((∀ r ∈ regions, ¬ r.Spares (reservation (managed regions))) →
      ∃ b event, install m regions = .ok (b, m, regions, event) ∧ b.isInitialized = false) ∧
    ((∃ r ∈ regions, r.Spares (reservation (managed regions))) →
      ∃ before r r' after b m' event, regions = before ++ r :: after ∧
        (∀ r ∈ before, ¬ r.Spares (reservation (managed regions))) ∧
        r.Spares (reservation (managed regions)) ∧
        install m regions = .ok (b, m', before ++ r' :: after, event) ∧
        Installed m regions r r' (before ++ r' :: after) b m') := by
  constructor
  · intro hnone
    obtain ⟨event, hinstall⟩ := install_none hnone
    exact ⟨{}, event, hinstall, rfl⟩
  · exact install_some hshown

/-- An empty region cannot give room, and one that begins and ends within a page gives its first
whole page. -/
theorem install_exact_sample :
    ∃ r b m' event, install { window := { offset := 0 } }
        [{ base := 0, length := 0, kind := .usable },
          { base := 0x1800, length := 0x4000, kind := .usable }] =
          .ok (b, m', [{ base := 0, length := 0, kind := .usable }, r], event) ∧
      r.base.toNat = 0x3000 ∧ r.top = 0x5800 ∧ b.frames = 5 ∧
      ∀ f, b.isFree m' f = true ↔ 3 ≤ f.number ∧ f.number < 5 := by
  obtain ⟨before, r, r', after, b, m', event, hregions, hbefore, hr, hinstall, h⟩ :=
    (install_exact { window := { offset := 0 } }
      [{ base := 0, length := 0, kind := .usable },
        { base := 0x1800, length := 0x4000, kind := .usable }]
      (fun _ _ _ _ _ => rfl)).2 ⟨_, List.mem_cons_of_mem _ (List.mem_cons_self ..), by decide⟩
  have hsplit : before = [{ base := 0, length := 0, kind := .usable }] ∧
      r = { base := 0x1800, length := 0x4000, kind := .usable } ∧ after = [] := by
    rcases before with _ | ⟨r₀, _ | ⟨r₁, before⟩⟩
    · simp only [List.nil_append, List.cons.injEq] at hregions
      rw [← hregions.1] at hr
      exact absurd hr (by decide)
    · simp only [List.cons_append, List.nil_append, List.cons.injEq] at hregions
      exact ⟨by rw [hregions.1], hregions.2.1.symm, hregions.2.2.symm⟩
    · simp at hregions
  obtain ⟨rfl, rfl, rfl⟩ := hsplit
  have hbase : r'.base.toNat = 0x3000 := h.base
  have htop : r'.top = 0x5800 := h.top
  have husable : r'.isUsable = true := by
    rw [Region.isUsable, h.kind]
    rfl
  have hempty : Region.alignedTop { base := 0, length := 0, kind := .usable } = 0 := by decide
  have hbase' : r'.alignedBase = 0x3000 := by
    rw [Region.alignedBase, hbase]
    rfl
  have htop' : r'.alignedTop = 0x5000 := by
    rw [Region.alignedTop, htop]
    rfl
  refine ⟨r', b, m', event, hinstall, hbase, htop, h.frames, fun f => ?_⟩
  have hnone : ¬ (f.number + 1) * 4096 ≤ 0 := by omega
  rw [h.isFree]
  simp only [List.cons_append, List.nil_append, List.mem_cons, List.not_mem_nil, or_false,
    exists_eq_or_imp, exists_eq_left, husable, hempty, hbase', htop', pageSize, hnone, and_false,
    false_or, true_and]
  omega

/-- A region of eight pages, of which a bitmap takes the first one. -/
def sampleRegion : Region :=
  { base := 0x1000, length := 0x8000, kind := .usable }

/-- A bitmap on the region starts with the other seven pages. -/
theorem install_sample : ∃ b m' regions event,
    install { window := { offset := 0 } } [sampleRegion] = .ok (b, m', regions, event) ∧ ∀ log,
      Holds ({ memory := m', source := b, log } : Store Bitmap) ∅ ∧
        freeFrames ({ memory := m', source := b, log } : Store Bitmap) =
          (Finset.range 7).image fun k => .ofNumber (k + 2) := by
  have hr : sampleRegion.Spares (reservation (managed [sampleRegion])) := by decide
  have hset := setAside_of_spares hr
  obtain ⟨event, hinstall⟩ := install_eq_some (m := { window := { offset := 0 } })
    (place?_cons_of_spares hr []) hset rfl rfl
  refine ⟨_, _, _, event, hinstall, fun log => ?_⟩
  have hholds : Holds ({ memory := _, source := _, log } : Store Bitmap) ∅ :=
    holds_install hinstall (by decide) (fun _ _ _ _ _ => rfl) (List.pairwise_singleton _ _)
  have hremaining : ∀ n,
      (remaining (reservation (managed [sampleRegion])) sampleRegion).Contains n ↔
        2 ≤ n ∧ n < 9 := by
    intro n
    rw [Region.Contains, show Region.top _ = 0x9000 by decide,
      show (remaining _ sampleRegion).base.toNat = 0x2000 by decide]
    simp only [pageSize]
    omega
  refine ⟨hholds, ?_⟩
  ext f
  have hfree := isFree_install (m := { window := { offset := 0 } }) hset rfl
    (show [sampleRegion] = [] ++ sampleRegion :: [] from rfl)
    (show [remaining _ sampleRegion] = [] ++ _ :: [] from rfl) f
  rw [isFree, Bool.and_eq_true, decide_eq_true_iff, Bool.not_eq_true'] at hfree
  refine (hholds.sized.mem_freeSet.trans hfree).trans ?_
  simp only [List.mem_singleton, exists_eq_left, hremaining, Finset.mem_image, Finset.mem_range]
  constructor
  · rintro ⟨-, hle, hlt⟩
    refine ⟨f.number - 2, by omega, ?_⟩
    rw [Nat.sub_add_cancel hle, Page.ofNumber_number]
  · rintro ⟨k, hk, rfl⟩
    rw [Page.number_ofNumber (by omega)]
    exact ⟨rfl, by omega, by omega⟩
end

end Bitmap

end KernelMemory
