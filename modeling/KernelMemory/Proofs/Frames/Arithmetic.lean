import KernelMemory.Proofs.Frames.FreeSet

/-!
# The arithmetic of the bitmap

The kernel computes with 64-bit numbers and panics where a result does not fit, or where a word is
asked for that is not there.  The operations of the bitmap count frames without these checks.  Here
they are written out with every check in its place, and none of the checks ever fails: whatever the
regions are and whatever is given back, both forms do the same.  What carries the subtractions is
that the bits without a frame stay set.

* `Bitmap.installChecked`, `Bitmap.allocateChecked`, `Bitmap.freeChecked` — the operations with all
  their checks.
* `Bitmap.InService` — the states that calls lead to, with a bitmap or without.
* `Bitmap.InstallFits`, `Bitmap.Fits` — no check fails.
* **`Bitmap.arithmetic_fits`** — for all regions, and in all states.
-/

namespace KernelMemory

/-- A fold that no check stops is a fold. -/
lemma Checked.foldlM_eq_ok {α β : Type} {f : β → α → Except Panic β} {g : β → α → β}
    {as : List α} (h : ∀ a ∈ as, ∀ b, f b a = .ok (g b a)) (b : β) :
    as.foldlM f b = .ok (as.foldl g b) := by
  induction as generalizing b with
  | nil => rfl
  | cons a as ih =>
      rw [List.forall_mem_cons] at h
      rw [List.foldlM_cons, List.foldl_cons, h.1 b]
      exact ih h.2 (g b a)

namespace Bitmap

open KernelMemory.Action

/-! ## Operations with every check -/

/-- The position of the word that has the bit of a frame, which must be a word of the bitmap. -/
def wordOf (b : Bitmap) (frame : Nat) : Except Panic Nat :=
  if frame / wordBits < b.words then .ok (frame / wordBits)
  else .error (.indexOutOfBounds b.words (frame / wordBits))

/-- Whether a bit is set. -/
def takenChecked (b : Bitmap) (m : Memory) (frame : Nat) : Except Panic Bool := do
  let k ← b.wordOf frame
  return (b.bits m k).testBit (frame % wordBits)

/-- Clears the bit of a frame. -/
def releaseChecked (b : Bitmap) (m : Memory) (frame : Nat) : Except Panic Memory := do
  let s := b.slot (← b.wordOf frame)
  return m.setWord s (m.word s &&& ~~~ UInt64.ofNat (2 ^ (frame % wordBits)))

/-- Clears the bits of the frames from `first` up to `stop`, as far as they are managed. -/
def releaseRangeChecked (b : Bitmap) (m : Memory) (first stop : Nat) : Except Panic Memory :=
  (List.range' first (min stop b.frames - first)).foldlM b.releaseChecked m

/-- The lowest clear bit among `count` words from word `k` on, as the number of its frame. -/
def findFreeChecked (b : Bitmap) (m : Memory) (k : Nat) : (count : Nat) → Except Panic (Option Nat)
  | 0 => return none
  | count + 1 =>
    match lowestClear? (b.bits m k) wordBits with
    | some i => do return some (← Checked.add (← Checked.mul k wordBits) i)
    | none => b.findFreeChecked m (k + 1) count

/-- Takes the lowest free frame. -/
def allocateChecked : Action (Store Bitmap) (Except FrameError Frame) := do
  let { source := b, memory := m, .. } ← get
  if !b.isInitialized then
    return .error .uninitialized
  let found ← Action.ofExcept (b.findFreeChecked m 0 b.words)
  match found.filter fun frame => frame < b.frames with
  | none => return .error .outOfMemory
  | some frame =>
    let s := b.slot (← Action.ofExcept (b.wordOf frame))
    modify fun store =>
      { store with memory := m.setWord s (m.word s ||| UInt64.ofNat (2 ^ (frame % wordBits))) }
    return .ok (.ofNumber frame)

/-- Gives back the frame that contains an address. -/
def freeChecked (pa : PhysAddr) : Action (Store Bitmap) Unit := do
  let { source := b, memory := m, .. } ← get
  let frame := pa.page.number
  if !b.isInitialized then
    Store.note (.freeWithoutBitmap pa)
  else if b.frames ≤ frame then
    Store.note (.freeBeyondBitmap pa b.frames)
  else
    unless ← Action.ofExcept (b.takenChecked m frame) do
      Store.note (.frameFreedTwice frame)
    let stop ← Action.ofExcept (Checked.add frame 1)
    let m ← Action.ofExcept (b.releaseRangeChecked m frame stop)
    modify fun s => { s with memory := m }

/-- Finds room in the first usable region that has enough whole pages. -/
def placeChecked (reservation : Nat) : List Region → Except Panic (Option (Nat × List Region))
  | [] => return none
  | r :: rest => do
    let room? := if r.isUsable then r.pageSpan? else none
    if let some (start, stop) := room? then
      if reservation ≤ (← Checked.sub stop start) then
        return some (start, (← shrink r start reservation) :: rest)
    return (← placeChecked reservation rest).map fun (start, rest) => (start, r :: rest)

/-- Clears the bits of the whole pages of the usable regions. -/
def releaseUsableChecked (b : Bitmap) (m : Memory) (regions : List Region) : Except Panic Memory :=
  ((regions.filter Region.isUsable).filterMap Region.pageSpan?).foldlM
    (fun m (start, stop) => b.releaseRangeChecked m (start / pageSize) (stop / pageSize)) m

/-- Installs a bitmap for the regions in memory. -/
def installChecked (m : Memory) (regions : List Region) :
    Except Panic (Bitmap × Memory × List Region × Log.Event) := do
  let plan ← plan regions
  match ← placeChecked plan.reservation regions with
  | none => return ({}, m, regions, .bitmapHomeless plan.reservation plan.frames)
  | some (start, regions) =>
    let home : PhysAddr := .ofNat start
    let _ ← m.window.pointer home
    let b : Bitmap := { home := home.page, words := plan.words, frames := plan.frames }
    let m ← b.releaseUsableChecked (b.fill m) regions
    return (b, m, regions, .bitmapReady plan.frames plan.reservation home (← b.freeBytes m))

/-! ## No word is missed -/

variable {b : Bitmap} {m : Memory} {n first stop : Nat} {s s' : Store Bitmap}
  {regions regions' : List Region}

lemma wordOf_eq (hn : n < b.words * wordBits) : b.wordOf n = .ok (n / wordBits) :=
  if_pos (word_lt hn)

namespace Placed

lemma takenChecked_eq (hb : b.Placed) (hn : n < b.frames) :
    b.takenChecked m n = .ok (b.taken m n) := by
  rw [takenChecked, wordOf_eq (hb.bit_lt hn)]
  rfl

lemma releaseChecked_eq (hb : b.Placed) (hn : n < b.frames) :
    b.releaseChecked m n = .ok (b.release m n) := by
  rw [releaseChecked, wordOf_eq (hb.bit_lt hn)]
  rfl

/-- A range of frames is released without leaving the bitmap. -/
lemma releaseRangeChecked_eq (hb : b.Placed) :
    b.releaseRangeChecked m first stop = .ok (b.releaseRange m first (stop - first)) := by
  have hcount : min stop b.frames - first = min (stop - first) (b.frames - first) := by omega
  rw [releaseRangeChecked, releaseRange, ← hcount, List.range'_eq_map_range, List.foldlM_map]
  refine Checked.foldlM_eq_ok (fun k hk m => hb.releaseChecked_eq ?_) m
  have := List.mem_range.mp hk
  omega

lemma releaseUsableChecked_eq (hb : b.Placed) :
    b.releaseUsableChecked m regions = .ok (b.releaseUsable m regions) := by
  rw [releaseUsableChecked, releaseUsable]
  exact Checked.foldlM_eq_ok (fun _ _ _ => hb.releaseRangeChecked_eq) m

end Placed

lemma release_eq_releaseRange (hn : n < b.frames) :
    b.releaseRange m n (n + 1 - n) = b.release m n := by
  rw [releaseRange, Nat.add_sub_cancel_left, Nat.min_eq_left (by omega)]
  rfl

lemma lowestClear?_lt {word count i : Nat} (hfind : lowestClear? word count = some i) :
    i < count := by
  rw [lowestClear?_eq_find?] at hfind
  exact List.mem_range.mp (List.mem_of_find?_eq_some hfind)

/-- The number of a frame that is found fits. -/
lemma findFreeChecked_eq {k count : Nat} (hfits : (k + count) * wordBits < 2 ^ 64) :
    b.findFreeChecked m k count = .ok (b.findFree? m k count) := by
  induction count generalizing k with
  | zero => rfl
  | succ count ih =>
      simp only [wordBits] at hfits
      rw [findFreeChecked, findFree?]
      cases hfind : lowestClear? (b.bits m k) wordBits with
      | none => exact ih (by simp only [wordBits]; omega)
      | some i =>
          have hi := lowestClear?_lt hfind
          simp only [wordBits] at hi
          refine Checked.bind_eq_ok.mpr ⟨_, Checked.mul_eq_ok_iff.mpr ⟨?_, rfl⟩, ?_⟩
          · simp only [wordBits]
            omega
          refine Checked.bind_eq_ok.mpr ⟨_, Checked.add_eq_ok_iff.mpr ⟨?_, rfl⟩, rfl⟩
          simp only [wordBits]
          omega

/-! ## Calls -/

/-- A request passes all its checks. -/
lemma Padded.run_allocateChecked (h : s.source.Padded s.memory) :
    allocateChecked.run s = allocate.run s := by
  obtain ⟨m, b, log⟩ := s
  have htight : b.words * wordBits < b.frames + wordBits := h.tight
  have hframes : b.frames < 2 ^ 52 := h.frames_lt
  have hfound : b.findFreeChecked m 0 b.words = .ok (b.findFree? m 0 b.words) := by
    refine findFreeChecked_eq ?_
    simp only [wordBits] at htight ⊢
    omega
  change _ = (if b.isInitialized = true then _ else _)
  rw [allocateChecked, run_bind (EStateM.run_get _)]
  cases hinit : b.isInitialized with
  | false =>
      simp only [hinit, Bool.not_false, if_true]
      rfl
  | true =>
      simp only [hinit, Bool.not_true, Bool.false_eq_true, if_false, if_true]
      rw [run_bind (run_ofExcept hfound), lowestFree?]
      cases hfilter : (b.findFree? m 0 b.words).filter fun frame => frame < b.frames with
      | none => rfl
      | some frame =>
          have hlt : frame < b.frames := by
            simpa using (Option.filter_eq_some_iff.mp hfilter).2
          exact run_bind (run_ofExcept (wordOf_eq (h.placed.bit_lt hlt)))

/-- A frame that is given back passes all its checks. -/
lemma Padded.run_freeChecked (h : s.source.Padded s.memory) (pa : PhysAddr) :
    (freeChecked pa).run s = (free pa).run s := by
  obtain ⟨m, b, log⟩ := s
  have hframes : b.frames < 2 ^ 52 := h.frames_lt
  rw [freeChecked, free, run_bind (EStateM.run_get _), run_bind (EStateM.run_get _)]
  cases hinit : b.isInitialized with
  | false => simp only [hinit, Bool.not_false, if_true]
  | true =>
      simp only [hinit, Bool.not_true, Bool.false_eq_true, if_false]
      split
      case isTrue => rfl
      case isFalse hlt =>
        have hlt : pa.page.number < b.frames := not_le.mp hlt
        have hnext : Checked.add pa.page.number 1 = .ok (pa.page.number + 1) :=
          Checked.add_eq_ok_iff.mpr ⟨by omega, rfl⟩
        have hrelease : b.releaseRangeChecked m pa.page.number (pa.page.number + 1) =
            .ok (b.release m pa.page.number) := by
          rw [h.placed.releaseRangeChecked_eq, release_eq_releaseRange hlt]
        have hclear : ∀ s : Store Bitmap, EStateM.run (do
            let stop ← Action.ofExcept (Checked.add pa.page.number 1)
            let m ← Action.ofExcept (b.releaseRangeChecked m pa.page.number stop)
            modify fun s => { s with memory := m }) s =
              .ok () { s with memory := b.release m pa.page.number } := by
          intro s
          rw [run_bind (run_ofExcept hnext), run_bind (run_ofExcept hrelease)]
          rfl
        rw [run_bind (run_ofExcept (h.placed.takenChecked_eq hlt))]
        cases b.taken m pa.page.number with
        | true =>
            simp only [if_true]
            exact hclear _
        | false =>
            simp only [Bool.false_eq_true, if_false]
            exact hclear _

/-! ## Installation -/

lemma placeChecked_eq {size : Nat} : placeChecked size regions = place? size regions := by
  induction regions with
  | nil => rfl
  | cons r regions ih =>
      rw [placeChecked, place?, ih]
      cases hroom : if r.isUsable = true then r.pageSpan? else none with
      | none => rfl
      | some span =>
          obtain ⟨start, stop⟩ := span
          have hle : start ≤ stop := by
            split at hroom
            · exact (Region.pageSpan?_spec hroom).2.2.1.le
            · cases hroom
          have hsub : Checked.sub stop start = .ok (stop - start) := if_pos hle
          change (Checked.sub stop start >>= _) = _
          rw [hsub]
          rfl

/-- The length of what remains is what is left of the region. -/
lemma length_remaining {size : Nat} {r : Region} (hr : r.Spares size) :
    (remaining size r).base.toNat ≤ r.top ∧
      (remaining size r).length.toNat = r.top - (remaining size r).base.toNat := by
  obtain ⟨-, hlt, hsize⟩ := hr
  have hle := r.alignedTop_le
  have htop := r.top_lt
  have hfits : r.alignedBase + size ≤ r.top := by omega
  have hbase : (remaining size r).base.toNat = r.alignedBase + size :=
    UInt64.toNat_ofNat_of_lt' (hfits.trans_lt htop)
  rw [hbase]
  exact ⟨hfits, UInt64.toNat_ofNat_of_lt' ((Nat.sub_le ..).trans_lt htop)⟩

/-- **No check of an installation fails** but that of the window, and what remains of the region
that gives the room is what lies between its new base and its old end. -/
structure InstallFits (m : Memory) (regions : List Region) : Prop where
  agrees : installChecked m regions = install m regions
  panics {p : Panic} : install m regions = .error p → ∃ pa frames, p = .outsideMemory pa frames
  returns : m.window.frames? = none → ∃ installed, install m regions = .ok installed
  shrunk {b : Bitmap} {m' : Memory} {regions' : List Region} {event : Log.Event} :
    install m regions = .ok (b, m', regions', event) → regions' = regions ∨
      ∃ before r r' after, regions = before ++ r :: after ∧ regions' = before ++ r' :: after ∧
        r'.base.toNat ≤ r.top ∧ r'.length.toNat = r.top - r'.base.toNat

/-- An installation passes all its checks. -/
lemma installChecked_of_install {installed : Bitmap × Memory × List Region × Log.Event}
    (hinstall : install m regions = .ok installed) : installChecked m regions = .ok installed := by
  rw [install] at hinstall
  obtain ⟨p, hplan, hinstall⟩ := Checked.bind_eq_ok.mp hinstall
  obtain ⟨found, hplace, hinstall⟩ := Checked.bind_eq_ok.mp hinstall
  refine Checked.bind_eq_ok.mpr ⟨p, hplan, ?_⟩
  refine Checked.bind_eq_ok.mpr ⟨found, placeChecked_eq.trans hplace, ?_⟩
  rcases found with _ | ⟨start, rest⟩
  · exact hinstall
  · obtain ⟨before, r, r', after, -, -, hset⟩ := place?_spec hplace
    obtain ⟨pointer, hpointer, hinstall⟩ := Checked.bind_eq_ok.mp hinstall
    have hrelease : (planned p start).releaseUsableChecked ((planned p start).fill m) rest = _ :=
      (placed_planned hplan hset).releaseUsableChecked_eq
    exact Checked.bind_eq_ok.mpr ⟨pointer, hpointer,
      Checked.bind_eq_ok.mpr ⟨_, hrelease, hinstall⟩⟩

/-- An installation fails only where the window does not show the room. -/
lemma install_fails {p : Panic} (hinstall : install m regions = .error p) :
    ∃ pa, m.window.pointer pa = .error p ∧ installChecked m regions = .error p := by
  rcases place?_cases (reservation (managed regions)) regions with
    ⟨hnone, -⟩ | ⟨before, r, after, -, -, hr, hplace⟩
  · obtain ⟨event, hinstall'⟩ := install_none (m := m) hnone
    rw [hinstall'] at hinstall
    cases hinstall
  · cases hpointer : m.window.pointer (.ofNat r.alignedBase) with
    | ok pointer =>
        obtain ⟨event, hinstall'⟩ :=
          install_of_pointer hplace (setAside_of_spares hr) rfl hpointer
        rw [hinstall'] at hinstall
        cases hinstall
    | error q =>
        rw [install, plan_eq] at hinstall
        change (place? (reservation (managed regions)) regions >>= _) = _ at hinstall
        rw [hplace] at hinstall
        change (m.window.pointer (.ofNat r.alignedBase) >>= _) = _ at hinstall
        rw [hpointer] at hinstall
        cases hinstall
        refine ⟨_, hpointer, ?_⟩
        rw [installChecked, plan_eq]
        change (placeChecked (reservation (managed regions)) regions >>= _) = _
        rw [placeChecked_eq, hplace]
        change (m.window.pointer (.ofNat r.alignedBase) >>= _) = _
        rw [hpointer]
        rfl

lemma installFits (m : Memory) (regions : List Region) : InstallFits m regions := by
  constructor
  case agrees =>
    cases hinstall : install m regions with
    | ok installed => exact installChecked_of_install hinstall
    | error p =>
        obtain ⟨-, -, hchecked⟩ := install_fails hinstall
        exact hchecked
  case panics =>
    intro p hinstall
    obtain ⟨pa, hpointer, -⟩ := install_fails hinstall
    rw [Window.pointer] at hpointer
    split at hpointer
    · split at hpointer
      · cases hpointer
      · cases hpointer
        exact ⟨_, _, rfl⟩
    · cases hpointer
  case returns =>
    intro hwindow
    cases hinstall : install m regions with
    | ok installed => exact ⟨_, rfl⟩
    | error p =>
        obtain ⟨pa, hpointer, -⟩ := install_fails hinstall
        rw [Window.pointer, hwindow] at hpointer
        cases hpointer
  case shrunk =>
    intro b m' regions' event hinstall
    rcases install_spec hinstall with ⟨-, -, hregions⟩ | ⟨p, start, hplan, hplace, -⟩
    · exact .inl hregions
    · rw [plan_eq] at hplan
      cases hplan
      rcases place?_cases (needed regions).reservation regions with
        ⟨-, hplace'⟩ | ⟨before, r, after, hregions, -, hr, hplace'⟩
      · cases hplace'.symm.trans hplace
      · cases hplace'.symm.trans hplace
        exact .inr ⟨before, r, _, after, hregions, rfl, length_remaining hr⟩

/-! ## States -/

/-- **The stores that calls lead to**, with a bitmap or without, while nobody else writes to its
words. -/
inductive InService : Store Bitmap → Prop
  | absent {s : Store Bitmap} : s.source = {} → InService s
  | installed {m m' : Memory} {regions regions' : List Region} {b : Bitmap} {event : Log.Event}
      (log : Array Log.Event) : install m regions = .ok (b, m', regions', event) →
      InService { memory := m', source := b, log }
  | allocated {s s' : Store Bitmap} {r : Except FrameError Frame} : InService s →
      allocate.run s = .ok r s' → InService s'
  | freed {s s' : Store Bitmap} {pa : PhysAddr} : InService s →
      (free pa).run s = .ok () s' → InService s'
  | elsewhere {s s' : Store Bitmap} : InService s → s'.source = s.source →
      (∀ k < s.source.words, s'.memory.word (s.source.slot k) = s.memory.word (s.source.slot k)) →
      InService s'

lemma InService.padded (h : InService s) : s.source.Padded s.memory := by
  induction h with
  | absent hsource => exact hsource ▸ padded_uninitialized
  | installed log hinstall => exact padded_of_install hinstall
  | allocated _ hrun ih => exact (ih.allocated hrun).2
  | freed _ hrun ih => exact (ih.freed hrun).2
  | elsewhere _ hsource hwords ih =>
      exact hsource ▸ ih.congr fun k hk => congrArg UInt64.toNat (hwords k hk)

/-- **No check of a call fails**, and the totals can be counted. -/
structure Fits (s : Store Bitmap) : Prop where
  allocate : allocateChecked.run s = Bitmap.allocate.run s ∧
    ∃ r s', Bitmap.allocate.run s = .ok r s'
  free (pa : PhysAddr) : (freeChecked pa).run s = (Bitmap.free pa).run s ∧
    ∃ s', (Bitmap.free pa).run s = .ok () s'
  /-- There are at least as many set bits as bits without a frame. -/
  padding : s.source.words * wordBits - s.source.frames ≤
    ((List.range s.source.words).map fun k => onesCount (s.source.bits s.memory k) wordBits).sum
  totals : ∃ free total, s.source.freeBytes s.memory = .ok free ∧
    s.source.totalBytes = .ok total ∧ s.source.usedBytes s.memory = .ok (total - free) ∧
    free ≤ total ∧ total ≤ 2 ^ 64 - 4096

lemma run_allocate_returns (s : Store Bitmap) : ∃ r s', allocate.run s = .ok r s' := by
  change ∃ r s', (if s.source.isInitialized = true then _ else _) = _
  split
  · split
    · exact ⟨_, _, rfl⟩
    · exact ⟨_, _, rfl⟩
  · exact ⟨_, _, rfl⟩

lemma run_free_returns (s : Store Bitmap) (pa : PhysAddr) :
    ∃ s', (free pa).run s = .ok () s' := by
  cases hinit : s.source.isInitialized with
  | false => exact ⟨_, run_free_of_not_initialized hinit pa⟩
  | true =>
      rcases lt_or_ge pa.page.number s.source.frames with hlt | hle
      · obtain ⟨log, hrun⟩ := run_free_of_lt hinit hlt
        exact ⟨_, hrun⟩
      · exact ⟨_, run_free_of_le hinit hle⟩

lemma Padded.fits (h : s.source.Padded s.memory) : Fits s where
  allocate := ⟨h.run_allocateChecked, run_allocate_returns s⟩
  free pa := ⟨h.run_freeChecked pa, run_free_returns s pa⟩
  padding := by
    rw [h.sum_onesCount_eq]
    exact Nat.le_add_left ..
  totals := by
    have hframes := h.frames_lt
    have hcard := card_freeNumbers_le (b := s.source) (m := s.memory)
    have htotal : s.source.totalBytes = .ok (pageSize * s.source.frames) := by
      rw [Nat.mul_comm]
      exact Checked.mul_eq_ok_iff.mpr ⟨by simp only [pageSize]; omega, rfl⟩
    refine ⟨_, _, h.freeBytes_eq, htotal, ?_, Nat.mul_le_mul_left pageSize hcard, ?_⟩
    · rw [h.usedBytes_eq, Nat.mul_sub]
    · simp only [pageSize]
      omega

/-- **The arithmetic of the bitmap never fails.** -/
theorem arithmetic_fits :
    (∀ m regions, InstallFits m regions) ∧ ∀ {s : Store Bitmap}, InService s → Fits s :=
  ⟨installFits, fun h => h.padded.fits⟩

/-- A region runs over the end of the address space, and a frame is given back that lies beyond all
that are managed. -/
theorem arithmetic_fits_sample : ∃ (s s' : Store Bitmap) (regions : List Region)
    (event : Log.Event), install { window := { offset := 0 } }
        [{ base := 0x1800, length := 0xffffffffffffffff, kind := .usable }] =
          .ok (s.source, s.memory, regions, event) ∧
      (free ⟨0xfffffffffffffabc⟩).run s = .ok () s' ∧ Fits s' := by
  obtain ⟨⟨b, m', regions, event⟩, hinstall⟩ := (arithmetic_fits.1 { window := { offset := 0 } }
    [{ base := 0x1800, length := 0xffffffffffffffff, kind := .usable }]).returns rfl
  have hs := InService.installed #[] hinstall
  obtain ⟨s', hrun⟩ :=
    run_free_returns { memory := m', source := b, log := #[] } ⟨0xfffffffffffffabc⟩
  exact ⟨_, s', regions, event, hinstall, hrun, arithmetic_fits.2 (hs.freed hrun)⟩

end Bitmap

end KernelMemory
