import KernelMemory.Proofs.Frames.Reservation

/-!
# The bitmap as a set of frame numbers

From outside, a bitmap is a set of free frames: the lowest is handed out, one that comes back is put
in, and the totals count the set.  That holds of every bitmap that was installed, whatever frames
are given back to it, as long as nobody else writes to its words.

* `Bitmap.Reached` — the stores that calls of the bitmap lead to.
* `Bitmap.Reports` — what a bitmap says about its frames is what a set of numbers says.
* **`Bitmap.refines_numbers`** — every call does to the bitmap what it does to the set.
-/

namespace KernelMemory.Bitmap

open KernelMemory.Action

variable {s s' : Store Bitmap} {F : Finset Nat} {n : Nat}

/-! ## Runs -/

/-- A bitmap was installed, and since then its words have only been changed by its own calls. -/
inductive Reached : Store Bitmap → Prop
  | installed {m m' : Memory} {regions regions' : List Region} {b : Bitmap} {event : Log.Event}
      (log : Array Log.Event) : install m regions = .ok (b, m', regions', event) →
      b.isInitialized = true → Reached { memory := m', source := b, log }
  | allocated {s s' : Store Bitmap} {r : Except FrameError Frame} : Reached s →
      allocate.run s = .ok r s' → Reached s'
  | freed {s s' : Store Bitmap} {pa : PhysAddr} : Reached s →
      (free pa).run s = .ok () s' → Reached s'
  /-- Others may do what they like with the rest of memory, and with the log. -/
  | elsewhere {s s' : Store Bitmap} : Reached s → s'.source = s.source →
      (∀ k < s.source.words, s'.memory.word (s.source.slot k) = s.memory.word (s.source.slot k)) →
      Reached s'

/-- What a bitmap says about its frames is what a set of frame numbers says. -/
structure Reports (s : Store Bitmap) (F : Finset Nat) : Prop where
  isFree (f : Frame) : s.source.isFree s.memory f = true ↔ f.number ∈ F
  subset : F ⊆ Finset.range s.source.frames
  freeBytes : s.source.freeBytes s.memory = .ok (pageSize * F.card)
  usedBytes : s.source.usedBytes s.memory = .ok (pageSize * (s.source.frames - F.card))

lemma Padded.reports (h : s.source.Padded s.memory) :
    Reports s (s.source.freeNumbers s.memory) where
  isFree f := by simp [Bitmap.isFree]
  subset := Finset.filter_subset ..
  freeBytes := h.freeBytes_eq
  usedBytes := h.usedBytes_eq

/-! ## One call -/

lemma run_allocate_of_nonempty (hinit : s.source.isInitialized = true)
    (h : s.source.Padded s.memory) (hfree : (s.source.freeNumbers s.memory).Nonempty) :
    allocate.run s = .ok (.ok (.ofNumber ((s.source.freeNumbers s.memory).min' hfree)))
      { s with memory :=
          s.source.take s.memory ((s.source.freeNumbers s.memory).min' hfree) } := by
  change (if s.source.isInitialized = true then _ else _) = _
  rw [if_pos hinit, h.lowestFree?_eq_min' hfree]

lemma run_allocate_of_empty (hinit : s.source.isInitialized = true)
    (h : s.source.Padded s.memory) (hfree : s.source.freeNumbers s.memory = ∅) :
    allocate.run s = .ok (.error .outOfMemory) s := by
  change (if s.source.isInitialized = true then _ else _) = _
  rw [if_pos hinit, h.lowestFree?_eq_none_iff.mpr hfree]

/-- Without a bitmap no frame is taken back. -/
lemma run_free_of_not_initialized (hinit : s.source.isInitialized = false) (pa : PhysAddr) :
    (free pa).run s = .ok () { s with log := s.log.push (.freeWithoutBitmap pa) } := by
  rw [free, run_bind (EStateM.run_get s)]
  simp only [hinit, Bool.not_false, if_true]
  rfl

/-- A frame that is not managed is not taken back. -/
lemma run_free_of_le (hinit : s.source.isInitialized = true) {pa : PhysAddr}
    (hle : s.source.frames ≤ pa.page.number) :
    (free pa).run s =
      .ok () { s with log := s.log.push (.freeBeyondBitmap pa s.source.frames) } := by
  rw [free, run_bind (EStateM.run_get s)]
  simp only [hinit, Bool.not_true, Bool.false_eq_true, if_false, if_pos hle]
  rfl

/-- A frame that is managed is free afterwards, whether or not it was free already. -/
lemma run_free_of_lt (hinit : s.source.isInitialized = true) {pa : PhysAddr}
    (hlt : pa.page.number < s.source.frames) : ∃ log, (free pa).run s =
      .ok () { s with memory := s.source.release s.memory pa.page.number, log } := by
  rw [free, run_bind (EStateM.run_get s)]
  simp only [hinit, Bool.not_true, Bool.false_eq_true, if_false, if_neg hlt.not_ge]
  by_cases htaken : s.source.taken s.memory pa.page.number = true
  · exact ⟨s.log, by rw [if_pos htaken]; rfl⟩
  · exact ⟨s.log.push (.frameFreedTwice pa.page.number), by rw [if_neg htaken]; rfl⟩

/-- A request changes nothing, or takes a frame that was free. -/
lemma Padded.of_allocate {r : Except FrameError Frame} (h : s.source.Padded s.memory)
    (hrun : allocate.run s = .ok r s') : (s' = s ∧ ∃ e, r = .error e) ∨
      ∃ n ∈ s.source.freeNumbers s.memory, r = .ok (.ofNumber n) ∧
        s' = { s with memory := s.source.take s.memory n } := by
  cases hinit : s.source.isInitialized with
  | false =>
      have hrun' : allocate.run s = .ok (.error .uninitialized) s := by
        change (if s.source.isInitialized = true then _ else _) = _
        rw [if_neg (by simp [hinit])]
      rw [hrun'] at hrun
      cases hrun
      exact .inl ⟨rfl, _, rfl⟩
  | true =>
      rcases (s.source.freeNumbers s.memory).eq_empty_or_nonempty with hfree | hfree
      · rw [run_allocate_of_empty hinit h hfree] at hrun
        cases hrun
        exact .inl ⟨rfl, _, rfl⟩
      · rw [run_allocate_of_nonempty hinit h hfree] at hrun
        cases hrun
        exact .inr ⟨_, Finset.min'_mem _ hfree, rfl, rfl⟩

/-- A frame that is given back changes nothing but the log, or is free afterwards. -/
lemma of_free {pa : PhysAddr} (hrun : (free pa).run s = .ok () s') : s'.source = s.source ∧
    (s'.memory = s.memory ∨ pa.page.number < s.source.frames ∧
      s'.memory = s.source.release s.memory pa.page.number) := by
  cases hinit : s.source.isInitialized with
  | false =>
      rw [run_free_of_not_initialized hinit] at hrun
      cases hrun
      exact ⟨rfl, .inl rfl⟩
  | true =>
      rcases lt_or_ge pa.page.number s.source.frames with hlt | hle
      · obtain ⟨log, hrun'⟩ := run_free_of_lt hinit hlt
        rw [hrun'] at hrun
        cases hrun
        exact ⟨rfl, .inr ⟨hlt, rfl⟩⟩
      · rw [run_free_of_le hinit hle] at hrun
        cases hrun
        exact ⟨rfl, .inl rfl⟩

/-- A request is granted while a frame is free. -/
lemma Padded.allocates {b : Bitmap} {m : Memory} (h : b.Padded m) (hn : n ∈ b.freeNumbers m)
    (log : Array Log.Event) :
    ∃ f s, allocate.run { memory := m, source := b, log } = .ok (.ok f) s := by
  have hinit := h.placed.isInitialized (mem_freeNumbers.mp hn).1
  exact ⟨_, _, run_allocate_of_nonempty (s := { memory := m, source := b, log }) hinit h ⟨n, hn⟩⟩

/-- Requests leave the bits without a frame set. -/
lemma Padded.allocated {r : Except FrameError Frame} (h : s.source.Padded s.memory)
    (hrun : allocate.run s = .ok r s') : s'.source = s.source ∧ s'.source.Padded s'.memory := by
  rcases h.of_allocate hrun with ⟨rfl, -⟩ | ⟨n, hn, -, rfl⟩
  · exact ⟨rfl, h⟩
  · exact ⟨rfl, h.take (mem_freeNumbers.mp hn).1⟩

/-- Frames that are given back leave the bits without a frame set. -/
lemma Padded.freed {pa : PhysAddr} (h : s.source.Padded s.memory)
    (hrun : (free pa).run s = .ok () s') : s'.source = s.source ∧ s'.source.Padded s'.memory := by
  obtain ⟨hsource, hmemory⟩ := of_free hrun
  rw [hsource]
  rcases hmemory with hmemory | ⟨hlt, hmemory⟩
  · exact ⟨rfl, hmemory ▸ h⟩
  · exact ⟨rfl, hmemory ▸ h.release hlt⟩

/-! ## All calls -/

/-- Without a bitmap no bit is without a frame. -/
lemma padded_uninitialized {m : Memory} : ({} : Bitmap).Padded m :=
  ⟨⟨Nat.le_refl _, fun hk => (by cases hk)⟩, by decide, by decide,
    fun _ hlt => absurd hlt (Nat.not_lt_zero _)⟩

/-- The bits without a frame are set once a bitmap is installed. -/
lemma padded_of_install {m m' : Memory} {regions regions' : List Region} {b : Bitmap}
    {event : Log.Event} (hinstall : install m regions = .ok (b, m', regions', event)) :
    b.Padded m' := by
  rcases install_spec hinstall with ⟨rfl, -⟩ | ⟨p, start, hplan, hplace, hb, rfl⟩
  · exact padded_uninitialized
  · rw [plan_eq] at hplan
    obtain rfl := Except.ok.inj hplan
    obtain ⟨before, r, r', after, rfl, rfl, hset⟩ := place?_spec hplace
    exact padded_install hset hb

/-- The bits without a frame stay set, and there is a bitmap. -/
lemma Reached.padded (h : Reached s) :
    s.source.isInitialized = true ∧ s.source.Padded s.memory := by
  induction h with
  | installed log hinstall hinit => exact ⟨hinit, padded_of_install hinstall⟩
  | allocated _ hrun ih =>
      obtain ⟨hsource, h⟩ := ih.2.allocated hrun
      exact ⟨hsource ▸ ih.1, h⟩
  | freed _ hrun ih =>
      obtain ⟨hsource, h⟩ := ih.2.freed hrun
      exact ⟨hsource ▸ ih.1, h⟩
  | elsewhere _ hsource hwords ih =>
      rw [hsource]
      exact ⟨ih.1, ih.2.congr fun k hk => congrArg UInt64.toNat (hwords k hk)⟩

/-- **A bitmap is a set of frame numbers**: it hands out the least and takes out just that, it says
that it is out of memory exactly if the set is empty, and it puts in what is given back. -/
theorem refines_numbers (h : Reached s) : ∃ F, Reports s F ∧
    (F = ∅ → allocate.run s = .ok (.error .outOfMemory) s) ∧
    (∀ hF : F.Nonempty, ∃ f s', allocate.run s = .ok (.ok f) s' ∧ f.number = F.min' hF ∧
      s'.source = s.source ∧ Reports s' (F.erase (F.min' hF))) ∧
    ∀ pa : PhysAddr, ∃ s', (free pa).run s = .ok () s' ∧ s'.source = s.source ∧
      (pa.value.toNat / pageSize < s.source.frames →
        Reports s' (insert (pa.value.toNat / pageSize) F)) ∧
      (s.source.frames ≤ pa.value.toNat / pageSize → s'.memory = s.memory) := by
  obtain ⟨hinit, hpadded⟩ := h.padded
  refine ⟨s.source.freeNumbers s.memory, hpadded.reports, run_allocate_of_empty hinit hpadded,
    fun hfree => ?_, fun pa => ?_⟩
  · have hlt := (mem_freeNumbers.mp (Finset.min'_mem _ hfree)).1
    refine ⟨_, _, run_allocate_of_nonempty hinit hpadded hfree, ?_, rfl, ?_⟩
    · exact Page.number_ofNumber (hlt.trans hpadded.frames_lt)
    · rw [← hpadded.freeNumbers_take hlt]
      exact (hpadded.take hlt).reports
  · change ∃ s', _ ∧ _ ∧ (pa.page.number < _ → Reports s' (insert pa.page.number _)) ∧
      (_ ≤ pa.page.number → _)
    rcases lt_or_ge pa.page.number s.source.frames with hlt | hle
    · obtain ⟨log, hrun⟩ := run_free_of_lt hinit hlt
      refine ⟨_, hrun, rfl, fun _ => ?_, fun hle => absurd hlt hle.not_gt⟩
      rw [← hpadded.freeNumbers_release hlt]
      exact (hpadded.release hlt).reports
    · exact ⟨_, run_free_of_le hinit hle, rfl, fun hlt => absurd hlt hle.not_gt, fun _ => rfl⟩

/-- Four frames, of which the first is never free unless it is given back. -/
theorem refines_numbers_sample : ∃ s F s', Reached s ∧ s.source.frames = 4 ∧ Reports s F ∧
    (free (.ofNat 0x123)).run s = .ok () s' ∧ Reports s' (insert 0 F) := by
  have hspares : Region.Spares (reservation (managed [⟨0x1000, 0x3000, .usable⟩]))
      ⟨0x1000, 0x3000, .usable⟩ := by decide
  obtain ⟨event, hinstall⟩ := install_eq_some (m := { window := { offset := 0 } })
    (place?_cons_of_spares hspares []) (setAside_of_spares hspares) rfl rfl
  have hreached := Reached.installed ∅ hinstall (by decide)
  obtain ⟨F, hreports, -, -, hfree⟩ := refines_numbers hreached
  obtain ⟨s', hrun, -, hinsert, -⟩ := hfree (.ofNat 0x123)
  exact ⟨_, F, s', hreached, by decide, hreports, hrun, hinsert (by decide)⟩

end KernelMemory.Bitmap
