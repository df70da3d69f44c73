import KernelMemory.Boot
import KernelMemory.Proofs.Frames.FreeSet
import Mathlib.Data.List.Pairwise

/-!
# From the memory map to the frames

Which frames are ever handed out is decided by the bootloader's memory map, in several steps: the
map is cut off after `maxRegions` entries, type numbers become kinds, regions are reduced to their
whole pages, one of them gives room for the bits, and the bits are scanned.  Every step can only
lose memory.  So a frame that is handed out lies in one usable entry of the map, and if that entry
shares no byte with another one, in no other entry.

* `BootEntry.Covers`, `BootEntry.Encloses` — the bytes and the whole frames of an entry.
* `Bitmap.Handed` — the frames that were handed out since a bitmap was installed.
* **`Bitmap.Handed.kept`** — they were all free in the beginning.
* **`BootMemory.hands_out_usable`** — they lie in usable entries of the map.
-/

namespace KernelMemory

/-! ## Entries of the map -/

namespace BootEntry

variable {e e' : BootEntry} {f : Frame}

/-- A byte of physical memory lies in the entry. -/
def Covers (e : BootEntry) (pa : PhysAddr) : Prop :=
  e.base.toNat ≤ pa.value.toNat ∧ pa.value.toNat < e.base.toNat + e.length.toNat

/-- All bytes of a frame lie in the entry. -/
def Encloses (e : BootEntry) (f : Frame) : Prop :=
  ∀ pa : PhysAddr, pa.page = f → e.Covers pa

/-- No byte of physical memory lies in both entries, if one of them is usable. -/
def Apart (e e' : BootEntry) : Prop :=
  e.type = 0 ∨ e'.type = 0 → ∀ pa : PhysAddr, e.Covers pa → ¬ e'.Covers pa

instance : Std.Symm Apart where
  symm _ _ happart hor pa hpa hpa' := happart hor.symm pa hpa' hpa

/-- Exactly the entries of type zero are usable. -/
lemma isUsable_region : e.region.isUsable = true ↔ e.type = 0 := by
  rw [Region.isUsable, beq_iff_eq, region, RegionKind.ofBootType, ← UInt64.toNat_inj]
  split <;> simp_all

/-- A frame of the region lies in the entry. -/
lemma encloses_of_contains (hin : e.region.Contains f.number) : e.Encloses f := by
  obtain ⟨hbase, htop⟩ := hin
  rintro pa rfl
  have hend : e.region.top ≤ e.base.toNat + e.length.toNat := Nat.min_le_left ..
  have hle : e.base.toNat ≤ pa.page.number * pageSize := hbase
  simp only [Address.page, pageSize] at hle htop
  simp only [Covers]
  omega

/-- An entry that shares no byte with another one has no frame that shares a byte with it. -/
lemma not_covers {entries : List BootEntry} {pa : PhysAddr} (hs : entries.Pairwise Apart)
    (he : e ∈ entries) (he' : e' ∈ entries) (htype : e.type = 0) (htype' : e'.type ≠ 0)
    (hcovers : e.Covers pa) : ¬ e'.Covers pa := by
  have hne : e ≠ e' := fun heq => htype' (heq ▸ htype)
  exact hs.forall he he' hne (.inl htype) pa hcovers

/-- Usable regions have no frame in common if the usable entries are apart. -/
lemma pairwise_regions {entries : List BootEntry} (hs : entries.Pairwise Apart) :
    (entries.map region).Pairwise fun r r' => r.isUsable = true → r'.isUsable = true →
      ∀ n, r.Contains n → ¬ r'.Contains n := by
  rw [List.pairwise_map]
  refine hs.imp fun {e e'} happart husable _ n hin hin' => ?_
  have hlt : n < 2 ^ 52 := by
    have htop := hin.2.trans_lt Region.top_lt
    simp only [pageSize] at htop
    omega
  obtain ⟨f, rfl⟩ : ∃ f : Frame, f.number = n := ⟨.ofNumber n, Page.number_ofNumber hlt⟩
  exact happart (.inl (isUsable_region.mp husable)) _
    (encloses_of_contains hin _ (Address.page_base f))
    (encloses_of_contains hin' _ (Address.page_base f))

end BootEntry

/-! ## Frames that are handed out -/

namespace Bitmap

open KernelMemory.Action

/-- **The frames that were handed out** since a bitmap was installed, while frames that were handed
out have been given back, by any of their addresses and perhaps more than once. -/
inductive Handed (s₀ : Store Bitmap) : Store Bitmap → Finset Frame → Prop
  | installed : Handed s₀ s₀ ∅
  | allocated {s s' : Store Bitmap} {handed : Finset Frame} {f : Frame} : Handed s₀ s handed →
      allocate.run s = .ok (.ok f) s' → Handed s₀ s' (insert f handed)
  | refused {s s' : Store Bitmap} {handed : Finset Frame} {e : FrameError} : Handed s₀ s handed →
      allocate.run s = .ok (.error e) s' → Handed s₀ s' handed
  | freed {s s' : Store Bitmap} {handed : Finset Frame} {pa : PhysAddr} : Handed s₀ s handed →
      pa.page ∈ handed → (free pa).run s = .ok () s' → Handed s₀ s' handed
  /-- Others may do what they like with the rest of memory, and with the log. -/
  | elsewhere {s s' : Store Bitmap} {handed : Finset Frame} : Handed s₀ s handed →
      s'.source = s.source →
      (∀ k < s.source.words, s'.memory.word (s.source.slot k) = s.memory.word (s.source.slot k)) →
      Handed s₀ s' handed

variable {s₀ s s' : Store Bitmap} {handed : Finset Frame}

/-- What is free, and what was handed out, was free in the beginning. -/
structure Kept (s₀ s : Store Bitmap) (handed : Finset Frame) : Prop where
  padded : s.source.Padded s.memory
  free : s.source.freeNumbers s.memory ⊆ s₀.source.freeNumbers s₀.memory
  handed {f : Frame} : f ∈ handed → f.number ∈ s₀.source.freeNumbers s₀.memory

lemma Kept.allocated {f : Frame} (hk : Kept s₀ s handed)
    (hrun : allocate.run s = .ok (.ok f) s') : Kept s₀ s' (insert f handed) := by
  rcases hk.padded.of_allocate hrun with ⟨-, e, he⟩ | ⟨n, hn, hf, rfl⟩
  · cases he
  · cases hf
    have hlt := (mem_freeNumbers.mp hn).1
    refine ⟨hk.padded.take hlt, ?_, fun {g} hg => ?_⟩
    · change s.source.freeNumbers (s.source.take s.memory n) ⊆ _
      rw [hk.padded.freeNumbers_take hlt]
      exact (Finset.erase_subset ..).trans hk.free
    · rcases Finset.mem_insert.mp hg with rfl | hg
      · rw [Page.number_ofNumber (hlt.trans hk.padded.frames_lt)]
        exact hk.free hn
      · exact hk.handed hg

lemma Kept.freed {pa : PhysAddr} (hk : Kept s₀ s handed) (hpa : pa.page ∈ handed)
    (hrun : (Bitmap.free pa).run s = .ok () s') : Kept s₀ s' handed := by
  refine ⟨(hk.padded.freed hrun).2, ?_, hk.handed⟩
  obtain ⟨hsource, hmemory⟩ := of_free hrun
  rw [hsource]
  rcases hmemory with hmemory | ⟨hlt, hmemory⟩
  · exact hmemory ▸ hk.free
  · rw [hmemory, hk.padded.freeNumbers_release hlt]
    exact Finset.insert_subset (hk.handed hpa) hk.free

lemma Kept.elsewhere (hk : Kept s₀ s handed) (hsource : s'.source = s.source)
    (hwords : ∀ k < s.source.words,
      s'.memory.word (s.source.slot k) = s.memory.word (s.source.slot k)) :
    Kept s₀ s' handed := by
  have hbits : ∀ k < s.source.words, s.source.bits s'.memory k = s.source.bits s.memory k :=
    fun k hk => congrArg UInt64.toNat (hwords k hk)
  refine ⟨hsource ▸ hk.padded.congr hbits, fun n hn => hk.free ?_, hk.handed⟩
  rw [hsource, mem_freeNumbers] at hn
  have hword := word_lt (hk.padded.placed.bit_lt hn.1)
  rw [mem_freeNumbers, taken, ← hbits _ hword]
  exact hn

/-- **Only frames that were free in the beginning are handed out.** -/
theorem Handed.kept (hr : Handed s₀ s handed) (hpadded : s₀.source.Padded s₀.memory) :
    Kept s₀ s handed := by
  induction hr with
  | installed => exact ⟨hpadded, subset_rfl, fun hf => absurd hf (Finset.notMem_empty _)⟩
  | allocated _ hrun ih => exact ih.allocated hrun
  | refused _ hrun ih =>
      rcases ih.padded.of_allocate hrun with ⟨rfl, -⟩ | ⟨n, -, hr, -⟩
      · exact ih
      · cases hr
  | freed _ hpa hrun ih => exact ih.freed hpa hrun
  | elsewhere _ hsource hwords ih => exact ih.elsewhere hsource hwords

/-- **A frame that is free once a bitmap is installed** lies in one of the usable regions that it
was installed for, and holds no bits if no two of those have a frame in common. -/
theorem usable_of_install {m m' : Memory} {b : Bitmap} {regions regions' : List Region}
    {event : Log.Event} {f : Frame} (hinstall : install m regions = .ok (b, m', regions', event))
    (hf : f.number ∈ b.freeNumbers m') :
    (∃ r ∈ regions, r.isUsable = true ∧ r.Contains f.number) ∧
      ((regions.Pairwise fun r r' => r.isUsable = true → r'.isUsable = true →
        ∀ n, r.Contains n → ¬ r'.Contains n) → ¬ b.HasBits f) := by
  rcases install_spec hinstall with ⟨rfl, -⟩ | ⟨p, start, hplan, hplace, rfl, rfl⟩
  · cases (mem_freeNumbers.mp hf).1
  · obtain ⟨before, r, r', after, rfl, rfl, hset⟩ := place?_spec hplace
    have hb := placed_planned hplan hset
    obtain ⟨hlt, hclear⟩ := mem_freeNumbers.mp hf
    obtain ⟨-, r₁, hr₁, husable, hin⟩ := (taken_install hb (hb.bit_lt hlt)).mp hclear
    exact ⟨hset.old hr₁ husable hin,
      fun hdisjoint => not_hasBits_of_remaining hplan hset hdisjoint hr₁ husable hin⟩

end Bitmap

/-! ## The whole chain -/

namespace BootMemory

open Bitmap

variable {answers : BootAnswers} {boot : BootMemory} {events : List Log.Event}

/-- What is kept of the bootloader's answers. -/
lemma ofAnswers_eq_ok (h : ofAnswers answers = (.ok boot, events)) : ∃ entries,
    answers.map? = some entries ∧
      boot.regions = (entries.take maxRegions).map BootEntry.region := by
  rw [ofAnswers] at h
  split at h
  · cases h
  · split at h
    · cases h
    · cases h
    · next hentries _ =>
      cases h
      exact ⟨_, hentries, rfl⟩

/-- **Only usable memory is handed out.**  Of the memory map the first entries are kept, in their
order, and a bitmap can be installed for them.  Whatever they are, every frame that is handed out
since lies in one of them that is usable.  If the usable entries share no byte with any other entry
of the whole map, then such a frame shares none with an entry that is not usable, though it was not
kept, and holds no bits. -/
theorem hands_out_usable (hanswers : ofAnswers answers = (.ok boot, events)) : ∃ entries,
    answers.map? = some entries ∧
      boot.regions = (entries.take maxRegions).map BootEntry.region ∧
      (∀ m : Memory, m.window.frames? = none →
        ∃ b m' regions event, install m boot.regions = .ok (b, m', regions, event)) ∧
      ∀ {m m' : Memory} {b : Bitmap} {regions : List Region} {event : Log.Event}
        {log : Array Log.Event}, install m boot.regions = .ok (b, m', regions, event) →
        ∀ {s : Store Bitmap} {handed : Finset Frame},
          Handed { memory := m', source := b, log } s handed → ∀ f ∈ handed,
            (∃ e ∈ entries.take maxRegions, e.type = 0 ∧ e.Encloses f) ∧
            (entries.Pairwise BootEntry.Apart →
              (∀ e ∈ entries, e.type ≠ 0 → ∀ pa : PhysAddr, pa.page = f → ¬ e.Covers pa) ∧
                ¬ b.HasBits f) := by
  obtain ⟨entries, hentries, hregions⟩ := ofAnswers_eq_ok hanswers
  refine ⟨entries, hentries, hregions, fun m hwindow => ?_, ?_⟩
  · refine install_returns fun _ _ _ f _ => ?_
    rw [Memory.Shows, Memory.touch, Window.pointer, hwindow]
    rfl
  intro m m' b regions event log hinstall s handed hhanded f hf
  have hfree := (hhanded.kept (padded_of_install hinstall)).handed hf
  obtain ⟨⟨r, hr, husable, hin⟩, hbits⟩ := usable_of_install hinstall hfree
  rw [hregions] at hr hbits
  obtain ⟨e, he, rfl⟩ := List.mem_map.mp hr
  have htype := BootEntry.isUsable_region.mp husable
  have hencloses := BootEntry.encloses_of_contains hin
  refine ⟨⟨e, he, htype, hencloses⟩, fun hseparate => ⟨fun e' he' htype' pa hpa => ?_, ?_⟩⟩
  · have hmem := List.mem_of_mem_take he
    exact BootEntry.not_covers hseparate hmem he' htype htype' (hencloses pa hpa)
  · exact hbits (BootEntry.pairwise_regions (hseparate.sublist (List.take_sublist ..)))

/-- Three usable pages, and one of a type that stands for nothing. -/
def sampleMap : List BootEntry :=
  [⟨0x1000, 0x3000, 0⟩, ⟨0x4000, 0x1000, 9⟩]

/-- The first page gets the bits, and one of the others is handed out. -/
lemma sample_allocates : ∃ b m' regions event f s,
    install { window := { offset := 0 } } (sampleMap.map BootEntry.region) =
        .ok (b, m', regions, event) ∧
      allocate.run ⟨m', b, #[]⟩ = .ok (.ok f) s := by
  have hspares : Region.Spares (reservation (managed (sampleMap.map BootEntry.region)))
      ⟨0x1000, 0x3000, .usable⟩ := by decide
  obtain ⟨b, hb⟩ : ∃ b, b = planned (needed (sampleMap.map BootEntry.region))
      (Region.alignedBase ⟨0x1000, 0x3000, .usable⟩) := ⟨_, rfl⟩
  obtain ⟨event, hinstall⟩ := install_eq_some (m := { window := { offset := 0 } })
    (place?_cons_of_spares hspares [⟨0x4000, 0x1000, .kernelAndModules⟩])
    (setAside_of_spares hspares) hb rfl
  have hpadded := padded_of_install hinstall
  have hframes : b.frames = 5 := by
    rw [hb]
    decide
  have hcontains : Region.Contains (remaining (reservation (managed (sampleMap.map
      BootEntry.region))) ⟨0x1000, 0x3000, .usable⟩) 2 := by
    constructor <;> decide
  have hlt : 2 < b.frames := by omega
  obtain ⟨f, s, hrun⟩ := hpadded.allocates (n := 2) (mem_freeNumbers.mpr ⟨hlt,
    (taken_install hpadded.placed (hpadded.placed.bit_lt hlt)).mpr
      ⟨hlt, _, List.mem_cons_self .., rfl, hcontains⟩⟩) #[]
  exact ⟨_, _, _, _, f, s, hinstall, hrun⟩

/-- What is handed out lies in the usable entry, and does not hold the bits. -/
theorem hands_out_usable_sample : ∃ (boot : BootMemory) (events : List Log.Event)
    (s₀ s : Store Bitmap) (f : Frame),
    ofAnswers { revision := 0, map? := some sampleMap, directMap? := some 0 } =
        (.ok boot, events) ∧
      Handed s₀ s {f} ∧ (∃ e ∈ sampleMap, e.type = 0 ∧ e.Encloses f) ∧ ¬ s₀.source.HasBits f := by
  obtain ⟨b, m', regions, event, f, s, hinstall, hrun⟩ := sample_allocates
  have hhanded := Handed.installed.allocated hrun
  have hapart : sampleMap.Pairwise BootEntry.Apart := by
    rw [sampleMap, List.pairwise_pair]
    rintro - pa ⟨-, hlt⟩ ⟨hle, -⟩
    exact hle.not_gt hlt
  have hanswers : ofAnswers { revision := 0, map? := some sampleMap, directMap? := some 0 } =
      (.ok { regions := sampleMap.map BootEntry.region, directMap := 0 },
        events sampleMap) := rfl
  obtain ⟨entries, hentries, -, -, hall⟩ := hands_out_usable hanswers
  obtain rfl := Option.some.inj hentries
  obtain ⟨hin, hclear⟩ := hall hinstall hhanded f (Finset.mem_insert_self ..)
  exact ⟨_, _, _, _, f, hanswers, hhanded, hin, (hclear hapart).2⟩

end BootMemory

end KernelMemory
