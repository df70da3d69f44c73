import KernelMemory.Proofs.Frames.Since
import KernelMemory.Proofs.Manager.Watched
import KernelMemory.Proofs.Space.Room
import Mathlib.Data.Set.Card

/-!
# Conservation of frames

Over a bitmap, the allocator, its client, the heaps and the tables of all roots share the frames
that were free once the bitmap was installed: each frame has one owner at any time.  The bitmap
itself lies in frames that nobody owns, and nobody but the allocator changes anything there.

* `System.Owns` — the owners of frames, as memory shows them.
* `System.Conserved` — what is conserved, from the installation of a bitmap on.
* `System.Sound.owner_unique`, `System.Sound.held_iff_start` — no frame has two owners, and what is
  held is what was free at first and is not any more.
* **`System.install_conserves`** — after every call everything is conserved, the next call returns,
  and nobody but the allocator has changed the bitmap.
-/

namespace KernelMemory

namespace Bitmap

variable {s : Store Bitmap} {f : Frame}

lemma Sized.mem_freeSet_iff_isFree (hb : s.source.Sized) :
    f ∈ freeSet s ↔ s.source.isFree s.memory f = true := by
  rw [hb.mem_freeSet, isFree, Bool.and_eq_true, decide_eq_true_iff, Bool.not_eq_true']

/-- The free frames are as many as their numbers. -/
lemma Padded.card_freeSet (h : s.source.Padded s.memory) :
    (freeSet s).card = (s.source.freeNumbers s.memory).card := by
  refine Finset.card_image_of_injOn fun n hn n' hn' heq => ?_
  have hnumber : ∀ {n}, n ∈ (s.source.freeNumbers s.memory : Set Nat) →
      (Page.ofNumber n : Frame).number = n :=
    fun hn => Page.number_ofNumber ((mem_freeNumbers.mp hn).1.trans h.frames_lt)
  rw [← hnumber hn, heq, hnumber hn']

end Bitmap

/-! ## Owners -/

/-- Who can own a frame. -/
inductive Owner where
  | allocator
  | client
  | heap (i : Nat)
  | root (root : Frame)
deriving DecidableEq, Repr

/-- The client, or the heap of a number. -/
def Owner.holder : Option Nat → Owner
  | none => client
  | some i => heap i

namespace System

open KernelMemory.Action Bitmap LawfulSource

variable {P : Type} {w : System Bitmap P} {o o' : Owner} {f : Frame} {s₀ : Store Bitmap} {C : Chart}

/-- **The owners of frames**: the allocator owns the frames that its bits say are free, the client
those that it has not given back, a heap those of its spans, and a root the tables that can be
reached from it. -/
def Owns (w : System Bitmap P) : Owner → Frame → Prop
  | .allocator, f => w.manager.store.source.isFree w.manager.store.memory f = true
  | .client, f => f ∈ w.client
  | .heap i, f => ∃ h, w.heaps[i]? = some h ∧ ∃ sp ∈ h.spans, sp.Covers f
  | .root root, f => root ∈ w.roots ∧ ∃ h, w.manager.store.memory.Reaches root h f

/-- Somebody other than the allocator owns the frame. -/
def Held (w : System Bitmap P) (f : Frame) : Prop :=
  ∃ o, o ≠ .allocator ∧ w.Owns o f

/-- **What is conserved** since a bitmap was installed in memory. -/
structure Conserved (b : Bitmap) (m : Memory) (w : System Bitmap P) : Prop where
  /-- The frames that were free then are those that have an owner. -/
  owned (f : Frame) : b.isFree m f = true ↔ ∃ o, w.Owns o f
  /-- No frame has two owners. -/
  once {f : Frame} {o o' : Owner} : w.Owns o f → w.Owns o' f → o = o'
  /-- The free memory is what it was then, without the frames that are held. -/
  freeBytes : ∃ n₀ n, b.freeBytes m = .ok (pageSize * n₀) ∧
    w.manager.store.source.freeBytes w.manager.store.memory = .ok (pageSize * n) ∧
    n + Set.ncard {f | w.Held f} = n₀
  /-- The bitmap stays where it is. -/
  source : w.manager.store.source = b
  /-- A bit is set if it was set then, or if its frame is held. -/
  taken {n : Nat} : n < b.words * wordBits → (b.taken w.manager.store.memory n = true ↔
    b.taken m n = true ∨ ∃ f, w.Held f ∧ f.number = n)
  /-- Whatever else stands in the frames of the bitmap is as it was. -/
  behind {t : Slot} : b.HasBits t.table → (∀ k < b.words, t ≠ b.slot k) →
    w.manager.store.memory.word t = m.word t
  /-- Nobody owns a frame of the bitmap. -/
  notBits {f : Frame} {o : Owner} : w.Owns o f → ¬ b.HasBits f

namespace Sound

/-! ### The owners in a sound system -/

/-- **An owner has frames of its kind**: free ones, held ones or tables. -/
theorem kind (hw : @Sound Bitmap P _ (Bitmap.since s₀) C (freeSet s₀) w) (howns : w.Owns o f) :
    o = .allocator ∧ f ∈ freeSet w.manager.store ∨
      (∃ x, o = .holder x ∧ f ∈ w.holding x) ∨
      ∃ root ∈ w.roots, o = .root root ∧ ∃ h, w.manager.store.memory.Reaches root h f := by
  obtain ⟨held, -, ⟨hheld, -⟩, -⟩ := @Sound.held _ _ _ _ (Bitmap.since s₀) _ _ hw
  cases o with
  | allocator => exact .inl ⟨rfl, hheld.sized.mem_freeSet_iff_isFree.mpr howns⟩
  | client => exact .inr (.inl ⟨none, rfl, howns⟩)
  | heap i =>
      obtain ⟨h, hheap, hcovers⟩ := howns
      refine .inr (.inl ⟨some i, rfl, ?_⟩)
      have hsound := @Sound.heaps _ _ _ (Bitmap.since s₀) _ _ _ hw h (List.mem_of_getElem? hheap)
      rw [holding, hheap]
      exact hsound.mem_owned.mpr hcovers
  | root root => exact .inr (.inr ⟨root, howns.1, rfl, howns.2⟩)

/-- The client and the heaps own what they hold. -/
lemma owns_holder (hw : @Sound Bitmap P _ (Bitmap.since s₀) C (freeSet s₀) w) {x : Option Nat}
    (hf : f ∈ w.holding x) : w.Owns (.holder x) f := by
  cases x with
  | none => exact hf
  | some i =>
      rw [holding] at hf
      cases hheap : w.heaps[i]? with
      | none =>
          rw [hheap] at hf
          exact absurd hf (Finset.notMem_empty f)
      | some h =>
          rw [hheap] at hf
          have hsound := @Sound.heaps _ _ _ (Bitmap.since s₀) _ _ _ hw h
            (List.mem_of_getElem? hheap)
          exact ⟨h, hheap, hsound.mem_owned.mp hf⟩

/-- Tables and what the client and the heaps have are held, and nothing else is. -/
lemma held_iff (hw : @Sound Bitmap P _ (Bitmap.since s₀) C (freeSet s₀) w) :
    w.Held f ↔ C.IsTable f ∨ f ∈ w.others := by
  have htable := @Sound.isTable_iff _ _ _ f _ (Bitmap.since s₀) _ _ hw
  constructor
  · rintro ⟨o, hne, howns⟩
    rcases hw.kind howns with ⟨rfl, -⟩ | ⟨x, -, hf⟩ | ⟨root, hroot, -, hr⟩
    · exact absurd rfl hne
    · exact .inr (mem_others.mpr ⟨x, hf⟩)
    · exact .inl (htable.mpr ⟨root, hroot, hr⟩)
  · rintro (hf | hf)
    · obtain ⟨root, hroot, hr⟩ := htable.mp hf
      exact ⟨.root root, by simp, hroot, hr⟩
    · obtain ⟨x, hf⟩ := mem_others.mp hf
      exact ⟨.holder x, by cases x <;> simp [Owner.holder], hw.owns_holder hf⟩

/-- What is held is not free. -/
lemma not_free (hw : @Sound Bitmap P _ (Bitmap.since s₀) C (freeSet s₀) w) (hf : w.Held f) :
    f ∉ freeSet w.manager.store := by
  rcases hw.held_iff.mp hf with hf | hf
  · exact (@Sound.of_isTable _ _ _ _ _ (Bitmap.since s₀) _ _ hw hf).2
  · exact @Sound.of_mem_others _ _ _ _ _ (Bitmap.since s₀) _ _ hw hf

/-- **No frame has two owners.** -/
theorem owner_unique (hw : @Sound Bitmap P _ (Bitmap.since s₀) C (freeSet s₀) w)
    (howns : w.Owns o f) (howns' : w.Owns o' f) : o = o' := by
  have hfree : ∀ {o}, w.Owns o f → f ∈ freeSet w.manager.store → o = .allocator :=
    fun {o} h hf => by_contra fun hne => hw.not_free ⟨o, hne, h⟩ hf
  have htable : ∀ {x root h}, root ∈ w.roots → w.manager.store.memory.Reaches root h f →
      f ∉ w.holding x := fun {x root h} hroot hr hf =>
    have hf' : C.IsTable f :=
      (@Sound.isTable_iff _ _ _ f _ (Bitmap.since s₀) _ _ hw).mpr ⟨root, hroot, h, hr⟩
    (@Sound.of_isTable _ _ _ _ _ (Bitmap.since s₀) _ _ hw hf').1 (mem_others.mpr ⟨x, hf⟩)
  rcases hw.kind howns with ⟨rfl, hf⟩ | ⟨x, rfl, hf⟩ | ⟨root, hroot, rfl, h, hr⟩
  · exact (hfree howns' hf).symm
  · rcases hw.kind howns' with ⟨rfl, hf'⟩ | ⟨x', rfl, hf'⟩ | ⟨root', hroot', rfl, k, hr'⟩
    · exact hfree howns hf'
    · rw [@Sound.apart _ _ _ (Bitmap.since s₀) _ _ _ hw _ _ _ hf hf']
    · exact absurd hf (htable hroot' hr')
  · rcases hw.kind howns' with ⟨rfl, hf'⟩ | ⟨x', rfl, hf'⟩ | ⟨root', hroot', rfl, k, hr'⟩
    · exact hfree howns hf'
    · exact absurd hf' (htable hroot hr)
    · rw [@Sound.root_unique _ _ _ _ _ (Bitmap.since s₀) _ _ _ _ _ _ hw hroot hroot' hr hr']

/-- **A frame is held if it was free at first and is not any more.** -/
theorem held_iff_start (hw : @Sound Bitmap P _ (Bitmap.since s₀) C (freeSet s₀) w) :
    w.Held f ↔ f ∈ freeSet s₀ ∧ f ∉ freeSet w.manager.store := by
  have hconserved : _ ↔ f ∈ freeSet s₀ := @Sound.conserved _ _ _ (Bitmap.since s₀) _ _ _ hw f
  rw [← or_assoc, ← hw.held_iff] at hconserved
  constructor
  · exact fun hf => ⟨hconserved.mp (.inl hf), hw.not_free hf⟩
  · rintro ⟨hf, hnot⟩
    exact (hconserved.mpr hf).resolve_right hnot

/-- What is free was free at first. -/
lemma free_subset (hw : @Sound Bitmap P _ (Bitmap.since s₀) C (freeSet s₀) w) :
    freeSet w.manager.store ⊆ freeSet s₀ := fun f hf =>
  (@Sound.conserved _ _ _ (Bitmap.since s₀) _ _ _ hw f).mp (.inr (.inr hf))

/-- **A sound system conserves its frames.** -/
theorem conserves (hw : @Sound Bitmap P _ (Bitmap.since s₀) C (freeSet s₀) w)
    (hheld₀ : InOrder s₀ ∅) (hpadded₀ : s₀.source.Padded s₀.memory) :
    Conserved s₀.source s₀.memory w := by
  obtain ⟨held, -, ⟨hheld, hsince⟩, -⟩ := @Sound.held _ _ _ _ (Bitmap.since s₀) _ _ hw
  have hfree : ∀ {f}, f ∈ freeSet w.manager.store ↔ w.Owns .allocator f :=
    hheld.sized.mem_freeSet_iff_isFree
  have howned : ∀ {f}, f ∈ freeSet s₀ ↔ ∃ o, w.Owns o f := by
    intro f
    constructor
    · intro hf
      by_cases hnow : f ∈ freeSet w.manager.store
      · exact ⟨.allocator, hfree.mp hnow⟩
      · obtain ⟨o, -, howns⟩ := hw.held_iff_start.mpr ⟨hf, hnow⟩
        exact ⟨o, howns⟩
    · rintro ⟨o, howns⟩
      rcases eq_or_ne o .allocator with rfl | hne
      · exact hw.free_subset (hfree.mpr howns)
      · exact (hw.held_iff_start.mp ⟨o, hne, howns⟩).1
  have hpadded : w.manager.store.source.Padded w.manager.store.memory := by
    rw [hsince.source]
    exact { hpadded₀ with
      padding := fun hle hlt => (hsince.padding hle hlt).trans (hpadded₀.padding hle hlt) }
  constructor
  case owned => exact fun f => hheld₀.sized.mem_freeSet_iff_isFree.symm.trans howned
  case once => exact hw.owner_unique
  case freeBytes =>
    refine ⟨_, _, hpadded₀.freeBytes_eq, hpadded.freeBytes_eq, ?_⟩
    have hset : {f | w.Held f} = (freeSet s₀ \ freeSet w.manager.store : Finset Frame) := by
      ext f
      rw [Finset.mem_coe, Finset.mem_sdiff]
      exact hw.held_iff_start
    rw [hset, Set.ncard_coe_finset, ← hpadded.card_freeSet, ← hpadded₀.card_freeSet, Nat.add_comm]
    exact Finset.card_sdiff_add_card_eq_card hw.free_subset
  case source => exact hsince.source
  case taken =>
    intro n hn
    rw [hsince.taken_iff hheld₀.sized hw.free_subset hn]
    simp only [hw.held_iff_start, and_assoc]
  case behind => exact hsince.behind
  case notBits =>
    intro f o howns
    exact (hheld₀.usable_of_free (howned.mpr ⟨o, howns⟩)).2.2

end Sound

/-! ## Every run -/

/-- **Frames are conserved**: over a bitmap that was installed on memory that the window shows, for
regions none of which share a usable frame, every frame that was free then has one owner after every
call, the free memory is what is not held, and the frames of the bitmap hold nothing but its bits.
Every call returns that may be made, and a guard that looks at the bitmap before and after each call
of the allocator has found it as the allocator left it. -/
theorem install_conserves {m : Memory} {regions : List Region}
    (hnarrow : ∀ r ∈ regions, r.isUsable = true → r.top ≤ 2 ^ 52)
    (hshown : ∀ r ∈ regions, r.isUsable = true → ∀ f : Frame, r.Contains f.number → m.Shows f)
    (hdisjoint : regions.Pairwise fun r r' => r.isUsable = true → r'.isUsable = true →
      ∀ n, r.Contains n → ¬ r'.Contains n) :
    ∃ b m' regions' event, install m regions = .ok (b, m', regions', event) ∧
      ∀ (P : Type) [PagingControl P] (manager : Manager Bitmap P),
        manager.store.memory = m' → manager.store.source = b →
          ∀ w, Reached { manager } w → Conserved b m' w ∧ w.Returns ∧ Undisturbed manager w := by
  obtain ⟨b, m', regions', event, hinstall⟩ := install_returns hshown
  refine ⟨b, m', regions', event, hinstall, ?_⟩
  rintro P _ manager rfl rfl
  have hheld₀ : InOrder manager.store ∅ := holds_install hinstall hnarrow hshown hdisjoint
  intro w hreached
  have hw₀ := @Sound.initial _ P _ (Bitmap.since manager.store) manager ⟨hheld₀, .refl _⟩
  obtain ⟨C, hw⟩ := @Sound.reached _ _ _ _ (Bitmap.since _) _ _ _ (usable_since _) _ hw₀ hreached
  exact ⟨hw.conserves hheld₀ (padded_of_install hinstall),
    @Sound.returns _ _ _ _ (Bitmap.since _) _ _ _ (usable_since _) hw, hreached.undisturbed hheld₀⟩

/-- **The client, a heap and a root take frames** while there are enough: two, and one for the root
and each table of a page. -/
theorem exists_reached {A P : Type} [FrameSource A] [LawfulSource A] [GenerousSource A]
    [PagingControl P] [LawfulPaging P] {manager : Manager A P} (hheld : Holds manager.store ∅)
    (va : VirtAddr) (pa : PhysAddr) (flags : Flags) (hva : va.isCanonical = true)
    (hpa : pa.value.toNat < 2 ^ physicalAddressBits)
    (hfree : rootHeight + 2 < (freeFrames manager.store).card) :
    ∃ w f g root, Reached { manager } w ∧ w.client = {f} ∧ w.heaps = [{ last := { first := g } }] ∧
      w.roots = {root} ∧ AddressSpace.isMapped ⟨root⟩ w.manager.store.memory va = .ok true := by
  obtain ⟨f, s₁, halloc, hheld₁, hcard₁⟩ := GenerousSource.exists_take hheld (by omega)
  obtain ⟨g, s₂, hstart, hheld₂, hcard₂⟩ := Heap.exists_start hheld₁ (by omega)
  obtain ⟨⟨root⟩, s₃, hcreate⟩ :=
    AddressSpace.create_room hheld₂ (Finset.card_pos.mp (by omega))
  obtain ⟨hserves, hblank, hcard₃⟩ := AddressSpace.create_serves hheld₂ hcreate
  have hnone : s₃.memory.outline.resolve root va = none := by
    rw [Outline.resolve, hblank, Outline.follow_absent]
  obtain ⟨C, e, s₄, hmap, -, hmapped⟩ := AddressSpace.run_map_of_room hserves va pa flags hva hpa
    hnone (Outline.lacks_le.trans (by omega))
  have hroot : (Manager.createRoot : Action (Manager A P) _).run { manager with store := s₂ } =
      .ok (.ok root) { manager with store := s₃ } :=
    (run_bind (Manager.run_onStore hcreate)).trans rfl
  obtain ⟨m₄, hpage, rfl, -⟩ :=
    Manager.run_map (m := ({ manager with store := s₃ } : Manager A P)) hmap
  -- The calls of a system come to the same.
  have hrun₁ : (Call.allocate : Call P).run.run ({ manager } : System A P) =
      .ok () { manager := { manager with store := s₁ }, client := {f} } :=
    (run_bind (run_onStore halloc)).trans rfl
  have hrun₂ : (Call.startHeap : Call P).run.run
      ({ manager := { manager with store := s₁ }, client := {f} } : System A P) =
      .ok () { manager := { manager with store := s₂ }, client := {f},
               heaps := [{ last := { first := g } }] } :=
    (run_bind (run_onStore hstart)).trans rfl
  have hrun₃ : (Call.createRoot : Call P).run.run
      ({ manager := { manager with store := s₂ }, client := {f},
         heaps := [{ last := { first := g } }] } : System A P) =
      .ok () { manager := { manager with store := s₃ }, client := {f},
               heaps := [{ last := { first := g } }], roots := {root} } :=
    (run_bind (run_within hroot)).trans rfl
  have hrun₄ : (Call.operate root (.map va pa flags) : Call P).run.run
      ({ manager := { manager with store := s₃ }, client := {f},
         heaps := [{ last := { first := g } }], roots := {root} } : System A P) =
      .ok () { manager := m₄, client := {f}, heaps := [{ last := { first := g } }],
               roots := {root} } :=
    run_discard (run_within hpage)
  have hmem : root ∈ ({root} : Finset Frame) := Finset.mem_singleton_self root
  refine ⟨_, f, g, root, .call (.call (.call (.call .start ?_ hrun₁) ?_ hrun₂) ?_ hrun₃) ?_ hrun₄,
    rfl, rfl, rfl, hmapped⟩
  · trivial
  · trivial
  · trivial
  · exact ⟨hmem, fun h => h.elim⟩

/-- Frames of two regions go to a client, a heap and a root with a page. -/
theorem install_conserves_sample :
    ∃ (b : Bitmap) (m : Memory) (regions : List Region) (event : Log.Event)
      (manager : Manager Bitmap Recorder) (w : System Bitmap Recorder) (f g root : Frame),
      install { window := { offset := 0 } } [sampleRegion, ⟨0x10000, 0xa000, .usable⟩] =
        .ok (b, m, regions, event) ∧
      manager.store.memory = m ∧ manager.store.source = b ∧ Reached { manager } w ∧
      w.client = {f} ∧ w.heaps = [{ last := { first := g } }] ∧ w.roots = {root} ∧
      AddressSpace.isMapped ⟨root⟩ w.manager.store.memory ⟨0x1000⟩ = .ok true ∧
      Conserved b m w := by
  have hnarrow : ∀ r ∈ [sampleRegion, ⟨0x10000, 0xa000, .usable⟩], r.isUsable = true →
      r.top ≤ 2 ^ 52 := by decide
  have hdisjoint : [sampleRegion, ⟨0x10000, 0xa000, .usable⟩].Pairwise fun r r' =>
      r.isUsable = true → r'.isUsable = true → ∀ n, r.Contains n → ¬ r'.Contains n := by
    refine List.pairwise_pair.mpr fun _ _ n hn hn' => ?_
    have htop : sampleRegion.top = 0x9000 := by decide
    have hbase : (0x10000 : UInt64).toNat = 0x10000 := rfl
    simp only [Region.Contains, htop, hbase, pageSize] at hn hn'
    omega
  obtain ⟨b, m', regions', event, hinstall, hconserves⟩ :=
    @install_conserves { window := { offset := 0 } } _ hnarrow (fun _ _ _ _ _ => rfl) hdisjoint
  have hspares : sampleRegion.Spares
      (reservation (managed [sampleRegion, ⟨0x10000, 0xa000, .usable⟩])) := by decide
  obtain ⟨_, _, _, hinstall', hfree⟩ :=
    install_first (m := { window := { offset := 0 } }) hspares rfl
  rw [hinstall] at hinstall'
  cases hinstall'
  let manager : Manager Bitmap Recorder :=
    { store := { memory := m', source := b }
      machine.root := .ofNumber 0
      kernelRoot := .ofNumber 0 }
  have hheld : Holds manager.store ∅ :=
    holds_install hinstall hnarrow (fun _ _ _ _ _ => rfl) hdisjoint
  have hsub : (Finset.range 10).image (fun k => .ofNumber (16 + k)) ⊆
      freeFrames manager.store := by
    intro f hf
    obtain ⟨k, hk, rfl⟩ := Finset.mem_image.mp hf
    rw [Finset.mem_range] at hk
    refine hheld.sized.mem_freeSet_iff_isFree.mpr (hfree _ (List.mem_singleton_self _) rfl _ ?_)
    have htop : Region.top ⟨0x10000, 0xa000, .usable⟩ = 0x1a000 := by decide
    have hbase : (0x10000 : UInt64).toNat = 0x10000 := rfl
    rw [Page.number_ofNumber (by omega), Region.Contains, htop, hbase]
    simp only [pageSize]
    omega
  have hcard : rootHeight + 2 < (freeFrames manager.store).card :=
    lt_of_lt_of_le (by decide) (Finset.card_le_card hsub)
  obtain ⟨w, f, g, root, hreached, hclient, hheaps, hroots, hmapped⟩ :=
    exists_reached hheld ⟨0x1000⟩ ⟨0x5000⟩ ⟨2⟩ (by decide) (by decide) hcard
  exact ⟨b, m', _, event, manager, w, f, g, root, hinstall, rfl, rfl, hreached, hclient, hheaps,
    hroots, hmapped, (hconserves Recorder manager rfl rfl w hreached).1⟩

end System

end KernelMemory
