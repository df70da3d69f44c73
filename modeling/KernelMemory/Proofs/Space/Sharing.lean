import KernelMemory.Proofs.Space.Calls
import KernelMemory.Proofs.Space.Trail

/-!
# Sharing the kernel half

A root that shares the kernel half of another links the same tables without owning them.  If the
other root owns them, then on the chart it becomes one that lends: the tables behind its upper half
may be linked from the same place of every root.  If it has borrowed them itself, nobody counts.

* `Entry.shared` — what a root sees of the entry of another.
* `Chart.MayShare` — an entry of a root may be shared.
* **`Chart.Settled.share`** — one entry is shared.
* **`AddressSpace.shareKernelHalf_ensures`** — the whole kernel half is shared, and nothing else
  happens.
-/

namespace KernelMemory

/-! ## Entries that are shared -/

namespace Entry

variable {e : Entry}

/-- What a root that shares an entry of another root has in its place. -/
def shared (e : Entry) : Entry :=
  if e.present then e.borrowed else absent

@[simp] lemma shared_present : e.shared.present = e.present := by
  rw [shared]
  split
  case isTrue => rfl
  case isFalse h => rw [Bool.not_eq_true] at h; rw [h]; rfl

@[simp] lemma shared_owned : e.shared.owned = false := by
  rw [shared]
  split <;> rfl

lemma shared_of_isTable (h : e.isTable = true) :
    e.shared.isTable = true ∧ e.shared.frame = e.frame := by
  rw [shared, if_pos (present_of_isTable h)]
  exact ⟨h, rfl⟩

lemma isTable_of_shared (h : e.shared.isTable = true) : e.isTable = true := by
  have hpresent := present_of_isTable h
  rw [shared_present] at hpresent
  rw [shared, if_pos hpresent] at h
  exact h

end Entry

namespace Chart

variable {A : Type} [FrameSource A] [LawfulSource A] {C : Chart} {o : Outline} {s : Store A}
  {root source : Frame} {i : Index} {e : Entry} {lowest : Prop}

/-! ## One entry -/

/-- **An entry may be shared** if roots lend their tables or it owns no table. -/
def MayShare (C : Chart) (o : Outline) (s : Slot) : Prop :=
  C.lending ∨ ((o s).isTable = true → (o s).owned = false)

/-- Only a root that lends its tables may share the link of an owned table. -/
lemma MayShare.lending {s : Slot} {f : Frame} (hmay : C.MayShare o s) (hl : C.Links o s f)
    (howned : (o s).owned = true) : C.lending := by
  refine hmay.resolve_right fun hunowned => ?_
  rw [hunowned hl.isTable] at howned
  cases howned

/-- An entry of a root may be shared in the same place of another. -/
lemma canWrite_shared (hfit : C.Fits o) (hmay : C.MayShare o ⟨source, i⟩) (hroot : C.IsRoot root)
    (hsource : C.IsRoot source) (he : (o ⟨source, i⟩).isTable = e.isTable)
    (hframe : (o ⟨source, i⟩).frame = e.frame) (hpresent : (o ⟨source, i⟩).present = e.present) :
    C.CanWrite o ⟨root, i⟩ e.shared := by
  have hlinks : e.shared.isTable = true → C.Links o ⟨source, i⟩ e.shared.frame := by
    intro htable
    have htable := Entry.isTable_of_shared htable
    exact ⟨⟨2, hsource⟩, he.trans htable, hframe.trans (Entry.shared_of_isTable htable).2.symm⟩
  constructor
  case unused =>
    intro habsent
    rw [Entry.shared_present] at habsent
    rw [Entry.shared, habsent]
    rfl
  case child =>
    intro k hk htable
    obtain rfl : 2 = k := Nat.succ.inj (Option.some.inj (hroot.symm.trans hk))
    exact hfit.child (hlinks htable) hsource
  case ours =>
    intro k _ _ howned
    rw [Entry.shared_owned] at howned
    cases howned
  case sole =>
    intro t k _ htable _ ht
    refine ⟨Entry.shared_owned, fun howned => ?_⟩
    rcases hfit.sole ht howned (hlinks htable) with rfl | ⟨hlends, -, -, hindex⟩
    · have hlending := hmay.lending ht howned
      exact ⟨⟨hlending, hsource⟩, ⟨hlending, hroot⟩, rfl⟩
    · exact ⟨hlends, ⟨hlends.1, hroot⟩, hindex⟩
  case inner =>
    intro k htidy _ hpres
    rw [Entry.shared_present, ← hpresent] at hpres
    obtain ⟨htable, howned⟩ := hfit.inner (s := ⟨source, i⟩) htidy hsource hpres
    have hlinks : C.Links o ⟨source, i⟩ _ := ⟨⟨2, hsource⟩, htable, rfl⟩
    have hlending : C.lending := howned.elim (hmay.lending hlinks) And.left
    exact ⟨(Entry.shared_of_isTable (he.symm.trans htable)).1, .inr ⟨hlending, hroot⟩⟩
  case leaf =>
    intro _ hzero
    rw [show C.height root = some rootHeight from hroot] at hzero
    cases hzero

/-- **An entry of a root is shared in another root.** -/
theorem Settled.share (hs : C.Settled lowest s) (hroot : C.IsRoot root) (hsource : C.IsRoot source)
    (hmay : C.MayShare s.memory.outline ⟨source, i⟩) :
    C.Settled lowest { s with
      memory := s.memory.setEntry ⟨root, i⟩ (s.memory.entry ⟨source, i⟩).shared } := by
  have hd := hs.describes
  obtain ⟨va, -, hva⟩ := Address.exists_index_eq fun _ => i
  have hway : C.Way s.memory.outline root va rootHeight { slot := ⟨root, i⟩ } :=
    ⟨hroot, .root, (hva rootHeight (Nat.le_refl _)).symm⟩
  have houtline : (s.memory.entry ⟨source, i⟩).shared.outline =
      (s.memory.entry ⟨source, i⟩).shared :=
    Entry.outline_of_not_owned Entry.shared_owned
  have hcan : C.CanWrite s.memory.outline ⟨root, i⟩
      (s.memory.entry ⟨source, i⟩).shared.outline := by
    rw [houtline]
    exact canWrite_shared hd.fits hmay hroot hsource (by simp) (by simp) (by simp)
  have hroom : s.memory.Room [] fun _ => Outline.count (Function.update s.memory.outline ⟨root, i⟩
      (s.memory.entry ⟨source, i⟩).shared.outline) root := fun x hx => by cases hx
  -- A root has no holder, so that writing to it is an edit that recounts nothing.
  constructor
  case describes =>
    refine hd.put hway hroom hcan rfl fun k _ _ howned => ?_
    rw [Entry.shared_owned] at howned
    cases howned
  case busy =>
    have hput : (s.memory.put ⟨⟨root, i⟩, []⟩ (s.memory.entry ⟨source, i⟩).shared id).outline =
        Function.update s.memory.outline ⟨root, i⟩ (s.memory.entry ⟨source, i⟩).shared.outline :=
      Memory.outline_put (by simp)
    have hlive : ∀ x, x ≠ ⟨root, i⟩ →
        (s.memory.put ⟨⟨root, i⟩, []⟩ (s.memory.entry ⟨source, i⟩).shared id).live x =
          s.memory.outline.recounted s.memory.live [] (· + 1) x :=
      fun x hx => Memory.live_put (fun x hx => by cases hx) hx
    have hfill := BusyBut.fill (e := (s.memory.entry ⟨source, i⟩).shared)
      (show C.BusyBut lowest s.memory.outline s.memory.live ([] : List Slot).head? from hs.busy)
      hlive
    change C.Busy lowest (s.memory.put ⟨⟨root, i⟩, []⟩ _ id).outline
      (s.memory.put ⟨⟨root, i⟩, []⟩ _ id).live
    rw [hput, houtline]
    refine hfill.settle fun f k _ howned => ?_
    rw [Function.update_self, Entry.shared_owned] at howned
    cases howned

end Chart

/-! ## The kernel half -/

/-- **Some entries of a root are shared in another**, and all else is the same. -/
structure Memory.Shares (m : Memory) (root source : Frame) (indices : List Index) (m' : Memory) :
    Prop where
  /-- The same frames are shown. -/
  window : m'.window = m.window
  /-- The entries are shared. -/
  here {i : Index} : i ∈ indices → m'.entry ⟨root, i⟩ = (m.entry ⟨source, i⟩).shared
  /-- All other entries are the same. -/
  elsewhere {t : Slot} : (t.table = root → t.index ∉ indices) → m'.entry t = m.entry t

/-- Sharing entries of a root does not change what is free. -/
lemma Chart.Describes.freeFrames_of_shares {A : Type} [FrameSource A] [LawfulSource A] {C : Chart}
    {s s' : Store A} {root source : Frame} {indices : List Index} (hd : C.Describes s)
    (hroot : C.IsRoot root) (hshares : s.memory.Shares root source indices s'.memory)
    (hsource : s'.source = s.source) : freeFrames s' = freeFrames s := by
  obtain ⟨held, hheld, -⟩ := hd.held
  refine (LawfulSource.congr hheld hsource ⟨hshares.window, fun t ht => ?_⟩).2
  refine Memory.word_eq_of_entry_eq (hshares.elsewhere fun heq => ?_)
  exact absurd (heq ▸ ht) (hd.notBooks ⟨_, hroot⟩)

namespace AddressSpace

open Chart KernelMemory.Action

variable {A : Type} [FrameSource A] [LawfulSource A] {C : Chart} {s : Store A}
  {excuse : Panic → Prop} {space : AddressSpace} {source : Frame} {lowest : Prop}

lemma mem_kernelHalf {i : Index} : i ∈ kernelHalf ↔ kernelHalfStart ≤ i.val := by
  unfold kernelHalf
  rw [List.mem_iff_getElem]
  constructor
  · rintro ⟨k, hk, rfl⟩
    rw [List.getElem_drop, List.getElem_finRange]
    exact Nat.le_add_right _ _
  · intro hi
    have hlt : i.val < tableEntries := i.isLt
    refine ⟨i.val - kernelHalfStart, ?_, Fin.ext ?_⟩
    · rw [List.length_drop, List.length_finRange]
      omega
    · rw [List.getElem_drop, List.getElem_finRange]
      exact Nat.add_sub_of_le hi

/-- **Sharing the kernel half** keeps the chart. -/
theorem shareKernelHalf_ensures (hs : C.Settled lowest s) (hroot : C.IsRoot space.root)
    (hsource : C.IsRoot source) (hne : source ≠ space.root)
    (hmay : ∀ i ∈ kernelHalf, C.MayShare s.memory.outline ⟨source, i⟩) :
    Ensures (space.shareKernelHalf source) excuse s fun _ s' =>
      C.Settled lowest s' ∧ s.memory.Shares space.root source kernelHalf s'.memory ∧
        s'.source = s.source := by
  rw [shareKernelHalf]
  revert hmay
  generalize kernelHalf = indices
  intro hmay
  induction indices generalizing s with
  | nil => exact .pure ⟨hs, ⟨rfl, fun hi => (by cases hi), fun _ => rfl⟩, rfl⟩
  | cons i indices ih =>
      have hd := hs.describes
      rw [List.forM_eq_forM, List.forM_cons]
      have hread : (Store.entry ⟨source, i⟩).run s = .ok (s.memory.entry ⟨source, i⟩) s :=
        Store.run_entry (hd.shown ⟨_, hsource⟩)
      have hset : (Store.setEntry ⟨space.root, i⟩ (s.memory.entry ⟨source, i⟩).shared).run s =
          .ok () { s with memory :=
            s.memory.setEntry ⟨space.root, i⟩ (s.memory.entry ⟨source, i⟩).shared } :=
        Store.run_setEntry (hd.shown ⟨_, hroot⟩)
      refine .bind_run ((run_bind hread).trans hset) ?_
      have hmay' : ∀ j ∈ indices, C.MayShare (s.memory.setEntry ⟨space.root, i⟩
          (s.memory.entry ⟨source, i⟩).shared).outline ⟨source, j⟩ := by
        intro j hj
        have hsame : (s.memory.setEntry ⟨space.root, i⟩
            (s.memory.entry ⟨source, i⟩).shared).entry ⟨source, j⟩ =
              s.memory.entry ⟨source, j⟩ := by
          rw [Memory.entry_setEntry, if_neg]
          exact fun heq => hne (congrArg Slot.table heq).symm
        rw [MayShare, Memory.outline_apply, hsame]
        exact hmay j (List.mem_cons_of_mem i hj)
      refine (ih (hs.share hroot hsource (hmay i (List.mem_cons_self ..))) hmay').mono ?_
      rintro _ s' ⟨hs', hshares, hsource'⟩
      refine ⟨hs', ⟨hshares.window, fun {j} hj => ?_, fun {t} ht => ?_⟩, hsource'⟩
      · by_cases hmem : j ∈ indices
        · rw [hshares.here hmem, Memory.entry_setEntry, if_neg]
          exact fun heq => hne (congrArg Slot.table heq).symm
        · obtain rfl := (List.mem_cons.mp hj).resolve_right hmem
          rw [hshares.elsewhere fun _ => hmem, Memory.entry_setEntry, if_pos rfl]
      · rw [hshares.elsewhere fun htable hmem => ht htable (List.mem_cons_of_mem i hmem),
          Memory.entry_setEntry, if_neg]
        rintro rfl
        exact ht rfl (List.mem_cons_self ..)

end AddressSpace

end KernelMemory
