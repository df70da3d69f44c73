import KernelMemory.Proofs.Manager.Sharing
import KernelMemory.Proofs.Space.Aside
import KernelMemory.Proofs.Space.Solitary

/-!
# A table that is withdrawn

The owner of a shared table takes the last page from behind it, in three calls on a new root.  On a
pool it is known what comes of it: the table is the frame that will be handed out next, and the root
that shares it links it still.

* `Manager.Dangling` — a root links the frame that is handed out next.
* `Manager.Withdrawal` — the three calls; **`Manager.Sharing.withdrawal`** — they leave such a root.
* **`Manager.World.not_safe_of_withdrawal`** — the run, and the world that comes of it.
-/

namespace KernelMemory

open KernelMemory.Action Chart

namespace Manager

open Space

/-! ## Links to free frames -/

/-- **A root links the frame that is handed out next**, and that frame alone, while nothing is in
it; and another root, which the chart is about, has nothing mapped. -/
structure Dangling (C : Chart) (root other : Frame) (i : Index) (s : Store Pool) : Prop where
  sound : C.Sound s
  lending : ¬ C.lending
  isRoot : C.IsRoot root
  unused (j : Index) : (s.memory.entry ⟨root, j⟩).present = false
  notTable : ¬ C.IsTable other
  notFree : other ∉ freeFrames s
  shown : s.memory.Shows other
  isTable : (s.memory.entry ⟨other, i⟩).isTable = true
  only {j : Index} : j ≠ i → (s.memory.entry ⟨other, j⟩).present = false
  free : ∃ rest, s.source.free = (s.memory.entry ⟨other, i⟩).frame :: rest ∧
    rootHeight ≤ rest.length + 1
  empty (j : Index) : (s.memory.entry ⟨(s.memory.entry ⟨other, i⟩).frame, j⟩).present = false

/-- The other root has nothing to do with the root of the chart. -/
lemma Dangling.aside {C : Chart} {root other : Frame} {i : Index} {s : Store Pool}
    (hdangling : Dangling C root other i s) : Aside s root other :=
  ⟨fun _ hr => hdangling.notTable
      ⟨_, hdangling.sound.describes.fits.height_of_reaches hdangling.isRoot hr⟩,
    hdangling.notFree, id⟩

/-- Unmapping a page leaves such a link where another root links the same table as the root does. -/
lemma dangling_of_returned {C C' : Chart} {root other : Frame} {va : VirtAddr} {s s' : Store Pool}
    (hs : C.Sound s) (hlending : ¬ C.lending) (hroot : C.IsRoot root) (hother : ¬ C.IsTable other)
    (hfree : other ∉ freeFrames s) (hshown : s.memory.Shows other)
    (hunused : ∀ i, i ≠ va.index rootHeight → (s.memory.entry ⟨root, i⟩).present = false)
    (hisTable : (s.memory.entry ⟨other, va.index rootHeight⟩).isTable = true)
    (hframe : (s.memory.entry ⟨other, va.index rootHeight⟩).frame =
      (s.memory.outline ⟨root, va.index rootHeight⟩).frame)
    (honly : ∀ i, i ≠ va.index rootHeight → (s.memory.entry ⟨other, i⟩).present = false)
    (hs' : C'.Sound s') (hev : C.Evolves C' root va s s')
    (hback : Returned ⟨root, va.index rootHeight⟩ rootHeight s s')
    (hm : s.memory.AgreesOn (Aside s root) s'.memory) :
    Dangling C' root other (va.index rootHeight) s' := by
  have haside : Aside s root other :=
    ⟨fun _ hr => hother ⟨_, hs.describes.fits.height_of_reaches hroot hr⟩, hfree, id⟩
  have hsame : ∀ i, s'.memory.entry ⟨other, i⟩ = s.memory.entry ⟨other, i⟩ := fun i =>
    hm.entry haside
  have hneither : ¬ (C'.IsTable other ∨ other ∈ freeFrames s') := fun h =>
    ((hev.conserved other).mp h).elim hother hfree
  constructor
  case sound => exact hs'
  case lending => exact hev.lending ▸ hlending
  case isRoot => exact (hev.isRoot root).mpr hroot
  case unused =>
    intro j
    rcases eq_or_ne j (va.index rootHeight) with rfl | hne
    · exact hback.unlinked
    · rw [← Entry.outline_present, ← Memory.outline_apply]
      exact hev.aside hroot (fun heq => hne (congrArg Slot.index heq))
        (by simpa using hunused j hne)
  case notTable => exact fun h => hneither (.inl h)
  case notFree => exact fun h => hneither (.inr h)
  case shown => exact hshown.of_window hm.window
  case isTable =>
    rw [hsame]
    exact hisTable
  case only =>
    intro j hne
    rw [hsame]
    exact honly j hne
  case free =>
    obtain ⟨below, hlength, hfree'⟩ := hback.free
    rw [hsame, hframe]
    refine ⟨_, hfree', ?_⟩
    rw [List.length_append]
    omega
  case empty =>
    rw [hsame, hframe]
    exact hback.empty

variable {P : Type} [PagingControl P] {C C' : Chart} {m m₁ m₂ m₃ : Manager Pool P}
  {roots : Finset Frame} {f : Frame} {va : VirtAddr} {pa : PhysAddr} {flags : Flags} {path : Path}

/-! ## The three calls -/

/-- **The owner of a shared table withdraws it**: the active root maps a page, a root is made that
shares its kernel half, and the page is unmapped. -/
structure Withdrawal (va : VirtAddr) (pa : PhysAddr) (flags : Flags) (m : Manager Pool P)
    (f : Frame) (m₁ m₂ m₃ : Manager Pool P) : Prop where
  map : (Manager.map m.activeRoot va pa flags).run m = .ok (.ok ()) m₁
  create : createKernelRoot.run m₁ = .ok (.ok f) m₂
  unmap : ∃ page, (Manager.unmap m.activeRoot va).run m₂ = .ok (.ok page) m₃
  dangling : ∃ C, Dangling C m.activeRoot f (va.index rootHeight) m₃.store

/-- **The owner of a shared table can withdraw it**, if it links no other table. -/
theorem Sharing.withdrawal (h : Sharing C C' va pa flags m path f m₁ m₂) (hlending : ¬ C.lending)
    (hunused : ∀ i, (m.store.memory.entry ⟨m.activeRoot, i⟩).present = false)
    (hva : va.isCanonical = true) (hupper : kernelHalfStart ≤ (va.index rootHeight).val) :
    ∃ m₃, Withdrawal va pa flags m f m₁ m₂ m₃ := by
  obtain ⟨hs₂, hnotTable, hnotFree, hpage⟩ := h.solitary
  have hlending' : ¬ C'.lending := h.settles.kin.lending ▸ hlending
  have hroot : C'.IsRoot m.activeRoot := hpage.way.isRoot
  obtain ⟨page, C₃, s₃, hunmap, hs₃, hev, hback⟩ := unmap_solitary hs₂ hlending' hva hpage
  obtain ⟨m₃, hrun₃, rfl⟩ := run_unmap hunmap
  have hm := (AddressSpace.unmap_keeps_aside (tiered_of_describes hs₂.describes hroot)).of_ok hunmap
  have hkernel : va.index rootHeight ∈ AddressSpace.kernelHalf :=
    AddressSpace.mem_kernelHalf.mpr hupper
  have hrootSlot : ∀ i, m₂.store.memory.entry ⟨m.activeRoot, i⟩ =
      m₁.store.memory.entry ⟨m.activeRoot, i⟩ :=
    fun i => h.elsewhere fun heq => hnotTable (heq ▸ (⟨_, hroot⟩ : C'.IsTable m.activeRoot))
  have hrest : ∀ i, i ≠ va.index rootHeight →
      (m₁.store.memory.entry ⟨m.activeRoot, i⟩).present = false := by
    intro i hi
    rw [← Entry.outline_present, ← Memory.outline_apply, h.settles.elsewhere hi,
      Memory.outline_apply, Entry.outline_present]
    exact hunused i
  have hlink : (m₁.store.memory.entry ⟨m.activeRoot, va.index rootHeight⟩).isTable = true := by
    have hfit := h.settles.sound.describes.fits
    have hleads := h.settles.way.leads
    simpa using (hfit.links_of_mem_holders hroot hleads (hleads.root_mem (by decide))).1.isTable
  obtain ⟨hisTable, hframe⟩ := Entry.shared_of_isTable hlink
  refine ⟨m₃, h.map, h.create, ⟨page, hrun₃⟩, C₃, dangling_of_returned hs₂ hlending' hroot hnotTable
    hnotFree ?_ (fun i hi => ?_) ?_ ?_ (fun i hi => ?_) hs₃ hev hback hm⟩
  · obtain ⟨rest, hstack, -⟩ := h.top
    have hf : f ∈ freeFrames m₁.store := List.mem_toFinset.mpr (hstack ▸ List.mem_cons_self ..)
    exact (h.settles.sound.describes.fresh hf).2.2.1.of_window h.window
  · rw [hrootSlot]
    exact hrest i hi
  · rw [h.copies, if_pos hkernel]
    exact hisTable
  · rw [h.copies, if_pos hkernel, Memory.outline_apply, Entry.outline_frame, hrootSlot]
    exact hframe
  · rw [h.copies]
    split
    case isTrue => rw [Entry.shared_present, hrest i hi]
    case isFalse => rfl

/-- On seven frames the table for the first page of the kernel half is withdrawn, while frame 5 is a
root that links it. -/
theorem exists_withdrawal_sample : ∃ m₁ m₂ m₃,
    Withdrawal ⟨0xffff800000000000⟩ ⟨0x5000⟩ ⟨2⟩ World.sample.manager (.ofNumber 5) m₁ m₂ m₃ := by
  obtain ⟨C', path, m₁, m₂, hshared⟩ := exists_sharing_sample
  obtain ⟨-, hblank⟩ := World.sound_sample
  have hunused : ∀ i,
      (World.sample.manager.store.memory.entry ⟨.ofNumber 1, i⟩).present = false := by
    intro i
    rw [← Entry.outline_present, ← Memory.outline_apply]
    exact congrArg Entry.present (hblank i)
  obtain ⟨m₃, hwithdrawal⟩ := hshared.withdrawal id hunused (by decide) (by decide)
  exact ⟨m₁, m₂, m₃, hwithdrawal⟩

/-! ## Worlds that are not safe -/

/-- The calls are those of a run. -/
lemma Withdrawal.run (h : Withdrawal va pa flags m f m₁ m₂ m₃) (hactive : m.activeRoot ∈ roots) :
    ∃ steps, World.Run ⟨m, roots⟩ steps ⟨m₃, insert f roots⟩ ∧ steps.map Prod.snd =
      [.map m.activeRoot va pa flags, .createKernelRoot, .unmap m.activeRoot va] := by
  obtain ⟨page, hunmap⟩ := h.unmap
  have hstep₁ : World.Step ⟨m, roots⟩ (.map m.activeRoot va pa flags) ⟨m₁, roots⟩ :=
    ⟨hactive, none, run_bind (run_discard h.map), rfl⟩
  have hstep₂ : World.Step ⟨m₁, roots⟩ .createKernelRoot ⟨m₂, insert f roots⟩ :=
    ⟨trivial, some f, run_bind h.create, rfl⟩
  have hstep₃ : World.Step ⟨m₂, insert f roots⟩ (.unmap m.activeRoot va) ⟨m₃, insert f roots⟩ :=
    ⟨Finset.mem_insert_of_mem hactive, none, run_bind (run_discard hunmap), rfl⟩
  exact ⟨_, .cons hstep₁ (.cons hstep₂ (.cons hstep₃ (.nil _))), rfl⟩

/-- They lead to a world that is not safe. -/
lemma Withdrawal.not_safe (h : Withdrawal va pa flags m f m₁ m₂ m₃) :
    ¬ World.Safe ⟨m₃, insert f roots⟩ := by
  obtain ⟨C, hdangling⟩ := h.dangling
  obtain ⟨rest, hfree, -⟩ := hdangling.free
  refine World.not_safe_of_links (t := ⟨f, va.index rootHeight⟩) (Finset.mem_insert_self f roots)
    hdangling.isTable ?_
  exact List.mem_toFinset.mpr (hfree ▸ List.mem_cons_self ..)

/-- The active root maps the first page of the kernel half and unmaps it once another root shares
it: the table that the other root links is free in the end. -/
theorem World.not_safe_of_withdrawal :
    ∃ (steps : List (World Pool Recorder × Call)) (w : World Pool Recorder),
    Starts .sample ∧ Run .sample steps w ∧
      steps.map Prod.snd = [.map (.ofNumber 1) ⟨0xffff800000000000⟩ ⟨0x5000⟩ ⟨2⟩, .createKernelRoot,
        .unmap (.ofNumber 1) ⟨0xffff800000000000⟩] ∧ ¬ w.Safe := by
  obtain ⟨m₁, m₂, m₃, hwithdrawal⟩ := exists_withdrawal_sample
  have hactive : sample.manager.activeRoot ∈ ({.ofNumber 1} : Finset Frame) :=
    Finset.mem_singleton_self _
  obtain ⟨steps, hrun, hsteps⟩ := hwithdrawal.run hactive
  exact ⟨steps, _, starts_sample, hrun, hsteps, hwithdrawal.not_safe⟩

end Manager

end KernelMemory
