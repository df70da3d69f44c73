import KernelMemory.Proofs.Manager.Confinement
import KernelMemory.Proofs.Manager.Withdrawal

/-!
# A table that is withdrawn and used again

A root that shares the kernel half of another may be left with a link to a frame that is free.  Then
the next call that needs a table gets this frame, and what it maps is seen through the link, under
a root that has no table in common with the one that the call was about.

* `Memory.descend_of_slot` — walks that come to one slot find the same from there on.
* `Manager.Dangling.apart` — the two roots have no table in common.
* **`Manager.Dangling.map_seen`** — a page that is mapped in one of them is seen under the other.
* **`Manager.identityMap_seen_elsewhere`** — the run, with the other root active.
-/

namespace KernelMemory

open KernelMemory.Action Chart

/-! ## Two roots that link one table -/

/-- **Walks that come to one slot find the same from there on**, as long as their addresses select
the same slots. -/
theorem Memory.descend_of_slot {m : Memory} {va va' : VirtAddr} {h : Nat} {p q path : Path}
    (hslot : q.slot = p.slot) (hindex : ∀ k < h, va'.index k = va.index k)
    (hdescend : m.descend va h p = .ok (.ok (.slot path))) :
    ∃ path', m.descend va' h q = .ok (.ok (.slot path')) ∧ path'.slot = path.slot := by
  induction h generalizing p q with
  | zero =>
      cases hdescend
      exact ⟨q, rfl, hslot⟩
  | succ h ih =>
      rw [Memory.descend, Checked.bind_eq_ok] at hdescend
      obtain ⟨entry, hread, hdescend⟩ := hdescend
      have hstep : m.descend va' (h + 1) q = if entry.isTable then
          m.descend va' h (q.down entry.frame (va'.index h))
        else if entry.present then .ok (.ok (.large entry (h + 1)))
        else .ok (.error .notMapped) := by
        rw [Memory.descend, hslot, hread]
        rfl
      rw [hstep]
      split at hdescend
      case isTrue htable =>
        rw [if_pos htable]
        refine ih ?_ (fun k hk => hindex k (Nat.lt_succ_of_lt hk)) hdescend
        rw [Path.down, Path.down, hindex h (Nat.lt_succ_self h)]
      case isFalse =>
        split at hdescend
        · cases hdescend
        · cases hdescend

/-- Under two roots that link one table, addresses that select the same slots below it come to the
same slot. -/
lemma AddressSpace.find_of_linked {m : Memory} {root other : Frame} {va va' : VirtAddr}
    {path : Path} (hroot : m.Shows root) (hother : m.Shows other)
    (hisTable : (m.entry ⟨root, va.index rootHeight⟩).isTable = true)
    (hisTable' : (m.entry ⟨other, va'.index rootHeight⟩).isTable = true)
    (hframe : (m.entry ⟨other, va'.index rootHeight⟩).frame =
      (m.entry ⟨root, va.index rootHeight⟩).frame)
    (hva : va.isCanonical = true) (hva' : va'.isCanonical = true)
    (hindex : ∀ k < rootHeight, va'.index k = va.index k)
    (hfind : (AddressSpace.mk root).find m va = .ok (.ok (.slot path))) :
    ∃ path', (AddressSpace.mk other).find m va' = .ok (.ok (.slot path')) ∧
      path'.slot = path.slot := by
  have hroot' : m.Shows (Path.ofRoot root va).slot.table := hroot
  have hother' : m.Shows (Path.ofRoot other va').slot.table := hother
  rw [find, if_pos hva, rootHeight, Memory.descend_succ hroot'] at hfind
  rw [find, if_pos hva', rootHeight, Memory.descend_succ hother']
  rw [Path.ofRoot, if_pos hisTable] at hfind
  rw [Path.ofRoot, if_pos hisTable', hframe]
  refine Memory.descend_of_slot ?_ (fun k hk => hindex k (Nat.lt_succ_of_lt hk)) hfind
  rw [Path.down, Path.down, hindex 2 (by decide)]

namespace Manager

open Space

variable {C : Chart} {root other : Frame} {i : Index} {s s' : Store Pool} {va va' : VirtAddr}
  {pa : PhysAddr}

/-! ## What is seen through the link -/

namespace Dangling

lemma of_eq (hdangling : Dangling C root other i s) (hmemory : s'.memory = s.memory)
    (hsource : s'.source = s.source) : Dangling C root other i s' := by
  obtain ⟨m', p', log'⟩ := s'
  obtain rfl : m' = s.memory := hmemory
  obtain rfl : p' = s.source := hsource
  exact { hdangling with sound := hdangling.sound.of_eq rfl rfl }

/-- The frame that the link names is free. -/
lemma mem_free (hdangling : Dangling C root other i s) :
    (s.memory.entry ⟨other, i⟩).frame ∈ freeFrames s := by
  obtain ⟨rest, hfree, -⟩ := hdangling.free
  exact List.mem_toFinset.mpr (hfree ▸ List.mem_cons_self ..)

/-- The link is the only one below the other root. -/
lemma eq_of_reaches (hdangling : Dangling C root other i s) {h : Nat} {t : Frame}
    (hr : s.memory.Reaches other h t) : t = other ∨ t = (s.memory.entry ⟨other, i⟩).frame := by
  induction hr with
  | root => exact .inl rfl
  | @down h t j _ htable ih =>
      have hpresent := Entry.present_of_isTable htable
      rcases ih with rfl | rfl
      · have hj : j = i := by
          by_contra hne
          rw [hdangling.only hne] at hpresent
          cases hpresent
        exact .inr (by rw [hj])
      · rw [hdangling.empty j] at hpresent
        cases hpresent

/-- **The two roots have no table in common.** -/
theorem apart (hdangling : Dangling C root other i s) {h k : Nat} {t : Frame}
    (hr : s.memory.Reaches other h t) : ¬ s.memory.Reaches root k t := by
  intro hr'
  have hlinkless : ∀ j, (s.memory.entry ⟨root, j⟩).isTable = false := fun j => by
    rw [Entry.isTable, hdangling.unused j]
    rfl
  obtain ⟨-, rfl⟩ := hr'.eq_root hlinkless
  have htable : C.IsTable t := ⟨_, hdangling.isRoot⟩
  rcases hdangling.eq_of_reaches hr with rfl | rfl
  · exact hdangling.notTable htable
  · exact hdangling.sound.describes.notFree htable hdangling.mem_free

/-- Nothing is mapped below the link. -/
lemma not_mapped (hdangling : Dangling C root other i s) (hva : va.isCanonical = true)
    (hindex : va.index rootHeight = i) :
    AddressSpace.translate ⟨other⟩ s.memory va = .ok (.error .notMapped) := by
  have hother : s.memory.Shows (Path.ofRoot other va).slot.table := hdangling.shown
  have hshown := (hdangling.sound.describes.fresh hdangling.mem_free).2.2.1
  have hbelow : ∀ p : Path, p.slot.table = (s.memory.entry ⟨other, i⟩).frame →
      s.memory.descend va 2 p = .ok (.error .notMapped) := by
    intro p hp
    have hempty : (s.memory.entry p.slot).present = false := by
      rw [show p.slot = ⟨(s.memory.entry ⟨other, i⟩).frame, p.slot.index⟩ from Slot.ext hp rfl]
      exact hdangling.empty _
    rw [Memory.descend_succ (hp ▸ hshown), Entry.isTable, hempty]
    rfl
  have hfind : (AddressSpace.mk other).find s.memory va = .ok (.error .notMapped) := by
    rw [AddressSpace.find, if_pos hva, rootHeight, Memory.descend_succ hother, Path.ofRoot, hindex,
      if_pos hdangling.isTable]
    exact hbelow _ rfl
  rw [AddressSpace.translate, hfind]
  rfl

/-- **A page that is mapped in one root is seen under the other.** -/
theorem map_seen (hdangling : Dangling C root other i s) (va va' : VirtAddr) (pa : PhysAddr)
    (flags : Flags) (hva : va.isCanonical = true) (hpa : pa.value.toNat < 2 ^ physicalAddressBits)
    (hva' : va'.isCanonical = true) (hi : va'.index rootHeight = i)
    (hindex : ∀ k < rootHeight, va'.index k = va.index k) :
    ∃ s', (AddressSpace.map ⟨root⟩ va pa flags).run s = .ok (.ok ()) s' ∧
      ∃ mapping, AddressSpace.translate ⟨other⟩ s'.memory va' = .ok (.ok mapping) ∧
        mapping.address = pa.page.join va'.offset := by
  subst hi
  obtain ⟨rest, hfree, hlength⟩ := hdangling.free
  obtain ⟨path, C', s', hmap, hpage⟩ := map_solitary flags hdangling.sound hdangling.lending
    hdangling.isRoot hva hpa (hdangling.unused _) (by rw [hfree]; exact hlength)
  have hd' := hpage.sound.describes
  have hm := (AddressSpace.map_keeps_aside (tiered_of_describes hdangling.sound.describes
    hdangling.isRoot)).of_ok hmap
  have hsame := hm.entry (t := ⟨other, va'.index rootHeight⟩) hdangling.aside
  -- The table that was made for the root is the one that the other root links.
  have hfirst := hpage.first
  rw [hfree, List.head?_cons, Option.some.injEq, Memory.outline_apply, Entry.outline_frame]
    at hfirst
  have hlink : (s'.memory.entry ⟨root, va.index rootHeight⟩).isTable = true := by
    have hmem := hpage.way.leads.root_mem (by decide)
    simpa using
      (hd'.fits.links_of_mem_holders hpage.way.isRoot hpage.way.leads hmem).1.isTable
  have hway : C'.Way s'.memory.outline (AddressSpace.mk root).root va 0 path := hpage.way
  obtain ⟨hwalk, -⟩ := AddressSpace.walks_of_way hd' hva hway
  obtain ⟨path', hfind, hslot⟩ := AddressSpace.find_of_linked
    (hd'.shown ⟨_, hpage.way.isRoot⟩) (hdangling.shown.of_window hm.window) hlink
    (hsame ▸ hdangling.isTable) (hsame ▸ hfirst) hva hva' hindex (AddressSpace.find_of_walk hwalk)
  have htranslate : AddressSpace.translate ⟨other⟩ s'.memory va' =
      .ok ((s'.memory.entry path.slot).translate 0 va') := by
    rw [AddressSpace.translate, hfind]
    change (do return (← s'.memory.readEntry path'.slot).translate 0 va') = _
    rw [hslot, Memory.readEntry_eq (hd'.shown ⟨0, hpage.way.height hd'.fits⟩)]
    rfl
  rw [Entry.translate_of_present hpage.present] at htranslate
  exact ⟨s', hmap, _, htranslate, congrArg (Page.join · va'.offset) hpage.frame⟩

end Dangling

variable {P : Type} [PagingControl P]

/-- A range of a single page is mapped as the page is. -/
lemma run_identityMap_page {m m' : Manager Pool P} {flags : Flags}
    (hmap : (map m.kernelRoot va pa flags).run m = .ok (.ok ()) m') :
    (identityMap va pa 0x1000 flags).run m = .ok (.ok 1) m' := by
  have hadvance : ∀ {kind : AddressKind} (a : Address kind) (wraps : InvalidRequest),
      advance a 0 wraps = .ok a := by
    intro kind a wraps
    rw [advance, Nat.add_zero, if_pos a.value.toNat_lt, Address.ofNat, UInt64.ofNat_toNat]
  have hpage : (mapRangePage va pa flags 0).run m = .ok (.ok true) m' := by
    have hdistance : (Action.ofExcept (Checked.mul 0 pageSize) : Action (Manager Pool P) _).run m =
        .ok 0 m := run_ofExcept rfl
    rw [mapRangePage, run_bind hdistance, hadvance, hadvance]
    simp only []
    rw [run_bind (EStateM.run_get m), run_bind hmap]
    rfl
  have hsum : (Action.ofExcept (Checked.add 0 1) : Action (Manager Pool P) _).run m' = .ok 1 m' :=
    run_ofExcept rfl
  change (mapRangeFrom va pa flags 0 0 1).run m = _
  rw [mapRangeFrom, run_bind hpage]
  simp only [Bool.toNat_true]
  rw [run_bind hsum]
  rfl

/-! ## The run -/

/-- **A range is mapped in the kernel's root, and seen under another root that is active and has no
table in common with it.**  The kernel's root maps the first page of the kernel half, a root is made
that shares it, and the page is unmapped; then a page of the lower half takes the frame of the table
that the new root links still. -/
theorem identityMap_seen_elsewhere :
    ∃ (before : List (Event Pool Recorder)) (m m' : Manager Pool Recorder),
      World.Starts World.sample ∧
      History World.sample.manager (before ++ [⟨m, .operate (.ofNumber 1)
        (.identityMap ⟨0x1000⟩ ⟨0x6000⟩ 0x1000 ⟨2⟩), (.ok 1 : Except MapError Nat), m'⟩]) m' ∧
      before.map Event.request =
        [.operate (.ofNumber 1) (.map ⟨0xffff800000000000⟩ ⟨0x5000⟩ ⟨2⟩), .createKernelRoot,
          .operate (.ofNumber 1) (.unmap ⟨0xffff800000000000⟩), .switch (.ofNumber 5)] ∧
      m.kernelRoot = .ofNumber 1 ∧ m.activeRoot = .ofNumber 5 ∧
      (∀ h k t, m.store.memory.Reaches (.ofNumber 5) h t →
        ¬ m.store.memory.Reaches (.ofNumber 1) k t) ∧
      AddressSpace.translate ⟨.ofNumber 5⟩ m.store.memory ⟨0xffff800000001000⟩ =
        .ok (.error .notMapped) ∧
      ∃ mapping, AddressSpace.translate ⟨.ofNumber 5⟩ m'.store.memory ⟨0xffff800000001000⟩ =
        .ok (.ok mapping) ∧ mapping.address = ⟨0x6000⟩ := by
  obtain ⟨m₁, m₂, m₃, hwithdrawal⟩ := exists_withdrawal_sample
  obtain ⟨page, hunmap⟩ := hwithdrawal.unmap
  obtain ⟨C, hdangling⟩ := hwithdrawal.dangling
  obtain ⟨m₄, hswitch, hmemory, hsource, hactive, hkernel₄⟩ :
      ∃ m₄, (switch (.ofNumber 5)).run m₃ = .ok () m₄ ∧
        m₄.store.memory = m₃.store.memory ∧ m₄.store.source = m₃.store.source ∧
        m₄.activeRoot = .ofNumber 5 ∧ m₄.kernelRoot = m₃.kernelRoot :=
    ⟨_, rfl, rfl, rfl, rfl, rfl⟩
  have hkernel : m₄.kernelRoot = .ofNumber 1 := by
    have hkernel₁ := ((leavesPaging_map _).of_ok hwithdrawal.map).2
    have hkernel₂ := ((leavesPaging_createKernelRoot _).of_ok hwithdrawal.create).2
    have hkernel₃ := ((leavesPaging_unmap _).of_ok hunmap).2
    exact hkernel₄.trans (hkernel₃.trans (hkernel₂.trans hkernel₁))
  have hlink : Dangling C (.ofNumber 1) (.ofNumber 5)
      (Address.index ⟨0xffff800000000000⟩ rootHeight) m₄.store := hdangling.of_eq hmemory hsource
  have hva : (⟨0xffff800000001000⟩ : VirtAddr).isCanonical = true := by decide
  obtain ⟨s', hmap, mapping, htranslate, haddress⟩ := hlink.map_seen ⟨0x1000⟩ ⟨0xffff800000001000⟩
    ⟨0x6000⟩ ⟨2⟩ (by decide) (by decide) hva (by decide) (by decide)
  rw [← hkernel] at hmap
  obtain ⟨m', hrun, rfl, -⟩ := run_map hmap
  have hcalls : History World.sample.manager _ m' :=
    .cons (.operate (.ofNumber 1) (.map ⟨0xffff800000000000⟩ ⟨0x5000⟩ ⟨2⟩)) hwithdrawal.map
      (.cons .createKernelRoot hwithdrawal.create
        (.cons (.operate (.ofNumber 1) (.unmap ⟨0xffff800000000000⟩)) hunmap
          (.cons (.switch (.ofNumber 5)) hswitch
            (.cons (.operate (.ofNumber 1) (.identityMap ⟨0x1000⟩ ⟨0x6000⟩ 0x1000 ⟨2⟩))
              (run_identityMap_page hrun) (.nil m')))))
  exact ⟨[_, _, _, _], m₄, m', World.starts_sample, hcalls, rfl, hkernel, hactive,
    fun h k t => hlink.apart, hlink.not_mapped hva rfl, mapping, htranslate, haddress⟩

end Manager

end KernelMemory
