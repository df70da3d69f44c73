import KernelMemory.Proofs.Space.Sharing
import KernelMemory.Proofs.Space.Ways

/-!
# Roots with one kernel half

Tables that the kernel does not own may be linked by several roots, each in the same place of its
kernel half.  The tables below them, which the kernel may own, are reached from all of these roots
then, and from each by the same way but for its first step.  So what one root makes of an address of
the kernel half all of them do, and what one root has in its lower half is its own.

* `Chart.Apart` — a table is borrowed once, but for those in the kernel half of roots.
* `Chart.OneHalf` — all roots have the same kernel half.
* **`OneHalf.resolve_eq`** — an address of the kernel half stands for the same under all roots.
* **`OneHalf.resolve_of_rewrites`** — other roots do not notice what happens to a lower half.
* **`OneHalf.evolves`**, **`OneHalf.join`** — operations keep it so, and a root that shares the
  kernel half of another joins it.
-/

namespace KernelMemory

/-- The address belongs to the kernel half. -/
def Address.InKernelHalf (va : VirtAddr) : Prop :=
  kernelHalfStart ≤ (va.index rootHeight).val

lemma Address.not_inKernelHalf_default : ¬ Address.InKernelHalf default := by
  rw [InKernelHalf]
  decide

namespace Chart

variable {C C' : Chart} {o o' : Outline} {root other source f g : Frame} {va va' : VirtAddr}
  {h : Nat} {x y : Slot} {holders holders' : List Slot} {path : Path} {e : Entry}
  {used : Index → Prop} {i : Index}

/-! ## Borrowed tables that are apart -/

/-- **Borrowed tables are apart**: each is borrowed once, but for those that roots borrow in the
same place of their kernel half. -/
def Apart (C : Chart) (o : Outline) : Prop :=
  ∀ x y f, C.Borrows o x f → C.Borrows o y f → y = x ∨
    C.IsRoot x.table ∧ C.IsRoot y.table ∧ kernelHalfStart ≤ x.index.val ∧ y.index = x.index

lemma Apart.congr (hapart : C.Apart o) (hkin : C.Kin C') (hsame : C.SameBorrowed o C' o') :
    C'.Apart o' := by
  intro x y f hx hy
  rw [hkin.isRoot, hkin.isRoot]
  exact hapart x y f ((hsame x f).mp hx) ((hsame y f).mp hy)

/-- A table is linked once, or borrowed by roots in the same place of their kernel half. -/
lemma Apart.links (hapart : C.Apart o) (hfit : C.Fits o) (hlending : ¬ C.lending)
    (hx : C.Links o x f) (hy : C.Links o y f) : y = x ∨
      C.IsRoot x.table ∧ C.IsRoot y.table ∧ kernelHalfStart ≤ x.index.val ∧ y.index = x.index := by
  have hlends : ∀ {z}, ¬ C.Lends z := fun hz => hlending hz.1
  -- An owned table is linked once, which leaves the case that neither slot owns it.
  cases hox : (o x).owned with
  | true => exact .inl (hfit.eq_of_links hx hox hlends hy)
  | false =>
      cases hoy : (o y).owned with
      | true => exact .inl (hfit.eq_of_links hy hoy hlends hx).symm
      | false => exact hapart x y f ⟨hx, hox⟩ ⟨hy, hoy⟩

/-- **Two roots that come to one table** do so through their kernel half. -/
theorem Apart.root_eq (hapart : C.Apart o) (hfit : C.Fits o) (hlending : ¬ C.lending)
    (hroot : C.IsRoot root) (hother : C.IsRoot other) (hl : o.Leads root va holders f h)
    (hl' : o.Leads other va' holders' f h) : other = root ∨ Address.InKernelHalf va := by
  -- The two ways are followed upwards: they have all slots in common but perhaps that of the root.
  induction holders generalizing holders' f h with
  | nil =>
      obtain ⟨rfl, rfl⟩ := hl.of_nil
      exact .inl hl'.of_rootHeight.2.symm
  | cons x holders ih =>
      cases holders' with
      | nil =>
          obtain ⟨rfl, rfl⟩ := hl'.of_nil
          exact .inl hl.of_rootHeight.2
      | cons y holders' =>
          obtain ⟨hx, hxh⟩ := hfit.links_of_leads hroot hl
          obtain ⟨hy, -⟩ := hfit.links_of_leads hother hl'
          obtain ⟨hl, hindex, -⟩ := hl.uncons
          obtain ⟨hl', -⟩ := hl'.uncons
          rcases hapart.links hfit hlending hx hy with rfl | ⟨hxroot, -, hhalf, -⟩
          · exact ih hl hl'
          · have hheight : rootHeight = h + 1 := Option.some.inj (hxroot.symm.trans hxh)
            rw [Address.InKernelHalf, hheight, ← hindex]
            exact .inr hhalf

/-! ## Roots that have the same kernel half -/

/-- **All roots have the same kernel half**: at the indices that are in use they borrow the same
tables, and at all others they have nothing.  Other borrowed tables are linked once, and no table is
without a link. -/
structure OneHalf (C : Chart) (o : Outline) (used : Index → Prop) : Prop where
  borrowed {i : Index} : kernelHalfStart ≤ i.val → used i →
    ∃ f, ∀ root, C.IsRoot root → C.Borrows o ⟨root, i⟩ f
  unused {i : Index} {root : Frame} : kernelHalfStart ≤ i.val → ¬ used i → C.IsRoot root →
    (o ⟨root, i⟩).present = false
  apart : C.Apart o
  rooted : C.Rooted o
  known {f : Frame} : C.foreign f → C.IsRoot f ∨ ∃ x, C.Borrows o x f

namespace OneHalf

lemma linked (hone : C.OneHalf o used) (hf : C.IsTable f) :
    C.IsRoot f ∨ ∃ x, C.Links o x f := by
  rcases hone.rooted f hf with hroot | hforeign | ⟨x, hx, -⟩
  · exact .inl hroot
  · exact (hone.known hforeign).imp_right fun ⟨x, hx⟩ => ⟨x, hx.1⟩
  · exact .inr ⟨x, hx⟩

/-- What a root links in its kernel half it borrows. -/
lemma borrows (hone : C.OneHalf o used) (hi : kernelHalfStart ≤ i.val) (hroot : C.IsRoot root)
    (hl : C.Links o ⟨root, i⟩ f) : C.Borrows o ⟨root, i⟩ f := by
  by_cases hused : used i
  · obtain ⟨g, hg⟩ := hone.borrowed hi hused
    exact ⟨hl, (hg root hroot).2⟩
  · have habsent := hone.unused hi hused hroot
    rw [hl.present] at habsent
    cases habsent

/-- **An address of the kernel half stands for the same under all roots.** -/
theorem resolve_eq (hone : C.OneHalf o used) (hva : Address.InKernelHalf va)
    (hroot : C.IsRoot root) (hother : C.IsRoot other) :
    o.resolve other va = o.resolve root va := by
  by_cases hused : used (va.index rootHeight)
  · obtain ⟨f, hf⟩ := hone.borrowed hva hused
    have hroot := (hf root hroot).1
    have hother := (hf other hother).1
    change o.follow va (2 + 1) _ = o.follow va (2 + 1) _
    rw [Outline.follow_link hroot.isTable, Outline.follow_link hother.isTable, hroot.frame,
      hother.frame]
  · rw [Outline.resolve, Outline.resolve,
      Outline.follow_of_not_present (hone.unused hva hused hroot),
      Outline.follow_of_not_present (hone.unused hva hused hother)]

/-- **Other roots do not notice what happens to the lower half of a root.** -/
theorem resolve_of_rewrites (hone : C.OneHalf o used) (hlending : ¬ C.lending)
    (hrewrites : C.Rewrites o o' root va e) (hva : ¬ Address.InKernelHalf va)
    (hother : C.IsRoot other) (hne : other ≠ root) :
    o'.resolve other va' = o.resolve other va' := by
  obtain @⟨C₁, o₁, path, hkin, hfit, hsame, hway, hbefore, hafter⟩ := hrewrites
  have hother₁ := (hkin.isRoot other).mpr hother
  rw [hafter other va' hother₁, ← hbefore other va' hother]
  refine Outline.resolve_update fun holders h hl _ => ?_
  obtain rfl : h = 0 := Option.some.inj ((hfit.height_of_leads hother₁ hl).symm.trans
    (hway.height hfit))
  rcases (hone.apart.congr hkin hsame).root_eq hfit (hkin.lending ▸ hlending) hway.isRoot hother₁
    hway.leads hl with heq | hhalf
  · exact absurd heq hne
  · exact absurd hhalf hva

end OneHalf

/-! ## Operations -/

variable {A : Type} [FrameSource A] [LawfulSource A] {s s' : Store A}

/-- **Operations keep the kernel half the same in all roots**, if they are on addresses of the lower
half or below the indices that are in use. -/
theorem OneHalf.evolves (hone : C.OneHalf s.memory.outline used) (hlending : ¬ C.lending)
    (hev : C.Evolves C' root va s s') (hva : Address.InKernelHalf va → used (va.index rootHeight)) :
    C'.OneHalf s'.memory.outline used where
  borrowed {i} hi hused := by
    obtain ⟨f, hf⟩ := hone.borrowed hi hused
    exact ⟨f, fun r hr => (hev.borrowed hlending _ f).mpr (hf r ((hev.isRoot r).mp hr))⟩
  unused {i r} hi hunused hr := by
    have hr := (hev.isRoot r).mp hr
    refine hev.aside (x := ⟨r, i⟩) hr (fun heq => ?_) (hone.unused hi hunused hr)
    obtain rfl : i = va.index rootHeight := congrArg Slot.index heq
    exact hunused (hva hi)
  apart := hone.apart.congr hev.toKin (hev.borrowed hlending)
  rooted := hev.rooted hlending hone.rooted
  known {f} hf := by
    rw [hev.isRoot]
    exact (hone.known (hev.foreign ▸ hf)).imp_right fun ⟨x, hx⟩ =>
      ⟨x, (hev.borrowed hlending x f).mpr hx⟩

/-! ## A root that joins -/

/-- **A root has the kernel half of another**, and nothing else; all other tables are the same. -/
structure Copied (C : Chart) (o : Outline) (root source : Frame) (o' : Outline) : Prop where
  owned {i : Index} : (o' ⟨root, i⟩).owned = false
  present {i : Index} : kernelHalfStart ≤ i.val →
    (o' ⟨root, i⟩).present = (o ⟨source, i⟩).present
  isTable {i : Index} : kernelHalfStart ≤ i.val →
    (o' ⟨root, i⟩).isTable = (o ⟨source, i⟩).isTable
  frame {i : Index} : kernelHalfStart ≤ i.val → (o ⟨source, i⟩).isTable = true →
    (o' ⟨root, i⟩).frame = (o ⟨source, i⟩).frame
  lower {i : Index} : ¬ kernelHalfStart ≤ i.val → (o' ⟨root, i⟩).present = false
  elsewhere {x : Slot} : C.IsTable x.table → o' x = o x

/-- A new root that shares the kernel half of another has it, and nothing else. -/
lemma copied_of_shares {m m₁ m' : Memory} (hroot : C.height root = none)
    (hsource : C.IsRoot source) (hsame : C.SameTables m m₁) (hblank : m₁.outline.Blank root)
    (hshares : m₁.Shares root source AddressSpace.kernelHalf m') :
    C.Copied m.outline root source m'.outline := by
  have hhere : ∀ {i : Index}, kernelHalfStart ≤ i.val →
      m'.entry ⟨root, i⟩ = (m.entry ⟨source, i⟩).shared := fun hi => by
    rw [hshares.here (AddressSpace.mem_kernelHalf.mpr hi),
      hsame.entry (t := ⟨source, _⟩) ⟨_, hsource⟩]
  have hlower : ∀ {i : Index}, ¬ kernelHalfStart ≤ i.val → m'.outline ⟨root, i⟩ = .absent := by
    intro i hi
    rw [← hblank i, Memory.outline_apply, Memory.outline_apply,
      hshares.elsewhere fun _ => mt AddressSpace.mem_kernelHalf.mp hi]
  constructor
  case owned =>
    intro i
    by_cases hi : kernelHalfStart ≤ i.val
    · rw [Memory.outline_apply, Entry.outline_owned, hhere hi, Entry.shared_owned]
    · rw [hlower hi]
      rfl
  case present =>
    intro i hi
    simp only [Memory.outline_apply, Entry.outline_present, hhere hi, Entry.shared_present]
  case isTable =>
    intro i hi
    simp only [Memory.outline_apply, Entry.outline_isTable, hhere hi]
    rw [Bool.eq_iff_iff]
    exact ⟨Entry.isTable_of_shared, fun h => (Entry.shared_of_isTable h).1⟩
  case frame =>
    intro i hi htable
    simp only [Memory.outline_apply, Entry.outline_frame, Entry.outline_isTable] at htable ⊢
    rw [hhere hi, (Entry.shared_of_isTable htable).2]
  case lower =>
    intro i hi
    rw [hlower hi]
    rfl
  case elsewhere =>
    intro x hx
    have hne : x.table ≠ root := by
      rintro rfl
      obtain ⟨k, hk⟩ := hx
      rw [hroot] at hk
      cases hk
    rw [Memory.outline_apply, hshares.elsewhere fun heq => absurd heq hne, hsame.entry hx]
    rfl

namespace Copied

/-- The links once a root has joined: those of before, and its own. -/
lemma links_iff (hcopied : C.Copied o root source o') (hroot : C.height root = none)
    (hsource : C.IsRoot source) : (C.add root rootHeight).Links o' x f ↔
      C.Links o x f ∨ x.table = root ∧ kernelHalfStart ≤ x.index.val ∧
        C.Links o ⟨source, x.index⟩ f := by
  constructor
  · intro hl
    rcases eq_or_ne x.table root with rfl | hne
    · have hhalf : kernelHalfStart ≤ x.index.val := by
        by_contra hlower
        have habsent := hcopied.lower hlower
        rw [hl.present] at habsent
        cases habsent
      have htable := (hcopied.isTable hhalf).symm.trans hl.isTable
      have hframe := (hcopied.frame hhalf htable).symm.trans hl.frame
      exact .inr ⟨rfl, hhalf, ⟨2, hsource⟩, htable, hframe⟩
    · obtain ⟨k, hk⟩ := hl.inner
      rw [height_add_of_ne hne] at hk
      exact .inl (Links.congr ⟨⟨k, hk⟩, hl.isTable, hl.frame⟩ (hcopied.elsewhere ⟨_, hk⟩).symm)
  · rintro (hl | ⟨rfl, hhalf, hl⟩)
    · obtain ⟨k, hk⟩ := hl.inner
      have hl' := hl.congr (hcopied.elsewhere hl.table)
      exact ⟨⟨k, height_add_of_some hroot hk⟩, hl'.isTable, hl'.frame⟩
    · exact ⟨⟨2, height_add_self⟩, (hcopied.isTable hhalf).trans hl.isTable,
        (hcopied.frame hhalf hl.isTable).trans hl.frame⟩

lemma borrows_iff (hcopied : C.Copied o root source o') (hone : C.OneHalf o used)
    (hroot : C.height root = none) (hsource : C.IsRoot source) :
    (C.add root rootHeight).Borrows o' x f ↔ C.Borrows o x f ∨
      x.table = root ∧ kernelHalfStart ≤ x.index.val ∧ C.Borrows o ⟨source, x.index⟩ f := by
  rw [Borrows, hcopied.links_iff hroot hsource]
  constructor
  · rintro ⟨hl | ⟨htable, hhalf, hl⟩, howned⟩
    · rw [hcopied.elsewhere hl.table] at howned
      exact .inl ⟨hl, howned⟩
    · exact .inr ⟨htable, hhalf, hone.borrows hhalf hsource hl⟩
  · rintro (⟨hl, howned⟩ | ⟨rfl, hhalf, hl, -⟩)
    · exact ⟨.inl hl, (hcopied.elsewhere hl.table).symm ▸ howned⟩
    · exact ⟨.inr ⟨rfl, hhalf, hl⟩, hcopied.owned⟩

end Copied

/-- **A root that has the kernel half of another joins all roots.** -/
theorem OneHalf.join (hone : C.OneHalf o used) (hcopied : C.Copied o root source o')
    (hroot : C.height root = none) (hsource : C.IsRoot source) :
    (C.add root rootHeight).OneHalf o' used := by
  have hborrows : ∀ {x f}, (C.add root rootHeight).Borrows o' x f ↔ _ :=
    hcopied.borrows_iff hone hroot hsource
  constructor
  case borrowed =>
    intro i hi hused
    obtain ⟨f, hf⟩ := hone.borrowed hi hused
    refine ⟨f, fun r hr => hborrows.mpr ?_⟩
    rcases isRoot_add.mp hr with rfl | hr
    · exact .inr ⟨rfl, hi, hf source hsource⟩
    · exact .inl (hf r hr)
  case unused =>
    intro i r hi hunused hr
    rcases isRoot_add.mp hr with rfl | hr
    · rw [hcopied.present hi]
      exact hone.unused hi hunused hsource
    · rw [hcopied.elsewhere (x := ⟨r, i⟩) ⟨_, hr⟩]
      exact hone.unused hi hunused hr
  case apart =>
    intro x y f hx hy
    rw [isRoot_add, isRoot_add]
    -- What the new root borrows is compared as what the root that it comes from borrows.
    rcases hborrows.mp hx with hx | ⟨hxroot, hxi, hx⟩ <;>
      rcases hborrows.mp hy with hy | ⟨hyroot, hyi, hy⟩
    · exact (hone.apart x y f hx hy).imp_right fun ⟨hxr, hyr, hrest⟩ => ⟨.inr hxr, .inr hyr, hrest⟩
    · rcases hone.apart x _ f hx hy with rfl | ⟨hxr, -, hhalf, hindex⟩
      · exact .inr ⟨.inr hsource, .inl hyroot, hyi, rfl⟩
      · exact .inr ⟨.inr hxr, .inl hyroot, hhalf, hindex⟩
    · rcases hone.apart _ y f hx hy with rfl | ⟨-, hyr, hhalf, hindex⟩
      · exact .inr ⟨.inl hxroot, .inr hsource, hxi, rfl⟩
      · exact .inr ⟨.inl hxroot, .inr hyr, hhalf, hindex⟩
    · have hindex : y.index = x.index := by
        rcases hone.apart _ _ f hx hy with heq | ⟨-, -, -, hindex⟩
        · exact (Slot.mk.inj heq).2
        · exact hindex
      exact .inl (Slot.ext (hyroot.trans hxroot.symm) hindex)
  case rooted =>
    intro f hf
    rcases isTable_add.mp hf with rfl | hf
    · exact .inl height_add_self
    · refine (hone.rooted f hf).imp (fun hr => isRoot_add.mpr (.inr hr)) (Or.imp_right ?_)
      rintro ⟨x, hl, howned⟩
      refine ⟨x, (hcopied.links_iff hroot hsource).mpr (.inl hl), ?_⟩
      rwa [hcopied.elsewhere hl.table]
  case known =>
    intro f hf
    rw [isRoot_add]
    exact (hone.known hf).imp .inr fun ⟨x, hx⟩ => ⟨x, hborrows.mpr (.inl hx)⟩

end Chart

open Chart KernelMemory.Action in
/-- **A new root shares the kernel half of another** where all roots have the same. -/
theorem AddressSpace.shareKernelHalf_copies {A : Type} [FrameSource A] [LawfulSource A] {C : Chart}
    {s s₁ : Store A} {space : AddressSpace} {source : Frame} {lowest : Prop}
    {excuse : Panic → Prop} {used : Index → Prop} (hone : C.OneHalf s.memory.outline used)
    (hnone : C.height space.root = none) (hsource : C.IsRoot source)
    (hs : (C.add space.root rootHeight).Settled lowest s₁) (hsame : C.SameTables s.memory s₁.memory)
    (hblank : s₁.memory.outline.Blank space.root) :
    Ensures (space.shareKernelHalf source) excuse s₁ fun _ s' =>
      (C.add space.root rootHeight).Settled lowest s' ∧
        C.Copied s.memory.outline space.root source s'.memory.outline ∧
        freeFrames s' = freeFrames s₁ := by
  have hne : source ≠ space.root := by
    rintro rfl
    rw [IsRoot, hnone] at hsource
    cases hsource
  have hmay : ∀ i ∈ kernelHalf,
      (C.add space.root rootHeight).MayShare s₁.memory.outline ⟨source, i⟩ := by
    refine fun i hi => .inr fun htable => ?_
    rw [hsame.outline ⟨source, i⟩ ⟨_, hsource⟩] at htable ⊢
    exact (hone.borrows (mem_kernelHalf.mp hi) hsource ⟨⟨2, hsource⟩, htable, rfl⟩).2
  have hsource' : (C.add space.root rootHeight).IsRoot source := isRoot_add.mpr (.inr hsource)
  refine (shareKernelHalf_ensures hs height_add_self hsource' hne hmay).mono ?_
  rintro _ s' ⟨hs', hshares, hkept⟩
  refine ⟨hs', ?_, ?_⟩
  · exact copied_of_shares hnone hsource hsame hblank hshares
  · exact hs.describes.freeFrames_of_shares height_add_self hshares hkept

end KernelMemory
