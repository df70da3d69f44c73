import KernelMemory.Proofs.Space.Failure
import KernelMemory.Proofs.Space.Room

/-!
# Unmapping undoes mapping

The tables that `map` makes on the way to a page are given back by the `unmap` that follows it.  The
way back stops at the first table that was there before.  Such a table is in use or not owned:
between calls that map and unmap, no owned table is empty.

* `Space.Packed` — tables in order, none of them owned and empty.
* `Space.Paged` — the states that are reached by mapping and unmapping; **`Paged.packed`** — their
  tables are packed.
* **`AddressSpace.map_unmap_ensures`** — mapping a page and unmapping it restores the state, where
  no owned table is empty.
* **`Space.map_unmap`** — after both, nothing has changed.
-/

namespace KernelMemory

open Chart KernelMemory.Action

variable {A : Type} [FrameSource A] [LawfulSource A] {C C' : Chart} {s s₁ s' : Store A}
  {root : Frame} {va : VirtAddr} {pa : PhysAddr} {flags : Flags} {h : Nat} {path : Path} {e : Entry}
  {excuse : Panic → Prop} {exact lowest : Prop} {space : AddressSpace}

/-! ## One page -/

/-- **Emptying a slot undoes filling it.** -/
theorem Chart.Describes.restored_put (hd : C.Describes s)
    (hway : C.Way s.memory.outline root va h path)
    (hunused : (s.memory.entry path.slot).present = false)
    (hroom : s.memory.Room path.holders (· + 1)) (hsource : s'.source = s.source)
    (hmemory : s'.memory = (s.memory.put path e (· + 1)).put path .absent (· - 1)) :
    Restored exact s s' := by
  have hagree := (hway.agreesOn_put (m := s.memory) (e := e) (g := (· + 1)) hd.fits).trans
    (hway.agreesOn_put (e := .absent) (g := (· - 1)) hd.fits)
  rw [← hmemory] at hagree
  have hbooks := hagree.anti fun _ hbooks htable => hd.notBooks htable hbooks
  obtain ⟨held, hheld, -⟩ := hd.held
  constructor
  case memory =>
    refine ⟨hagree.window, fun t _ => ?_⟩
    rw [hmemory]
    exact Memory.entry_put_put hunused (hway.head_ne hd.fits) hroom (.inl rfl)
  case free => exact (LawfulSource.congr hheld hsource hbooks).2
  case held => exact fun hheld => (LawfulSource.congr hheld hsource hbooks).1
  case books => rw [hsource]
  case same => exact fun _ => ⟨hsource, hbooks⟩

namespace AddressSpace

/-- **A page that was filled in is unmapped**: the walk comes to the same slot, and giving tables
back from there undoes the making of them. -/
theorem Filled.unmap_ensures {base : Store A}
    (hf : Filled C C' excuse exact lowest space.root va path e s s₁ s')
    (hundoes : Space.Undoes excuse exact base path.slot.table path.holders s₁)
    (hpresent : e.present = true) (hexcuse : C.lending → ∀ p, excuse p) :
    Ensures (space.unmap va) excuse s' fun r s'' => r = .ok e.frame ∧ Restored exact base s'' := by
  have hd' := hf.settled.describes
  have hne := hf.way.head_ne hf.describes.fits
  -- The walk comes to the slot that was filled.
  have hway' : C'.Way s'.memory.outline space.root va 0 path := by
    rw [hf.outline]
    exact hf.way.update hf.describes.fits
  have hentry : s'.memory.entry path.slot = e := by
    rw [hf.store, Memory.entry_put_self hne]
  have hresolve := resolve_slot hway'
  rw [hentry, if_pos hpresent] at hresolve
  obtain ⟨path', hwalk, hway'', -⟩ := walk_of_resolve hd' hway'.isRoot hf.canonical hresolve
  obtain rfl := hway''.unique hway'
  have hlookup : (Store.lookup fun m => space.walk m va).run s' = .ok (.ok path') s' :=
    Store.run_lookup hwalk
  refine .bind_run hlookup (.bind_run (Store.run_entry (hd'.shown ⟨0, hway'.height hd'.fits⟩)) ?_)
  rw [hentry, if_neg (by simp [hpresent])]
  -- Emptying the slot gives the state in which the walk of the mapping ended.
  refine (Space.vacate_describes hd' hway' (by rw [hentry, hpresent])
    (hf.reached.lending ▸ hexcuse)).bind ?_
  rintro _ s₂ ⟨hstore, -⟩
  have hrestored : Restored exact s₁ s₂ := by
    rw [hf.store] at hstore
    exact hf.describes.restored_put hf.way hf.unused hf.room (by rw [hstore]) (by rw [hstore])
  refine (hundoes s₂ hrestored).bind ?_
  intro _ s₃ hundone
  exact .pure ⟨rfl, hundone⟩

/-- **Mapping a page and unmapping it restores the state**, where no owned table is empty. -/
theorem map_unmap_ensures (hs : C.Settled True s) (hroot : C.IsRoot space.root)
    (hexact : exact → RestoringSource A) (hexcuse : C.lending → ∀ p, excuse p) :
    Ensures (space.map va pa flags) excuse s fun r s' => r = .ok () →
      Ensures (space.unmap va) excuse s' fun r s'' => r = .ok pa.page ∧ Restored exact s s'' := by
  refine (map_ends hs hroot hexact hexcuse).mono ?_
  intro r s' hend hr
  subst hr
  obtain ⟨-, C', path, e, s₁, hf, hpresent, hframe, -⟩ := hend
  rw [← hframe]
  exact hf.unmap_ensures (hf.undoes trivial) hpresent hexcuse

end AddressSpace

/-! ## States without empty tables -/

namespace Space

/-- **The tables of an address space are in order, and none that is owned is empty.**  Tables that
are linked without being owned may be. -/
structure Packed (s : Store A) (root : Frame) : Prop extends Orderly s root where
  full {x : Slot} : Owns s.memory root 0 x → (s.memory.entry x).liveChildren.val ≠ 0

lemma Packed.settled (hp : Packed s root) : (chartOf s.memory root).Settled True s where
  describes := hp.sound.describes
  busy := by
    intro x f k hl howned hf _ hzero
    obtain ⟨j, hj, hx, rfl⟩ := owns_of_links hl howned
    obtain rfl : j = k := Option.some.inj ((hp.sound.describes.fits.child hl hj).symm.trans hf)
    cases j with
    | zero => exact absurd hzero (hp.full hx)
    | succ j => exact absurd hzero (hp.busy hx)

/-- **The states that are reached by mapping and unmapping pages** in some address spaces. -/
inductive Paged : List AddressSpace → Store A → Prop
  /-- No address space has been made. -/
  | start {s : Store A} {held : Finset Frame} : Holds s held → Paged [] s
  /-- An address space was found whose tables are packed, some of them linked without being
  owned. -/
  | adopt {s : Store A} {space : AddressSpace} : Packed s space.root → Paged [space] s
  /-- An address space was made. -/
  | create {s s' : Store A} {spaces : List AddressSpace} {space : AddressSpace} :
      Paged spaces s → AddressSpace.create.run s = .ok (.ok space) s' → Paged (space :: spaces) s'
  /-- A page was mapped or unmapped, or the call was refused. -/
  | call {s s' : Store A} {spaces : List AddressSpace} {space : AddressSpace} {call : Call}
      {event : Event} : Paged spaces s → space ∈ spaces → call.IsPaging →
      (call.run space).run s = .ok event s' → Paged spaces s'

/-- **No owned table is empty** in such a state. -/
theorem Paged.settled {spaces : List AddressSpace} (hs : Paged spaces s) :
    ∃ C : Chart, C.Settled True s ∧ C.clean ∧ ¬ C.lending ∧
      ∀ space ∈ spaces, C.IsRoot space.root := by
  induction hs with
  | start hheld => exact ⟨empty False True, settled_empty hheld, trivial, id, by simp⟩
  | adopt hp => exact ⟨_, hp.settled, trivial, id, by simp [hp.isRoot]⟩
  | @create s s' spaces space _ hrun ih =>
      obtain ⟨C, hs, hclean, hlending, hroots⟩ := ih
      have hend : Ensures AddressSpace.create noPanic s _ := AddressSpace.create_ensures hs
      obtain ⟨hnone, hs', -⟩ := hend.of_ok hrun
      refine ⟨_, hs', hclean, hlending, ?_⟩
      intro other hother
      rcases List.mem_cons.mp hother with rfl | hother
      · exact height_add_self
      · exact height_add_of_some hnone (hroots other hother)
  | call _ hspace hcall hrun ih =>
      obtain ⟨C, hs, hclean, hlending, hroots⟩ := ih
      obtain ⟨-, ⟨C', hcarries, hs'⟩, -⟩ :=
        (call_carries hs (hroots _ hspace) hlending fun h : False => h.elim).of_ok hrun
      refine ⟨C', hs'.mono fun _ => ⟨trivial, hcall⟩, hcarries.clean ▸ hclean,
        hcarries.lending ▸ hlending, ?_⟩
      intro other hother
      exact (hcarries.isRoot _).mpr (hroots other hother)

/-- **The tables of every address space are packed** in such a state. -/
theorem Paged.packed {spaces : List AddressSpace} (hs : Paged spaces s) (hspace : space ∈ spaces) :
    Packed s space.root := by
  obtain ⟨C, hs, hclean, hlending, hroots⟩ := hs.settled
  have hroot := hroots space hspace
  have hfit := hs.describes.fits
  refine ⟨orderly_of_sound ⟨hs.mono fun _ => trivial, hclean⟩ hroot hlending, ?_⟩
  intro x hx hzero
  obtain ⟨hl, howned, hheight⟩ := hx.links hfit hroot
  have hnone := hs.busy x _ 0 hl howned (hfit.child hl hheight) (.inr trivial) hzero
  cases hnone

/-- **Unmapping a page that was just mapped leaves everything as it was.**  It gives the frame that
was mapped, and then the same tables can be reached from every root, they have the same words, with
their counts, and the source of frames is the same. -/
theorem map_unmap [RestoringSource A] {spaces : List AddressSpace} (hs : Paged spaces s)
    (hspace : space ∈ spaces) (hmap : (space.map va pa flags).run s = .ok (.ok ()) s') :
    ∃ s'', (space.unmap va).run s' = .ok (.ok pa.page) s'' ∧
      ∀ other ∈ spaces, Untouched s s'' other.root := by
  obtain ⟨C, hsettled, hclean, hlending, hroots⟩ := hs.settled
  have hmaps : Ensures (space.map va pa flags) noPanic s _ :=
    AddressSpace.map_unmap_ensures hsettled (hroots space hspace)
      (fun _ : True => ‹RestoringSource A›) fun hlend => absurd hlend hlending
  obtain ⟨r, s'', hrun, rfl, hrestored⟩ := (hmaps.of_ok hmap rfl).returns
  refine ⟨s'', hrun, ?_⟩
  intro other hother
  exact untouched_of_restored ⟨hsettled.mono fun _ => trivial, hclean⟩ (hroots other hother)
    hrestored

/-- A page of a new address space is mapped and unmapped. -/
theorem map_unmap_sample :
    ∃ s₀ s₁ s₂, AddressSpace.create.run (Pool.sample 7) = .ok (.ok ⟨.ofNumber 1⟩) s₀ ∧
      (AddressSpace.map ⟨.ofNumber 1⟩ ⟨0x1000⟩ ⟨0x5000⟩ ⟨2⟩).run s₀ = .ok (.ok ()) s₁ ∧
      (AddressSpace.unmap ⟨.ofNumber 1⟩ ⟨0x1000⟩).run s₁ = .ok (.ok (.ofNumber 5)) s₂ ∧
      Untouched s₀ s₂ (.ofNumber 1) := by
  have hheld : Holds (Pool.sample 7) ∅ := Pool.holds_sample (le_refl 7)
  obtain ⟨s₀, hcreate⟩ :
      ∃ s₀, AddressSpace.create.run (Pool.sample 7) = .ok (.ok ⟨.ofNumber 1⟩) s₀ := ⟨_, rfl⟩
  obtain ⟨s₁, hmap⟩ : ∃ s₁,
      (AddressSpace.map ⟨.ofNumber 1⟩ ⟨0x1000⟩ ⟨0x5000⟩ ⟨2⟩).run s₀ = .ok (.ok ()) s₁ :=
    AddressSpace.map_created hheld hcreate (by decide) (by decide) (by decide)
  obtain ⟨s₂, hunmap, huntouched⟩ := map_unmap (.create (.start hheld) hcreate) (by simp) hmap
  exact ⟨s₀, s₁, s₂, hcreate, hmap, hunmap, huntouched ⟨.ofNumber 1⟩ (by simp)⟩

end Space

end KernelMemory
