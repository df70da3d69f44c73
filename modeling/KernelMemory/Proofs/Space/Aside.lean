import KernelMemory.Proofs.Space.Grounds
import KernelMemory.Proofs.Space.Pages

/-!
# What an operation on a root leaves alone

An operation on a root writes to the tables of that root, to frames that were free, and to the books
of the source.  A lookup reads nothing but the tables on its way.  So an address whose way under
some other root passes none of these frames stands for what it stood for.

* **`Memory.AgreesOn.sameAt`** — lookups read nothing but the tables on their way.
* `Space.Tiered` — the tables of a root are a tree that the source leaves alone.
* `Space.Aside` — a frame that has nothing to do with a root.
* **`AddressSpace.map_keeps_aside`**, **`AddressSpace.unmap_keeps_aside`** — the operations leave
  such frames alone.
-/

namespace KernelMemory

open KernelMemory.Action

/-! ## What lookups read -/

namespace Memory

variable {m m' : Memory} {root : Frame} {va : VirtAddr} {on : Frame → Prop}

lemma AgreesOn.readEntry {slot : Slot} (hm : m.AgreesOn on m') (hslot : on slot.table) :
    m'.readEntry slot = m.readEntry slot := by
  rw [Memory.readEntry, Memory.readEntry, Memory.touch, Memory.touch, hm.window, hm.entry hslot]

/-- A walk reads the tables on its way. -/
lemma AgreesOn.descend {h : Nat} (path : Path) (hm : m.AgreesOn on m')
    (hway : ∀ holders t k, m.outline.Leads root va holders t k → on t)
    (hl : m.outline.Leads root va path.holders path.slot.table h)
    (hindex : path.slot.index = va.index h) :
    m'.descend va h path = m.descend va h path := by
  induction h generalizing path with
  | zero => rfl
  | succ h ih =>
      rw [Memory.descend, Memory.descend, hm.readEntry (hway _ _ _ hl), Memory.readEntry]
      cases m.touch path.slot.table with
      | error p => rfl
      | ok =>
          change (if (m.entry path.slot).isTable then _ else _) =
            if (m.entry path.slot).isTable then _ else _
          split
          case isTrue hisTable =>
            exact ih (path.down _ _) (Memory.leads_down hl hindex hisTable) rfl
          case isFalse => rfl

/-- What a walk finds is the same, and so is the entry of the slot that it finds. -/
lemma AgreesOn.find (hm : m.AgreesOn on m')
    (hway : ∀ holders t h, m.outline.Leads root va holders t h → on t) :
    (AddressSpace.mk root).find m' va = (AddressSpace.mk root).find m va ∧
      ∀ path, (AddressSpace.mk root).find m va = .ok (.ok (.slot path)) →
        m'.readEntry path.slot = m.readEntry path.slot := by
  refine ⟨?_, fun path hslot => ?_⟩
  · rw [AddressSpace.find, AddressSpace.find, hm.descend (.ofRoot root va) hway .root rfl]
  · have hwalk : (AddressSpace.mk root).walk m va = .ok (.ok path) := by
      rw [AddressSpace.walk, hslot]
      rfl
    exact hm.readEntry (hway _ _ _ (AddressSpace.leads_of_walk hwalk))

/-- **Lookups give the same** if the tables on their way have the same entries. -/
theorem AgreesOn.sameAt (hm : m.AgreesOn on m')
    (hway : ∀ holders t h, m.outline.Leads root va holders t h → on t) : m.SameAt root m' va := by
  obtain ⟨hfind, hread⟩ := hm.find hway
  constructor
  case isMapped =>
    rw [AddressSpace.isMapped, AddressSpace.isMapped, hfind]
    rcases hr : (AddressSpace.mk root).find m va with p | err | path | large
    case ok.ok.slot => exact congrArg (· >>= fun e : Entry => pure e.present) (hread path hr)
    all_goals rfl
  case translate =>
    rw [AddressSpace.translate, AddressSpace.translate, hfind]
    rcases hr : (AddressSpace.mk root).find m va with p | err | path | large
    case ok.ok.slot =>
      exact congrArg (· >>= fun e : Entry => pure (e.translate 0 va)) (hread path hr)
    all_goals rfl

end Memory

/-! ## Trees that the source leaves alone -/

namespace Space

variable {A : Type} [FrameSource A] [LawfulSource A] {s : Store A} {root f : Frame}

/-- **The tables of a root are a tree** as far as heights go, and the source leaves them alone.
Nothing is said of counts, of entries that are not present, or of how often a table is linked. -/
structure Tiered (s : Store A) (root : Frame) : Prop where
  /-- No frame serves as tables of two heights. -/
  height {h k : Nat} {t : Frame} : s.memory.Reaches root h t → s.memory.Reaches root k t → h = k
  /-- No table is free. -/
  notFree {h : Nat} {t : Frame} : s.memory.Reaches root h t → t ∉ freeFrames s
  /-- No table holds the books of the source. -/
  notBooks {h : Nat} {t : Frame} : s.memory.Reaches root h t → ¬ Books s.source t
  /-- Owned tables were handed out and not given back. -/
  held : ∃ held, Holds s held ∧ ∀ h x, Owns s.memory root h x → (s.memory.entry x).frame ∈ held

lemma Coherent.tiered (hc : Coherent s root) : Tiered s root :=
  ⟨hc.height, hc.notFree, hc.notBooks, hc.held⟩

/-- The tables of a root on a chart that describes the state are a tree. -/
lemma tiered_of_describes {C : Chart} (hd : C.Describes s) (hroot : C.IsRoot root) :
    Tiered s root := by
  have hisTable : ∀ {h t}, s.memory.Reaches root h t → C.IsTable t := fun hr =>
    ⟨_, hd.fits.height_of_reaches hroot hr⟩
  obtain ⟨held, hholds, hheld⟩ := hd.held
  refine ⟨fun hr hr' => ?_, fun hr => hd.notFree (hisTable hr), fun hr => hd.notBooks (hisTable hr),
    held, hholds, fun h x hx => ?_⟩
  · exact Option.some.inj
      ((hd.fits.height_of_reaches hroot hr).symm.trans (hd.fits.height_of_reaches hroot hr'))
  · obtain ⟨hl, howned, -⟩ := hx.links hd.fits hroot
    exact hheld _ (hd.fits.isTable_of_links hl) (hd.fits.ours hl howned)

/-- **A frame lies aside of a root**: it is none of its tables, and the source leaves it alone. -/
structure Aside (s : Store A) (root f : Frame) : Prop where
  unreached (h : Nat) : ¬ s.memory.Reaches root h f
  notFree : f ∉ freeFrames s
  notBooks : ¬ Books s.source f

/-- The grounds that are found by looking at memory. -/
noncomputable def groundsOf (s : Store A) (root : Frame) (held : Finset Frame) : Grounds where
  root
  height := (chartOf s.memory root).height
  held
  Aside := Aside s root

/-- **A tree has its grounds.** -/
theorem Tiered.describes (ht : Tiered s root) :
    ∃ held, (groundsOf s root held).Describes s := by
  obtain ⟨held, hholds, hheld⟩ := ht.held
  have hheight : ∀ {h t}, s.memory.Reaches root h t →
      (chartOf s.memory root).height t = some h :=
    fun hr => height_of_reaches (fun hk => ht.height hk hr) hr
  refine ⟨held, hheight .root, fun hx k hk hisTable => ?_, hholds,
    fun hf _ => ht.notFree (reaches_of_height hf), fun hf => ht.notBooks (reaches_of_height hf),
    fun {f} hf => ⟨?_, hf.notFree, hf.notBooks⟩⟩
  · subst hk
    have hr := reaches_of_height hx
    exact ⟨hheight (hr.down hisTable), fun howned _ => hheld k _ ⟨hr, hisTable, howned⟩⟩
  · cases hnone : (chartOf s.memory root).height f with
    | none => exact hnone
    | some h => exact absurd (reaches_of_height hnone) (hf.unreached h)

/-- **What can be reached from one root of a chart lies aside of another**, if it cannot be reached
from that one. -/
theorem aside_of_describes {C : Chart} {other t : Frame} {h : Nat} (hd : C.Describes s)
    (hother : C.IsRoot other) (hr : s.memory.Reaches other h t)
    (hnot : ∀ k, ¬ s.memory.Reaches root k t) : Aside s root t := by
  have ht : C.IsTable t := ⟨h, hd.fits.height_of_reaches hother hr⟩
  exact ⟨hnot, hd.notFree ht, hd.notBooks ht⟩

end Space

/-! ## Operations on a root -/

namespace AddressSpace

open Space

variable {A : Type} [FrameSource A] [LawfulSource A] {s : Store A} {root : Frame} {va : VirtAddr}
  {pa : PhysAddr} {flags : Flags}

/-- **Mapping a page** leaves alone what lies aside of the root. -/
theorem map_keeps_aside (ht : Tiered s root) :
    Ensures (AddressSpace.map ⟨root⟩ va pa flags) anyPanic s fun _ s' =>
      s.memory.AgreesOn (Aside s root) s'.memory := by
  obtain ⟨held, hd⟩ := ht.describes
  refine (map_treads hd rfl).mono ?_
  rintro _ s' ⟨G', htreads, -⟩
  exact htreads.memory

/-- **Unmapping a page** leaves alone what lies aside of the root. -/
theorem unmap_keeps_aside (ht : Tiered s root) :
    Ensures (AddressSpace.unmap ⟨root⟩ va) anyPanic s fun _ s' =>
      s.memory.AgreesOn (Aside s root) s'.memory := by
  obtain ⟨held, hd⟩ := ht.describes
  refine (unmap_treads hd rfl).mono ?_
  rintro _ s' ⟨G', htreads⟩
  exact htreads.memory

end AddressSpace

end KernelMemory
