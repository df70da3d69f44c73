import KernelMemory.Proofs.Frames.Lawful

/-!
# Sources that hand no frame out twice

A client that only keeps what it is given relies on less than the page tables do: that a frame is
not handed out while somebody holds it.  Nothing is said here about which frames those are, whether
an entry can name them, or where the source keeps its books.

* **`ExclusiveSource`** — no frame is handed out that is still lent.
* **`LawfulSource.exclusiveWhile`** — a well-behaved source is one, and keeps whatever holds of the
  memory outside its books.
-/

namespace KernelMemory

variable {A : Type} [FrameSource A]

/-- **A source that never hands out a frame that is still held.** -/
class ExclusiveSource (A : Type) [FrameSource A] where
  /-- The given frames were handed out and not given back since. -/
  Lent : Store A → Finset Frame → Prop
  /-- What is noted does not matter. -/
  of_eq {s s' held} : Lent s held → s'.source = s.source → s'.memory = s.memory → Lent s' held
  /-- A refused request takes nothing. -/
  alloc_none {s s' held} : Lent s held →
    (FrameSource.alloc : Action (Store A) _).run s = .ok none s' →
    Lent s' held ∧ s'.memory.window = s.memory.window
  /-- A frame that is handed out was not held. -/
  alloc_some {s s' held f} : Lent s held →
    (FrameSource.alloc : Action (Store A) _).run s = .ok (some f) s' →
    f ∉ held ∧ Lent s' (insert f held) ∧ s'.memory.window = s.memory.window
  /-- A frame that was held is given back. -/
  free {s s' held f} : Lent s held → f ∈ held →
    (FrameSource.free f : Action (Store A) _).run s = .ok () s' →
    Lent s' (held.erase f) ∧ s'.memory.window = s.memory.window

export ExclusiveSource (Lent)

/-- One client gives a frame back, and what others hold they still hold. -/
lemma ExclusiveSource.free_other [ExclusiveSource A] {s s' : Store A} {held others : Finset Frame}
    {f : Frame} (h : Lent s (held ∪ others)) (hf : f ∈ others) (hheld : f ∉ held)
    (hrun : (FrameSource.free f : Action (Store A) _).run s = .ok () s') :
    Lent s' (held ∪ others.erase f) ∧ s'.memory.window = s.memory.window := by
  obtain ⟨hlent, hwindow⟩ := ExclusiveSource.free h (Finset.mem_union_right held hf) hrun
  rw [Finset.erase_union_distrib, Finset.erase_eq_of_notMem hheld] at hlent
  exact ⟨hlent, hwindow⟩

namespace LawfulSource

variable [LawfulSource A]

/-- A property of stores that no change of the books can upset. -/
def Elsewhere (p : Store A → Prop) : Prop :=
  ∀ {s s' : Store A}, p s → Books s'.source = Books s.source →
    s.memory.AgreesOn (fun f => ¬ Books s.source f) s'.memory → p s'

/-- **A well-behaved source never hands out a frame that is still held**, and keeps a property of
the memory outside its books. -/
@[reducible] def exclusiveWhile (p : Store A → Prop) (hp : Elsewhere p) : ExclusiveSource A where
  Lent s held := Holds s held ∧ p s
  of_eq := fun ⟨hheld, h⟩ hsource hmemory =>
    ⟨(congr hheld hsource (hmemory ▸ .refl _)).1, hp h (by rw [hsource]) (hmemory ▸ .refl _)⟩
  alloc_none := fun ⟨hheld, h⟩ hrun => by
    obtain ⟨hheld', -, hbooks, hagree⟩ := LawfulSource.alloc_none hheld hrun
    exact ⟨⟨hheld', hp h hbooks hagree⟩, hagree.window⟩
  alloc_some := fun ⟨hheld, h⟩ hrun => by
    obtain ⟨hfree, hheld', -, hbooks, hagree⟩ := LawfulSource.alloc_some hheld hrun
    exact ⟨fun hf => notFree hheld hf hfree, ⟨hheld', hp h hbooks hagree⟩, hagree.window⟩
  free := fun ⟨hheld, h⟩ hf hrun => by
    obtain ⟨s', hrun', hheld', -, hbooks, hagree⟩ := free_returns hheld hf
    rw [hrun'] at hrun
    cases hrun
    exact ⟨⟨hheld', hp h hbooks hagree⟩, hagree.window⟩

instance instExclusiveSource : ExclusiveSource A :=
  exclusiveWhile (fun _ => True) fun _ _ _ => trivial

lemma lent {s : Store A} {held : Finset Frame} (hheld : Holds s held) : Lent s held :=
  ⟨hheld, trivial⟩

end LawfulSource

end KernelMemory
