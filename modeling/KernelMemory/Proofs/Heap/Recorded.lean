import KernelMemory.Heap
import KernelMemory.Proofs.Frames.Projection

/-!
# Heaps do not look at the source

A heap asks its source for frames and looks at nothing else of it, so that it does the same with a
source and with one that stands before it.

* **`Heap.erases_start`**, **`Heap.erases_alloc`** — the calls of a heap.
-/

namespace KernelMemory.Heap

open KernelMemory.Action (Erases)

variable {A B : Type} {f : B → A} [FrameSource A] [FrameSource B] [ProjectsTo f] {h : Heap}

lemma erases_start : Erases (Store.project f) start start := by
  refine ProjectsTo.alloc.bind fun frame? => ?_
  cases frame? with
  | none => exact .pure _
  | some first => exact (Store.erases_note _).bind fun _ => .pure _

lemma erases_grow {size : Nat} :
    Erases (Store.project f) (h.grow size) (h.grow size) := by
  induction h using Heap.grow.induct size with
  | case1 h hfits =>
      rw [grow.eq_def (A := B), grow.eq_def (A := A), dif_pos hfits, dif_pos hfits]
      exact .pure _
  | case2 h hfits ih =>
      rw [grow.eq_def (A := B), grow.eq_def (A := A), dif_neg hfits, dif_neg hfits]
      refine ProjectsTo.alloc.bind fun frame? => ?_
      cases frame? with
      | none => exact .pure _
      | some frame =>
          dsimp only
          cases hadd : h.addFrame? frame with
          | error p => exact .throw p
          | ok larger? =>
              cases larger? with
              | none => exact (ProjectsTo.free frame).bind fun _ => .pure _
              | some larger =>
                  have hrest : Erases (Store.project f) (larger.grow size) (larger.grow size) :=
                    ih frame larger hadd
                  exact .ite ((Store.erases_note _).bind fun _ => hrest) hrest

omit [FrameSource A] [FrameSource B] [ProjectsTo f] in
lemma erases_bump {n : Nat} : Erases (Store.project f) (h.bump n) (h.bump n) := by
  refine (Erases.ofExcept _).bind fun address => (Erases.ofExcept _).bind fun used => ?_
  refine (Store.erases_note _).bind fun _ => (Store.erases_lookup _).bind fun pointer => ?_
  exact .ite (.pure _) (.pure _)

lemma erases_alloc {size : UInt64} : Erases (Store.project f) (h.alloc size) (h.alloc size) := by
  rw [alloc, alloc]
  refine .ite (.pure _) ?_
  cases roundUp? size.toNat with
  | none => exact .pure _
  | some n =>
      refine erases_grow.bind fun ⟨larger, r⟩ => ?_
      rcases r with e | ⟨⟩
      · exact .pure _
      · exact erases_bump

end KernelMemory.Heap
