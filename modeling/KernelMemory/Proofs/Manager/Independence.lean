import KernelMemory.Proofs.Frames.Reservation
import KernelMemory.Proofs.Manager.Operations
import KernelMemory.Proofs.Space.Views

/-!
# Results do not depend on the source of frames

What an operation on a root gives is decided by what callers see of the address space, and by
nothing else.  So two managers with different sources, in different memories and on different
machines, cannot be told apart as long as they started with the same number of free frames.

* `View.step` — what an operation makes of a view.
* **`View.step_answers`** — an operation on a root gives what the view says.
* `Manager.observe` — makes operations one after the other and notes what they give, and how many
  frames they leave.
* **`Manager.observe_independent`** — two runs of the same operations on new roots give the same, if
  there were equally many free frames.
-/

namespace KernelMemory

open KernelMemory.Action Chart LawfulSource Manager

namespace View

/-! ## Operations on a view -/

/-- Maps page `k` of a range. -/
noncomputable def mapRangePage (v : View) (va : VirtAddr) (pa : PhysAddr) (flags : Flags)
    (k : Nat) : Except MapError Bool × View :=
  match advance va (k * pageSize) .virtualWraps, advance pa (k * pageSize) .physicalWraps with
  | .error e, _ => (.error e, v)
  | .ok _, .error e => (.error e, v)
  | .ok va, .ok pa =>
    match v.map va pa flags with
    | (.ok (), v) => (.ok true, v)
    | (.error .alreadyMapped, v) => (.ok false, v)
    | (.error e, v) => (.error e, v)

/-- Maps `count` pages of a range from page `k` on. -/
noncomputable def mapRangeFrom (v : View) (va : VirtAddr) (pa : PhysAddr) (flags : Flags)
    (k fresh : Nat) : (count : Nat) → Except MapError Nat × View
  | 0 => (.ok fresh, v)
  | count + 1 =>
    match v.mapRangePage va pa flags k with
    | (.error e, v) => (.error e, v)
    | (.ok isFresh, v) => v.mapRangeFrom va pa flags (k + 1) (fresh + isFresh.toNat) count

/-- Tries one page, with one frame less. -/
noncomputable def selfTest (v : View) (va : VirtAddr) : Except MapError Unit :=
  if v.free = 0 then .error .outOfMemory
  else match ({ v with frames := v.frames - 1 } : View).admits va with
    | .error e => .error e
    | .ok () => if va.offset = 0 then .ok () else .error (.invalidRequest .selfTestOtherFrame)

/-- **What an operation gives**, and what it makes of the view. -/
noncomputable def step (v : View) : (op : Operation) → op.Reply × View
  | .map va pa flags => v.map va pa flags
  | .unmap va => v.unmap va
  | .isMapped va => (v.isMapped va, v)
  | .translate va => (v.translate va, v)
  | .identityMap va pa size flags => v.mapRangeFrom va pa flags 0 0 (size.toNat / pageSize)
  | .selfTest va => (v.selfTest va, v)

variable {A P : Type} [FrameSource A] [LawfulSource A] [PagingControl P] {C : Chart} {root : Frame}
  {start : Finset Frame} {v : View} {m : Manager A P} {va : VirtAddr} {pa : PhysAddr}
  {flags : Flags}

/-- **An action gives what a view says**, and leaves a state as the new view says. -/
def Answers {α : Type} (root : Frame) (start : Finset Frame) (m : Manager A P) (answer : α × View)
    (r : α) (m' : Manager A P) : Prop :=
  r = answer.1 ∧ (∃ C, Depicts C root start answer.2 m'.store) ∧ m'.kernelRoot = m.kernelRoot

lemma map_answers [GenerousSource A] (hv : Depicts C root start v m.store) :
    Ensures (Manager.map root va pa flags) noPanic m
      (Answers root start m (v.map va pa flags)) := by
  refine (onStore_ensures hv.map).bind ?_
  rintro r m₁ ⟨s₁, rfl, hr, hv₁⟩
  rcases r with e | ⟨⟩
  · exact .pure ⟨hr, hv₁, rfl⟩
  · exact .bind_run (EStateM.run_modify ..) (.pure ⟨hr, hv₁, rfl⟩)

lemma unmap_answers (hv : Depicts C root start v m.store) :
    Ensures (Manager.unmap root va) noPanic m (Answers root start m (v.unmap va)) := by
  refine (onStore_ensures hv.unmap).bind ?_
  rintro r m₁ ⟨s₁, rfl, hr, hv₁⟩
  rcases r with e | f
  · exact .pure ⟨hr, hv₁, rfl⟩
  · exact .bind_run (EStateM.run_modify ..) (.pure ⟨hr, hv₁, rfl⟩)

/-! ## Ranges of pages -/

lemma mapRangePage_answers [GenerousSource A] {k : Nat} (hv : Depicts C root start v m.store)
    (hroot : m.kernelRoot = root) (hk : k < 2 ^ 52) :
    Ensures (Manager.mapRangePage va pa flags k) noPanic m
      (Answers root start m (v.mapRangePage va pa flags k)) := by
  have hlt : k * pageSize < 2 ^ 64 := by
    simp only [pageSize]
    omega
  have hmul : Checked.mul k pageSize = .ok (k * pageSize) := Checked.mul_eq_ok_iff.mpr ⟨hlt, rfl⟩
  refine .bind_run (run_ofExcept hmul) ?_
  rw [mapRangePage]
  cases hva : advance va (k * pageSize) .virtualWraps with
  | error e => exact .pure ⟨rfl, ⟨C, hv⟩, rfl⟩
  | ok va' =>
      cases hpa : advance pa (k * pageSize) .physicalWraps with
      | error e => exact .pure ⟨rfl, ⟨C, hv⟩, rfl⟩
      | ok pa' =>
          refine .bind_run (EStateM.run_get _) ?_
          dsimp only
          rw [hroot]
          refine (map_answers hv).bind ?_
          rintro r m₁ ⟨rfl, ⟨C₁, hv₁⟩, hkernel⟩
          rcases hmap : v.map va' pa' flags with ⟨err | ⟨⟩, v₁⟩
          · rw [hmap] at hv₁
            cases err
            case alreadyMapped =>
              obtain ⟨held, hheld, -⟩ := hv₁.settled.describes.held
              have hnoted : Restored False m₁.store
                  { m₁.store with log := m₁.store.log.push (.rangePageMapped va') } :=
                .of_eq hheld rfl rfl
              exact .bind_run (run_onStore Store.run_note)
                (.pure ⟨rfl, ⟨C₁, hv₁.restored hnoted⟩, hkernel⟩)
            all_goals exact .pure ⟨rfl, ⟨C₁, hv₁⟩, hkernel⟩
          · rw [hmap] at hv₁
            exact .pure ⟨rfl, ⟨C₁, hv₁⟩, hkernel⟩

lemma mapRangeFrom_answers [GenerousSource A] {k fresh count : Nat}
    (hv : Depicts C root start v m.store) (hroot : m.kernelRoot = root) (hfresh : fresh ≤ k)
    (hk : k + count ≤ 2 ^ 52) :
    Ensures (Manager.mapRangeFrom va pa flags k fresh count) noPanic m
      (Answers root start m (v.mapRangeFrom va pa flags k fresh count)) := by
  induction count generalizing C m v k fresh with
  | zero => exact .pure ⟨rfl, ⟨C, hv⟩, rfl⟩
  | succ count ih =>
      refine (mapRangePage_answers hv hroot (by omega)).bind ?_
      rintro r m₁ ⟨rfl, ⟨C₁, hv₁⟩, hkernel⟩
      rw [mapRangeFrom]
      rcases hpage : v.mapRangePage va pa flags k with ⟨err | isFresh, v₁⟩
      · rw [hpage] at hv₁
        exact .pure ⟨rfl, ⟨C₁, hv₁⟩, hkernel⟩
      · rw [hpage] at hv₁
        have hle : fresh + isFresh.toNat ≤ k + 1 := by
          have := isFresh.toNat_le
          omega
        have hadd : Checked.add fresh isFresh.toNat = .ok (fresh + isFresh.toNat) :=
          Checked.add_eq_ok_iff.mpr ⟨by omega, rfl⟩
        refine .bind_run (run_ofExcept hadd) ?_
        refine (ih hv₁ (hkernel.trans hroot) hle (by omega)).mono ?_
        rintro r' m₂ ⟨rfl, hv₂, hkernel₂⟩
        exact ⟨rfl, hv₂, hkernel₂.trans hkernel⟩

/-! ## The self test -/

/-- Whether the page of the self test can be mapped is decided by what callers see, not by which
frame it is mapped to. -/
lemma map_aside [GenerousSource A] {frame : Frame} {s : Store A} {r : Except MapError Unit}
    {m' : Manager A P} (hv : Depicts C root start v m.store)
    (halloc : (FrameSource.alloc : Action (Store A) _).run m.store = .ok (some frame) s)
    (hmap : (Manager.map root va frame.base flags).run { m with store := s } = .ok r m') :
    v.free ≠ 0 ∧ r = ({ v with frames := v.frames - 1 } : View).admits va := by
  obtain ⟨held, hheld, -⟩ := hv.settled.describes.held
  have hframe := (LawfulSource.alloc_some hheld halloc).1
  have hnumber := LawfulSource.number_lt hheld hframe
  have hpa : ¬ 2 ^ physicalAddressBits ≤ frame.base.value.toNat := by
    rw [Page.toNat_base]
    simp only [physicalAddressBits, pageSize]
    omega
  refine ⟨?_, ?_⟩
  · rw [← hv.card_free]
    exact Finset.card_ne_zero_of_mem hframe
  · have hanswers := @map_answers A P _ (.besides A {frame}) _ C root (start.erase frame)
      { v with frames := v.frames - 1 } { m with store := s } va frame.base flags
      (GenerousSource.besides A {frame}) (hv.alloc_aside halloc)
    obtain ⟨hr, -⟩ := hanswers.of_ok hmap
    rw [hr, map_fst, if_neg hpa]

lemma selfTest_answers [GenerousSource A] (hv : Depicts C root start v m.store)
    (hroot : m.kernelRoot = root) :
    Ensures (Manager.selfTest va) noPanic m (Answers root start m (v.selfTest va, v)) := by
  obtain rfl := hroot
  refine (selfTest_effect hv.serves).mono ?_
  rintro r m' ⟨C', l, heffect, hresolve, hend⟩
  refine ⟨?_, ⟨C', hv.carry heffect.carries heffect.serves.toSettled fun va' hva' => ?_⟩,
    heffect.kernelRoot⟩
  · rw [selfTest]
    generalize l.map Invalidation.page = pages at hend
    cases hend with
    | noFrame halloc =>
        obtain ⟨held, hheld, -⟩ := hv.settled.describes.held
        rw [if_pos]
        rw [← hv.card_free, GenerousSource.free_eq_empty hheld halloc, Finset.card_empty]
    | notMapped halloc hmap =>
        obtain ⟨hfree, hadmits⟩ := map_aside hv halloc hmap
        rw [if_neg hfree, ← hadmits]
    | mapped halloc hmap =>
        obtain ⟨hfree, hadmits⟩ := map_aside hv halloc hmap
        rw [if_neg hfree, ← hadmits]
  · rw [hresolve va']
    exact hv.resolves va' hva'

/-! ## Every operation -/

/-- **An operation on a root gives what the view says**, and leaves the root as the view says. -/
theorem step_answers [GenerousSource A] (op : Operation) (hv : Depicts C root start v m.store)
    (hroot : op.OnKernel → m.kernelRoot = root) :
    Ensures (op.run root) noPanic m (Answers root start m (v.step op)) := by
  cases op with
  | map va pa flags => exact map_answers hv
  | unmap va => exact unmap_answers hv
  | isMapped va => exact .of_run (Manager.run_lookup (hv.lookup va).1) ⟨rfl, ⟨C, hv⟩, rfl⟩
  | translate va => exact .of_run (Manager.run_lookup (hv.lookup va).2) ⟨rfl, ⟨C, hv⟩, rfl⟩
  | identityMap va pa size flags =>
      refine mapRangeFrom_answers hv (hroot trivial) (le_refl 0) ?_
      have := size.toNat_lt
      simp only [pageSize]
      omega
  | selfTest va => exact selfTest_answers hv (hroot trivial)

end View

namespace Manager

variable {A B P Q : Type}

/-! ## Runs of operations -/

/-- What an operation gave, and how many frames were free after it. -/
structure Observation where
  op : Operation
  reply : op.Reply
  free : Nat

/-- Makes operations on a root, one after the other, and notes what they give. -/
def observe [FrameSource A] [LawfulSource A] [PagingControl P] (root : Frame) :
    List Operation → Action (Manager A P) (List Observation)
  | [] => return []
  | op :: ops => do
    let reply ← op.run root
    let free := (freeFrames (← get).store).card
    return ⟨op, reply, free⟩ :: (← observe root ops)

end Manager

/-- What is noted of operations on a view. -/
noncomputable def View.observe (v : View) : List Operation → List Observation
  | [] => []
  | op :: ops => ⟨op, (v.step op).1, (v.step op).2.free⟩ :: (v.step op).2.observe ops

lemma View.map_op_observe {ops : List Operation} (v : View) :
    (v.observe ops).map Observation.op = ops := by
  induction ops generalizing v with
  | nil => rfl
  | cons op ops ih => rw [observe, List.map_cons, ih]

namespace Manager

section

variable [FrameSource A] [LawfulSource A] [GenerousSource A] [PagingControl P] {C : Chart}
  {root : Frame} {start : Finset Frame} {v : View} {m : Manager A P} {ops : List Operation}

/-- **A run of operations** notes what the view says. -/
theorem observe_ensures (hv : View.Depicts C root start v m.store)
    (hroot : ∀ op ∈ ops, op.OnKernel → m.kernelRoot = root) :
    Ensures (observe root ops) noPanic m fun l _ => l = v.observe ops := by
  induction ops generalizing C v m with
  | nil => exact .pure rfl
  | cons op ops ih =>
      obtain ⟨hop, hrest⟩ := List.forall_mem_cons.mp hroot
      refine (View.step_answers op hv hop).bind ?_
      rintro reply m₁ ⟨rfl, ⟨C₁, hv₁⟩, hkernel⟩
      refine .bind_run (EStateM.run_get m₁) ?_
      rw [hv₁.card_free]
      refine (ih hv₁ fun op hmem hon => hkernel.trans (hrest op hmem hon)).bind ?_
      rintro l m₂ rfl
      exact .pure rfl

/-- The root was made just now, with a source in order. -/
inductive FreshRoot (root : Frame) (m : Manager A P) : Prop
  | intro {s s₀ : Store A} {held : Finset Frame} : Holds s held →
      AddressSpace.create.run s = .ok (.ok ⟨root⟩) s₀ → m.store.memory = s₀.memory →
      m.store.source = s₀.source → FreshRoot root m

end

/-- **Results do not depend on the source.**  Whatever operations are made on a new root, with any
two well-behaved sources that refuse a frame only while none is free: all of them return, and both
runs give the same, operation by operation, and leave the same numbers of free frames. -/
theorem observe_independent [FrameSource A] [LawfulSource A] [GenerousSource A] [PagingControl P]
    [FrameSource B] [LawfulSource B] [GenerousSource B] [PagingControl Q] {root root' : Frame}
    {m : Manager A P} {m' : Manager B Q} (hfresh : FreshRoot root m) (hfresh' : FreshRoot root' m')
    (hcard : (freeFrames m.store).card = (freeFrames m'.store).card) (ops : List Operation)
    (hroot : ∀ op ∈ ops, op.OnKernel → m.kernelRoot = root ∧ m'.kernelRoot = root') :
    ∃ l m₁ m₁', (observe root ops).run m = .ok l m₁ ∧ (observe root' ops).run m' = .ok l m₁' ∧
      l.map Observation.op = ops := by
  obtain ⟨hheld, hcreate, hmemory, hsource⟩ := hfresh
  obtain ⟨hheld', hcreate', hmemory', hsource'⟩ := hfresh'
  obtain ⟨C, hv⟩ := View.Depicts.created hheld hcreate hmemory hsource
  obtain ⟨C', hv'⟩ := View.Depicts.created hheld' hcreate' hmemory' hsource'
  rw [← hcard] at hv'
  obtain ⟨l, m₁, hrun, rfl⟩ :=
    (observe_ensures hv fun op hmem hon => (hroot op hmem hon).1).returns
  obtain ⟨l', m₁', hrun', rfl⟩ :=
    (observe_ensures hv' fun op hmem hon => (hroot op hmem hon).2).returns
  exact ⟨_, m₁, m₁', hrun, hrun', View.map_op_observe _⟩

/-- A pool and a bitmap with seven free frames each. -/
theorem observe_independent_sample : ∃ (m : Manager Pool Recorder) (m' : Manager Bitmap Recorder)
    (root : Frame) (l : List Observation) (m₁ : Manager Pool Recorder)
    (m₁' : Manager Bitmap Recorder),
    FreshRoot (.ofNumber 1) m ∧ FreshRoot root m' ∧
      (observe (.ofNumber 1) [.map ⟨0x1000⟩ ⟨0x5000⟩ ⟨2⟩, .selfTest ⟨0x2000⟩]).run m = .ok l m₁ ∧
      (observe root [.map ⟨0x1000⟩ ⟨0x5000⟩ ⟨2⟩, .selfTest ⟨0x2000⟩]).run m' = .ok l m₁' ∧
      l.map Observation.op = [.map ⟨0x1000⟩ ⟨0x5000⟩ ⟨2⟩, .selfTest ⟨0x2000⟩] := by
  obtain ⟨b, memory, regions, event, -, hb⟩ := Bitmap.install_sample
  obtain ⟨hheld, hfree⟩ := hb #[]
  obtain ⟨⟨root⟩, s₀, hcreate⟩ := AddressSpace.create_room hheld (by rw [hfree]; decide)
  have hcreated : Ensures AddressSpace.create anyPanic _ _ :=
    AddressSpace.create_settled False True True hheld
  obtain ⟨-, -, hroot, hfree₀⟩ := hcreated.of_ok hcreate _ rfl
  have hfresh : FreshRoot (.ofNumber 1) World.sample.manager :=
    .intro (Pool.holds_sample (le_refl 7)) rfl rfl rfl
  have hfresh' : FreshRoot root (P := Recorder) ⟨s₀, { root }, root, false⟩ :=
    .intro hheld hcreate rfl rfl
  have hcard : (freeFrames World.sample.manager.store).card = (freeFrames s₀).card := by
    rw [hfree₀, Finset.card_erase_of_mem hroot, hfree]
    decide
  obtain ⟨l, m₁, m₁', hrun, hrun', hops⟩ := observe_independent hfresh hfresh' hcard
    [.map ⟨0x1000⟩ ⟨0x5000⟩ ⟨2⟩, .selfTest ⟨0x2000⟩] fun _ _ _ => ⟨rfl, rfl⟩
  exact ⟨_, _, root, l, m₁, m₁', hfresh, hfresh', hrun, hrun', hops⟩

end Manager

end KernelMemory
