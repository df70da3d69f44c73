import KernelMemory.Proofs.Heap.Holdings
import KernelMemory.Proofs.Manager.Operations
import KernelMemory.Proofs.Space.Ways

/-!
# A system of clients of one source

The manager shares its source of frames with the heaps and with a client that allocates frames for
itself.  They all live in one memory and are called in any order.  For each of them, the frames of
the others are set aside: a call trades frames between the one that is called and the source, and
what the others hold stays theirs.

* `System` — a manager, a client and heaps over one source.
* `System.Call`, `System.Reached` — their calls, and the systems that calls lead to.
* **`System.Sound`** — every frame that was free at first is free, a table, or held by the client or
  by a heap, and only one of these.
* **`System.Sound.exchange`** — the client or a heap trades with the source.
* **`System.Sound.call`** — every call returns, and leaves a sound system.
-/

namespace KernelMemory

/-- A manager, a client of its source and heaps over the same source. -/
structure System (A P : Type) where
  manager : Manager A P
  /-- The frames of the client. -/
  client : Finset Frame := ∅
  heaps : List Heap := []
  /-- The roots that were made. -/
  roots : Finset Frame := ∅

namespace System

open KernelMemory.Action Chart LawfulSource

variable {A P : Type} {α : Type}

/-! ## Calls -/

/-- A call of the client, of a heap or of the manager. -/
inductive Call (P : Type) where
  | allocate
  | free (frame : Frame)
  | startHeap
  | allocBytes (heap : Nat) (size : UInt64)
  /-- A manager starts anew, on a machine. -/
  | boot (machine : P)
  | createRoot
  | operate (root : Frame) (op : Manager.Operation)

/-- The system with another store. -/
def withStore (w : System A P) (store : Store A) : System A P :=
  { w with manager := { w.manager with store } }

/-- Runs an action on the manager. -/
def onManager (act : Action (Manager A P) α) : Action (System A P) α :=
  Action.within (fun w => (w.manager, fun manager => { w with manager })) act

/-- Runs an action on the store. -/
def onStore (act : Action (Store A) α) : Action (System A P) α :=
  onManager (Manager.onStore act)

namespace Call

/-- Makes a call and takes down who holds what from then on. -/
def run [FrameSource A] [PagingControl P] : Call P → Action (System A P) Unit
  | allocate => do
    match ← onStore FrameSource.alloc with
    | none => return ()
    | some f => modify fun w => { w with client := insert f w.client }
  | free f => do
    onStore (FrameSource.free f)
    modify fun w => { w with client := w.client.erase f }
  | startHeap => do
    match ← onStore Heap.start with
    | .error _ => return ()
    | .ok h => modify fun w => { w with heaps := w.heaps ++ [h] }
  | allocBytes i size => do
    match (← get).heaps[i]? with
    | none => return ()
    | some h =>
      let (h, _) ← onStore (h.alloc size)
      modify fun w => { w with heaps := w.heaps.set i h }
  | boot machine =>
    modify fun w => { w with manager := Manager.start machine w.manager.store }
  | createRoot => do
    match ← onManager Manager.createRoot with
    | .error _ => return ()
    | .ok root => modify fun w => { w with roots := insert root w.roots }
  | operate root op => discard (onManager (op.run root))

/-- The client frees only frames that it holds, and operations are made only on roots that were
made. -/
def Permitted (w : System A P) : Call P → Prop
  | free f => f ∈ w.client
  | operate root op => root ∈ w.roots ∧ (op.OnKernel → w.manager.kernelRoot = root)
  | _ => True

end Call

/-- **The systems that permitted calls lead to**, in any order. -/
inductive Reached [FrameSource A] [PagingControl P] (w₀ : System A P) : System A P → Prop
  | start : Reached w₀ w₀
  | call {w w' : System A P} {call : Call P} : Reached w₀ w → call.Permitted w →
      call.run.run w = .ok () w' → Reached w₀ w'

/-- Every call returns that may be made. -/
def Returns [FrameSource A] [PagingControl P] (w : System A P) : Prop :=
  ∀ call : Call P, call.Permitted w → ∃ w', call.run.run w = .ok () w'

/-! ## Who holds what -/

variable {w w' : System A P} {f : Frame} {o o' : Option Nat}

/-- The frames that are held by the client, or by the heap of a number. -/
def holding (w : System A P) : Option Nat → Finset Frame
  | none => w.client
  | some i => (w.heaps[i]?).elim ∅ Heap.frames

/-- The frames that are held by the client and the heaps. -/
def others (w : System A P) : Finset Frame :=
  w.client ∪ (Finset.range w.heaps.length).biUnion fun i => w.holding (some i)

lemma mem_others : f ∈ w.others ↔ ∃ o, f ∈ w.holding o := by
  simp only [others, Finset.mem_union, Finset.mem_biUnion, Finset.mem_range]
  constructor
  · rintro (hf | ⟨i, -, hf⟩)
    · exact ⟨none, hf⟩
    · exact ⟨some i, hf⟩
  · rintro ⟨_ | i, hf⟩
    · exact .inl hf
    · refine .inr ⟨i, ?_, hf⟩
      by_contra hle
      rw [holding, List.getElem?_eq_none (Nat.not_lt.mp hle)] at hf
      exact Finset.notMem_empty f hf

/-- The holder of some frames, and all others. -/
lemma holding_union (w : System A P) (o : Option Nat) :
    w.holding o ∪ (w.others \ w.holding o) = w.others :=
  Finset.union_sdiff_of_subset fun _ hf => mem_others.mpr ⟨o, hf⟩

lemma holding_client (w : System A P) (frames : Finset Frame) :
    holding { w with client := frames } = Function.update w.holding none frames := by
  funext o
  cases o with
  | none => rw [Function.update_self, holding]
  | some i => rw [Function.update_of_ne (by simp), holding, holding]

lemma holding_append (w : System A P) (h : Heap) :
    holding { w with heaps := w.heaps ++ [h] } =
      Function.update w.holding (some w.heaps.length) h.frames := by
  funext o
  cases o with
  | none => rw [Function.update_of_ne (by simp), holding, holding]
  | some i =>
      rcases lt_trichotomy i w.heaps.length with hlt | rfl | hlt
      · rw [Function.update_of_ne (by simpa using hlt.ne), holding, holding,
          List.getElem?_append_left hlt]
      · rw [Function.update_self, holding, List.getElem?_concat_length]
        rfl
      · rw [Function.update_of_ne (by simpa using hlt.ne'), holding, holding,
          List.getElem?_eq_none hlt.le, List.getElem?_eq_none (by simp; omega)]

lemma holding_set (w : System A P) {i : Nat} (hi : i < w.heaps.length) (h : Heap) :
    holding { w with heaps := w.heaps.set i h } = Function.update w.holding (some i) h.frames := by
  funext o
  cases o with
  | none => rw [Function.update_of_ne (by simp), holding, holding]
  | some j =>
      rcases eq_or_ne j i with rfl | hne
      · rw [Function.update_self, holding, List.getElem?_set_self hi]
        rfl
      · rw [Function.update_of_ne (by simpa using hne), holding, holding,
          List.getElem?_set_ne hne.symm]

/-! ## Sound systems -/

variable [FrameSource A] [LawfulSource A] {C C' : Chart} {start own' : Finset Frame}
  {s' : Store A}

/-- **Every frame that was free at first is free, a table, or held** by the client or by one of the
heaps, and the tables are those of the roots that were made. -/
structure Sound (C : Chart) (start : Finset Frame) (w : System A P) : Prop where
  settled : @Settled A _ (.besides A w.others) C False w.manager.store
  isRoot (f : Frame) : C.IsRoot f ↔ f ∈ w.roots
  ours (f : Frame) : ¬ C.foreign f
  lending : ¬ C.lending
  tidy : C.tidy
  rooted : C.Rooted w.manager.store.memory.outline
  heaps : ∀ h ∈ w.heaps, Heap.Sound h h.frames
  /-- No frame is held twice. -/
  apart {f : Frame} {o o' : Option Nat} : f ∈ w.holding o → f ∈ w.holding o' → o = o'
  conserved (f : Frame) : C.IsTable f ∨ f ∈ w.others ∨ f ∈ freeFrames w.manager.store ↔ f ∈ start

namespace Sound

lemma fits (hw : Sound C start w) : C.Fits w.manager.store.memory.outline :=
  hw.settled.of_besides.describes.fits

lemma borrowsOnce (hw : Sound C start w) : C.BorrowsOnce w.manager.store.memory.outline :=
  hw.fits.borrowsOnce hw.tidy hw.lending

/-- What is held without the client and the heaps. -/
lemma held (hw : Sound C start w) : ∃ held, Disjoint held w.others ∧
    Holds w.manager.store (held ∪ w.others) ∧ ∀ f, C.IsTable f → f ∈ held := by
  obtain ⟨hd, -⟩ := hw.settled
  obtain ⟨-, held, hdisjoint, hheld, hmem⟩ := hd.of_besides
  exact ⟨held, hdisjoint, hheld, fun f hf => hmem f hf (hw.ours f)⟩

/-- What one holder has is held, and so are other frames. -/
lemma heldBy (hw : Sound C start w) (o : Option Nat) : ∃ rest,
    Disjoint (w.holding o) rest ∧ w.others \ w.holding o ⊆ rest ∧
      Holds w.manager.store (w.holding o ∪ rest) := by
  obtain ⟨held, hdisjoint, hheld, -⟩ := hw.held
  rw [← holding_union w o] at hdisjoint hheld
  rw [Finset.union_left_comm] at hheld
  refine ⟨_, ?_, Finset.subset_union_right, hheld⟩
  exact Finset.disjoint_union_right.mpr
    ⟨(Finset.disjoint_union_right.mp hdisjoint).1.symm, Finset.disjoint_sdiff⟩

/-! ### One call -/

/-- **The client or a heap trades with the source.** -/
theorem exchange (hw : Sound C start w) (o : Option Nat)
    (htrade : Trade w.manager.store (w.holding o) w'.manager.store own')
    (hroots : w'.roots = w.roots) (hholding : w'.holding = Function.update w.holding o own')
    (hheaps : ∀ h ∈ w'.heaps, Heap.Sound h h.frames) : Sound C start w' := by
  have hrest : ∀ f, f ∈ w.others \ w.holding o ↔ ∃ o' ≠ o, f ∈ w.holding o' := by
    intro f
    rw [Finset.mem_sdiff, mem_others]
    constructor
    · rintro ⟨⟨o', hf⟩, hnot⟩
      exact ⟨o', fun heq => hnot (heq ▸ hf), hf⟩
    · rintro ⟨o', hne, hf⟩
      exact ⟨⟨o', hf⟩, fun hin => hne (hw.apart hf hin)⟩
  have hothers : w'.others = own' ∪ (w.others \ w.holding o) := by
    ext f
    rw [Finset.mem_union, hrest, mem_others, hholding]
    constructor
    · rintro ⟨o', hf⟩
      rcases eq_or_ne o' o with rfl | hne
      · rw [Function.update_self] at hf
        exact .inl hf
      · rw [Function.update_of_ne hne] at hf
        exact .inr ⟨o', hne, hf⟩
    · rintro (hf | ⟨o', hne, hf⟩)
      · exact ⟨o, by rwa [Function.update_self]⟩
      · exact ⟨o', by rwa [Function.update_of_ne hne]⟩
  -- What the others hold is apart from what the holder has now.
  have hnew : ∀ {f o'}, o' ≠ o → f ∈ w.holding o' → f ∉ own' := by
    intro f o' hne hf hown
    obtain ⟨rest, hdisjoint, hsub, hheld⟩ := hw.heldBy o
    exact Finset.disjoint_left.mp (htrade.holds hdisjoint hheld).1 hown
      (hsub ((hrest f).mpr ⟨o', hne, hf⟩))
  have hsettled := hw.settled
  rw [← holding_union w o] at hsettled
  obtain ⟨hs', hsame⟩ := Settled.trade hsettled hw.ours Finset.disjoint_sdiff htrade
  rw [← hothers] at hs'
  constructor
  case settled => exact hs'
  case isRoot =>
    rw [hroots]
    exact hw.isRoot
  case ours => exact hw.ours
  case lending => exact hw.lending
  case tidy => exact hw.tidy
  case rooted => exact hw.rooted.keeps hsame.keepsOn.outline
  case heaps => exact hheaps
  case apart =>
    intro f o₁ o₂ hf hf'
    rw [hholding] at hf hf'
    by_cases h₁ : o₁ = o <;> by_cases h₂ : o₂ = o
    · exact h₁.trans h₂.symm
    · rw [h₁, Function.update_self] at hf
      rw [Function.update_of_ne h₂] at hf'
      exact absurd hf (hnew h₂ hf')
    · rw [Function.update_of_ne h₁] at hf
      rw [h₂, Function.update_self] at hf'
      exact absurd hf' (hnew h₁ hf)
    · rw [Function.update_of_ne h₁] at hf
      rw [Function.update_of_ne h₂] at hf'
      exact hw.apart hf hf'
  case conserved =>
    intro f
    have htraded := htrade.conserved f
    have hbefore : f ∈ w.others ↔ f ∈ w.holding o ∨ f ∈ w.others \ w.holding o := by
      rw [← Finset.mem_union, holding_union]
    rw [← hw.conserved f, hbefore, hothers, Finset.mem_union, or_right_comm, htraded,
      or_right_comm]

/-- The store trades for nothing. -/
lemma of_trade (hw : Sound C start w) (o : Option Nat)
    (htrade : Trade w.manager.store (w.holding o) w'.manager.store (w.holding o))
    (hroots : w'.roots = w.roots) (hholding : w'.holding = w.holding)
    (hheaps : w'.heaps = w.heaps) : Sound C start w' :=
  hw.exchange o htrade hroots (hholding.trans (Function.update_eq_self o _).symm)
    (hheaps ▸ hw.heaps)

/-- **The manager changes its tables.** -/
theorem carry (hw : Sound C start w)
    (hs' : @Settled A _ (.besides A w.others) C' False w'.manager.store)
    (hisRoot : ∀ f, C'.IsRoot f ↔ f ∈ w'.roots) (hforeign : C'.foreign = C.foreign)
    (hlending : C'.lending = C.lending) (htidy : C'.tidy = C.tidy)
    (hrooted : C'.Rooted w'.manager.store.memory.outline)
    (hconserved : ∀ f, C'.IsTable f ∨ f ∈ freeFrames w'.manager.store ↔
      C.IsTable f ∨ f ∈ freeFrames w.manager.store)
    (hclient : w'.client = w.client) (hheaps : w'.heaps = w.heaps) : Sound C' start w' := by
  obtain ⟨m', client', heaps', roots'⟩ := w'
  obtain rfl : client' = w.client := hclient
  obtain rfl : heaps' = w.heaps := hheaps
  constructor
  case settled => exact hs'
  case isRoot => exact hisRoot
  case ours => exact hforeign ▸ hw.ours
  case lending => exact hlending ▸ hw.lending
  case tidy => exact htidy ▸ hw.tidy
  case rooted => exact hrooted
  case heaps => exact hw.heaps
  case apart => exact hw.apart
  case conserved =>
    intro f
    have hothers : others ⟨m', w.client, w.heaps, roots'⟩ = w.others := rfl
    rw [hothers, or_left_comm, hconserved f, or_left_comm]
    exact hw.conserved f

end Sound

/-! ## Calls -/

section Calls

variable {act : Action (Store A) α} {excuse : Panic → Prop} {post : α → Store A → Prop} {a : α}

omit [FrameSource A] [LawfulSource A] in
lemma run_onStore (h : act.run w.manager.store = .ok a s') :
    (onStore act).run w = .ok a (w.withStore s') := by
  have hmanager : (Manager.onStore act).run w.manager = .ok a { w.manager with store := s' } :=
    Manager.run_onStore h
  simp only [onStore, onManager, run_within_eq, hmanager]
  rfl

omit [FrameSource A] [LawfulSource A] in
lemma onManager_ensures {act : Action (Manager A P) α} {post : α → Manager A P → Prop}
    (h : Ensures act excuse w.manager post) : Ensures (onManager act) excuse w fun a w' =>
      ∃ m', w' = { w with manager := m' } ∧ post a m' :=
  Ensures.within h

omit [FrameSource A] [LawfulSource A] in
lemma onStore_ensures (h : Ensures act excuse w.manager.store post) :
    Ensures (onStore act) excuse w fun a w' => ∃ s', w' = w.withStore s' ∧ post a s' := by
  refine (onManager_ensures (Manager.onStore_ensures h)).mono ?_
  rintro a w' ⟨m', rfl, s', rfl, hpost⟩
  exact ⟨s', rfl, hpost⟩

variable [PagingControl P]

namespace Sound

lemma allocate (hw : Sound C start w) :
    Ensures (Call.allocate : Call P).run noPanic w fun _ w' => Sound C start w' := by
  obtain ⟨rest, -, -, hheld⟩ := hw.heldBy none
  obtain ⟨f?, s', halloc⟩ := alloc_returns hheld
  refine .bind_run (run_onStore halloc) ?_
  cases f? with
  | none => exact .pure (hw.of_trade none (.refused hheld halloc _) rfl rfl rfl)
  | some f =>
      exact .of_run (EStateM.run_modify ..)
        (hw.exchange none (.taken hheld halloc _) rfl (holding_client _ _) hw.heaps)

lemma free (hw : Sound C start w) (hf : f ∈ w.client) :
    Ensures (Call.free f : Call P).run noPanic w fun _ w' => Sound C start w' := by
  obtain ⟨rest, -, -, hheld⟩ := hw.heldBy none
  obtain ⟨s', hfree, -⟩ := free_returns hheld (Finset.mem_union_left rest hf)
  exact .bind_run (run_onStore hfree) (.of_run (EStateM.run_modify ..)
    (hw.exchange none (.given hf hheld hfree) rfl (holding_client _ _) hw.heaps))

lemma startHeap (hw : Sound C start w) :
    Ensures (Call.startHeap : Call P).run noPanic w fun _ w' => Sound C start w' := by
  obtain ⟨held, -, hheld, -⟩ := hw.held
  have hnone : w.holding (some w.heaps.length) = ∅ := by
    rw [holding, List.getElem?_eq_none (Nat.le_refl _)]
    rfl
  refine (onStore_ensures (Heap.start_trade hheld)).bind ?_
  rintro r w' ⟨s', rfl, hend⟩
  rcases r with e | h
  · rw [← hnone] at hend
    exact .pure (hw.of_trade _ hend rfl rfl rfl)
  · obtain ⟨htrade, hsound⟩ := hend
    rw [← hnone] at htrade
    refine .of_run (EStateM.run_modify ..)
      (hw.exchange _ htrade rfl (holding_append _ h) fun h' hh' => ?_)
    rcases List.mem_append.mp hh' with hh' | hh'
    · exact hw.heaps h' hh'
    · exact List.mem_singleton.mp hh' ▸ hsound

lemma allocBytes [UsableSource A] (hw : Sound C start w) (i : Nat) (size : UInt64) :
    Ensures (Call.allocBytes i size : Call P).run noPanic w fun _ w' => Sound C start w' := by
  refine .bind_run (EStateM.run_get _) ?_
  cases hheap : w.heaps[i]? with
  | none => exact .pure hw
  | some h =>
      obtain ⟨hi, -⟩ := List.getElem?_eq_some_iff.mp hheap
      have hholding : w.holding (some i) = h.frames := by
        rw [holding, hheap]
        rfl
      obtain ⟨rest, hdisjoint, -, hheld⟩ := hw.heldBy (some i)
      rw [hholding] at hdisjoint hheld
      have hst : h.Stands w.manager.store :=
        ⟨hw.heaps h (List.mem_of_getElem? hheap), rest, hdisjoint, hheld⟩
      refine (onStore_ensures (Heap.alloc_trade hst size)).bind ?_
      rintro ⟨h', r⟩ w' ⟨s', rfl, htrade, hsound⟩
      rw [← hholding] at htrade
      refine .of_run (EStateM.run_modify ..)
        (hw.exchange _ htrade rfl (holding_set _ hi h') fun g hg => ?_)
      rcases List.mem_or_eq_of_mem_set hg with hg | rfl
      · exact hw.heaps g hg
      · exact hsound

omit [PagingControl P] in
/-- The manager changes nothing in memory and at the source. -/
lemma withManager (hw : Sound C start w) {m' : Manager A P}
    (hsource : m'.store.source = w.manager.store.source)
    (hmemory : m'.store.memory = w.manager.store.memory) :
    Sound C start { w with manager := m' } := by
  obtain ⟨rest, -, -, hheld⟩ := hw.heldBy none
  exact hw.of_trade none (.of_eq hheld hsource hmemory _) rfl rfl rfl

lemma boot (hw : Sound C start w) (machine : P) :
    Ensures (Call.boot machine).run noPanic w fun _ w' => Sound C start w' :=
  .of_run (EStateM.run_modify ..) (hw.withManager rfl rfl)

omit [PagingControl P] in
/-- A new root joins the tables. -/
lemma join (hw : Sound C start w) {root : Frame} (hnone : C.height root = none)
    (hs' : @Settled A _ (.besides A w.others) (C.add root rootHeight) False s')
    (hsame : C.SameTables w.manager.store.memory s'.memory) (hblank : s'.memory.outline.Blank root)
    (hfree : root ∈ freeFrames w.manager.store)
    (hfree' : freeFrames s' = (freeFrames w.manager.store).erase root) :
    Sound (C.add root rootHeight) start { w.withStore s' with roots := insert root w.roots } := by
  have hrooted : C.Rooted s'.memory.outline := hw.rooted.keeps hsame.keepsOn.outline
  refine hw.carry hs' (fun f => ?_) rfl rfl rfl (hrooted.add hnone hblank)
    (fun f => isTable_add_or_mem hfree hfree') rfl rfl
  rw [Finset.mem_insert, ← hw.isRoot f]
  exact isRoot_add

lemma createRoot (hw : Sound C start w) :
    Ensures (Call.createRoot : Call P).run noPanic w fun _ w' => ∃ C', Sound C' start w' := by
  have hcreate : Ensures Manager.createRoot noPanic w.manager fun r m' => ∃ C', Sound C' start
      { w with manager := m', roots := r.toOption.elim w.roots (insert · w.roots) } := by
    refine (Manager.onStore_ensures (@AddressSpace.create_ensures A _ (.besides A w.others) C
      w.manager.store False noPanic hw.settled)).bind ?_
    rintro r m' ⟨s', rfl, hend⟩
    rcases r with e | space
    · obtain ⟨hs', hkeeps, hfree⟩ := hw.settled.restored_aside hend.2
      exact .pure ⟨C, hw.carry hs' hw.isRoot rfl rfl rfl (hw.rooted.keeps hkeeps)
        (fun f => by rw [hfree]) rfl rfl⟩
    · obtain ⟨hnone, hs', hsame, hblank, hfree, hfree'⟩ := hend
      exact .pure ⟨_, hw.join hnone hs' hsame hblank hfree hfree'⟩
  refine (onManager_ensures hcreate).bind ?_
  rintro r w' ⟨m', rfl, C', hw'⟩
  rcases r with e | root
  · exact .pure ⟨C', hw'⟩
  · exact .of_run (EStateM.run_modify ..) ⟨C', hw'⟩

/-- **An operation on a root** returns, and leaves a sound system. -/
theorem operation (hw : Sound C start w) {root : Frame} {op : Manager.Operation}
    (hroot : root ∈ w.roots) (hkernel : op.OnKernel → w.manager.kernelRoot = root) :
    Ensures (op.run root) noPanic w.manager fun _ m' =>
      ∃ C', Sound C' start { w with manager := m' } := by
  have hserves := @Serves.mk A _ (.besides A w.others) C False root w.manager.store hw.settled
    ((hw.isRoot root).mpr hroot) hw.lending hw.borrowsOnce
  refine (@Manager.Operation.effect A P _ (.besides A w.others) _ C False root w.manager op hserves
    hkernel).mono ?_
  rintro reply m' ⟨C', l, ⟨hcarries, ⟨hs', -⟩, -⟩, -⟩
  have hcarries := hcarries.of_besides
  have hisRoot : ∀ f, C'.IsRoot f ↔ f ∈ w.roots := fun f =>
    (hcarries.isRoot f).trans (hw.isRoot f)
  exact ⟨C', hw.carry hs' hisRoot hcarries.foreign hcarries.lending hcarries.tidy
    (hcarries.rooted hw.lending hw.rooted) hcarries.conserved rfl rfl⟩

lemma operate (hw : Sound C start w) {root : Frame} {op : Manager.Operation}
    (hroot : root ∈ w.roots) (hkernel : op.OnKernel → w.manager.kernelRoot = root) :
    Ensures (Call.operate root op : Call P).run noPanic w fun _ w' => ∃ C', Sound C' start w' := by
  refine Ensures.discard ((onManager_ensures (hw.operation hroot hkernel)).mono ?_)
  rintro reply w' ⟨m', rfl, hw'⟩
  exact hw'

/-- **Every call** returns and leaves a sound system. -/
theorem call [UsableSource A] {call : Call P} (hw : Sound C start w) (hcall : call.Permitted w) :
    Ensures call.run noPanic w fun _ w' => ∃ C', Sound C' start w' := by
  cases call with
  | allocate => exact hw.allocate.mono fun _ _ hw' => ⟨C, hw'⟩
  | free f => exact (hw.free hcall).mono fun _ _ hw' => ⟨C, hw'⟩
  | startHeap => exact hw.startHeap.mono fun _ _ hw' => ⟨C, hw'⟩
  | allocBytes i size => exact (hw.allocBytes i size).mono fun _ _ hw' => ⟨C, hw'⟩
  | boot machine => exact (hw.boot machine).mono fun _ _ hw' => ⟨C, hw'⟩
  | createRoot => exact hw.createRoot
  | operate root op => exact hw.operate hcall.1 hcall.2

omit [PagingControl P] in
/-- **A system in which nobody holds a frame** and no root was made is sound. -/
theorem initial {m : Manager A P} (hheld : Holds m.store ∅) :
    Sound (.empty False True) (freeFrames m.store) { manager := m } := by
  have hnone : ∀ o, holding { manager := m } o = ∅ := by
    rintro (_ | i)
    · rfl
    · rfl
  have hothers : ∀ {f}, f ∉ others { manager := m } := fun hf => by
    obtain ⟨o, hf⟩ := mem_others.mp hf
    exact Finset.notMem_empty _ (hnone o ▸ hf)
  constructor
  case settled =>
    exact @settled_empty A _ (.besides A _) _ _ _ _ ∅ ⟨Finset.disjoint_empty_left _, hheld⟩
  case isRoot =>
    exact fun f => iff_of_false (fun hroot => not_isTable_empty ⟨_, hroot⟩) (Finset.notMem_empty f)
  case ours => exact fun _ => id
  case lending => exact id
  case tidy => exact trivial
  case rooted => exact fun f hf => absurd hf not_isTable_empty
  case heaps => exact fun h hh => absurd hh List.not_mem_nil
  case apart => exact fun hf => absurd (mem_others.mpr ⟨_, hf⟩) hothers
  case conserved =>
    intro f
    rw [or_iff_right not_isTable_empty, or_iff_right hothers]

/-- **Calls in any order** lead to sound systems. -/
theorem reached [UsableSource A] {w₀ : System A P} (hw₀ : Sound C start w₀) (h : Reached w₀ w) :
    ∃ C', Sound C' start w := by
  induction h with
  | start => exact ⟨C, hw₀⟩
  | call _ hcall hrun ih =>
      obtain ⟨C', hw⟩ := ih
      exact (hw.call hcall).of_ok hrun

/-- **Every permitted call returns.** -/
theorem returns [UsableSource A] (hw : Sound C start w) : Returns w := by
  intro call hcall
  obtain ⟨⟨⟩, w', hrun, -⟩ := (hw.call hcall).returns
  exact ⟨w', hrun⟩

/-! ### What it says -/

omit [PagingControl P]

variable {root root' : Frame} {h k : Nat}

/-- **The tables are the frames that can be reached from a root.** -/
theorem isTable_iff (hw : Sound C start w) :
    C.IsTable f ↔ ∃ root ∈ w.roots, ∃ h, w.manager.store.memory.Reaches root h f := by
  constructor
  · rintro ⟨h, hf⟩
    have hlinked : ∀ g, C.IsTable g →
        C.IsRoot g ∨ ∃ x, C.Links w.manager.store.memory.outline x g := fun g hg =>
      (hw.rooted g hg).imp_right fun hor => (hor.resolve_left (hw.ours g)).imp fun _ => And.left
    obtain ⟨root, va, holders, hroot, hl⟩ := hw.fits.exists_leads hlinked hf
    exact ⟨root, (hw.isRoot root).mp hroot, h, hl.reaches⟩
  · rintro ⟨root, hroot, h, hr⟩
    exact ⟨h, hw.fits.height_of_reaches ((hw.isRoot root).mpr hroot) hr⟩

/-- No table can be reached from two roots. -/
lemma root_unique (hw : Sound C start w) (hroot : root ∈ w.roots) (hroot' : root' ∈ w.roots)
    (hr : w.manager.store.memory.Reaches root h f)
    (hr' : w.manager.store.memory.Reaches root' k f) : root = root' :=
  hw.fits.root_unique hw.lending hw.borrowsOnce ((hw.isRoot root).mpr hroot)
    ((hw.isRoot root').mpr hroot') hr hr'

/-- Nobody holds a table, and no table is free. -/
lemma of_isTable (hw : Sound C start w) (hf : C.IsTable f) :
    f ∉ w.others ∧ f ∉ freeFrames w.manager.store := by
  obtain ⟨held, hdisjoint, -, hmem⟩ := hw.held
  exact ⟨Finset.disjoint_left.mp hdisjoint (hmem f hf),
    hw.settled.of_besides.describes.notFree hf⟩

/-- What is held is not free. -/
lemma of_mem_others (hw : Sound C start w) (hf : f ∈ w.others) :
    f ∉ freeFrames w.manager.store := by
  obtain ⟨held, -, hheld, -⟩ := hw.held
  exact notFree hheld (Finset.mem_union_right held hf)

end Sound

end Calls

end System

end KernelMemory
