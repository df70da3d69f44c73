import KernelMemory.Proofs.Frames.Pool
import KernelMemory.Proofs.Space.Runs

/-!
# An address space is a map of pages

Seen from outside, an address space is a partial map from virtual pages to frames and flags.
Tables, counts and the source of frames cannot be told from the answers to lookups: after any run of
calls, these are what the map says that the successful calls have made.

* `Bindings` — a partial map from pages, changed by successful calls.
* `Bindings.Tracks` — lookups in a state are answered by the map.
* **`Space.refines_bindings`** — lookups after a run on a new address space are answered by the map
  that the successful calls of the run make.
-/

namespace KernelMemory

/-! ## The map -/

/-- What pages are bound to: a frame and the flags of the page. -/
abbrev Bindings : Type := VirtPage → Option (Frame × Flags)

namespace Bindings

open Space

/-- Nothing is bound. -/
def unbound : Bindings := fun _ => none

/-- What a call makes of the map.  A page that was mapped is bound to the frame that contains the
physical address, with the flags that a page can have; only calls that succeed change anything. -/
def apply (b : Bindings) : Event → Bindings
  | .map va pa flags (.ok ()) => Function.update b va.page (some (pa.page, flags.forPage))
  | .unmap va (.ok _) => Function.update b va.page none
  | _ => b

/-- What a run makes of the map. -/
def after (b : Bindings) (events : List Event) : Bindings :=
  events.foldl apply b

/-- The result of a call is one that the map allows: a page is mapped only if it is canonical and
not bound, and unmapping gives the frame of the page if it is bound and fails if it is not. -/
def Allows (b : Bindings) : Event → Prop
  | .map va _ _ (.ok ()) => va.isCanonical = true ∧ b va.page = none
  | .unmap va (.ok f) => va.isCanonical = true ∧ ∃ flags, b va.page = some (f, flags)
  | .unmap va (.error _) => va.isCanonical = true → b va.page = none
  | _ => True

/-- The map allows the results of a run, as it changes with every call. -/
def Explains : Bindings → List Event → Prop
  | _, [] => True
  | b, event :: events => b.Allows event ∧ (b.apply event).Explains events

/-- What an address stands for. -/
def translate (b : Bindings) (va : VirtAddr) : Except MapError Mapping :=
  match b va.page with
  | none => .error .notMapped
  | some (f, flags) => .ok { address := f.join va.offset, flags, pageBytes := pageSize }

/-! ## Lookups -/

variable {A : Type} [FrameSource A] [LawfulSource A] {C : Chart} {s s' : Store A} {o o' : Outline}
  {root : Frame} {va : VirtAddr} {b : Bindings} {space : AddressSpace}

/-- What a page is bound to is what an address in it resolves to. -/
def Agrees (bound : Option (Frame × Flags)) (resolved : Option (Entry × Nat)) : Prop :=
  match bound with
  | none => resolved = none
  | some (f, flags) =>
    ∃ e, resolved = some (e, 0) ∧ e.present = true ∧ e.frame = f ∧ e.flags = flags

/-- Canonical addresses resolve to what their pages are bound to. -/
def Resolves (b : Bindings) (o : Outline) (root : Frame) : Prop :=
  ∀ va, va.isCanonical = true → Agrees (b va.page) (o.resolve root va)

/-- **Lookups in a state are answered by the map.** -/
structure Tracks (C : Chart) (space : AddressSpace) (b : Bindings) (s : Store A) : Prop where
  sound : C.Sound s
  isRoot : C.IsRoot space.root
  tidy : C.tidy
  lending : ¬ C.lending
  resolves : b.Resolves s.memory.outline space.root

lemma Tracks.borrowsOnce (ht : Tracks C space b s) : C.BorrowsOnce s.memory.outline :=
  ht.sound.describes.fits.borrowsOnce ht.tidy ht.lending

/-- **What callers learn of an address** is what the map says. -/
theorem Resolves.lookup (hb : b.Resolves s.memory.outline space.root) (hd : C.Describes s)
    (hroot : C.IsRoot space.root) (hva : va.isCanonical = true) :
    space.isMapped s.memory va = .ok (b va.page).isSome ∧
      space.translate s.memory va = .ok (b.translate va) := by
  have hagrees := hb va hva
  rw [AddressSpace.isMapped_eq hd hroot hva, AddressSpace.translate_eq hd hroot hva, translate]
  cases hbound : b va.page with
  | none =>
      rw [hbound] at hagrees
      rw [show _ = none from hagrees]
      exact ⟨rfl, rfl⟩
  | some bound =>
      rw [hbound] at hagrees
      obtain ⟨e, hresolve, hpresent, hframe, hflags⟩ := hagrees
      rw [hresolve]
      simp only [Option.isSome_some, Entry.translate_of_present hpresent, hframe, hflags]
      exact ⟨trivial, trivial⟩

lemma Tracks.lookup (ht : Tracks C space b s) (hva : va.isCanonical = true) :
    space.isMapped s.memory va = .ok (b va.page).isSome ∧
      space.translate s.memory va = .ok (b.translate va) :=
  ht.resolves.lookup ht.sound.describes ht.isRoot hva

lemma Resolves.unseen (hb : b.Resolves o root) (hunseen : C.Unseen o o') (hroot : C.IsRoot root) :
    b.Resolves o' root := by
  intro va hva
  rw [hunseen root va hroot]
  exact hb va hva

/-- A page that is bound anew is bound in the map. -/
lemma Resolves.rebinds {e? : Option Entry} {bound : Option (Frame × Flags)}
    (hb : b.Resolves o root) (hva : va.isCanonical = true)
    (hrebinds : Chart.Rebinds o o' root va e?)
    (hagrees : Agrees bound (e?.map fun e => (e, 0))) :
    Resolves (Function.update b va.page bound) o' root := by
  intro va' hva'
  by_cases hpage : va'.page = va.page
  · rw [hpage, Function.update_self, hrebinds.here ((Address.samePage_iff hva hva').mpr hpage)]
    exact hagrees
  · rw [Function.update_of_ne hpage,
      hrebinds.elsewhere fun hsame => hpage ((Address.samePage_iff hva hva').mp hsame)]
    exact hb va' hva'

lemma Agrees.none_of_none {bound : Option (Frame × Flags)} (h : Agrees bound none) :
    bound = none := by
  cases bound with
  | none => rfl
  | some p => obtain ⟨e, hcontra, -⟩ := h; cases hcontra

/-! ## Calls -/

open Chart KernelMemory.Action

/-- A state in which everything that matters is as it was answers as it did. -/
lemma Tracks.restored {exact : Prop} (ht : Tracks C space b s) (h : Restored exact s s') :
    Tracks C space b s' where
  sound := ht.sound.restored h
  isRoot := ht.isRoot
  tidy := ht.tidy
  lending := ht.lending
  resolves va hva := by
    have hkeeps := (h.keepsTables ht.sound.describes).outline
    rw [ht.sound.describes.fits.resolve_congr hkeeps ht.isRoot]
    exact ht.resolves va hva

/-- The answers are those of a map on any chart of the same roots. -/
lemma Tracks.of_kin {C' : Chart} {b' : Bindings} (ht : Tracks C space b s) (hkin : C.Kin C')
    (hs : C'.Settled False s') (hb : b'.Resolves s'.memory.outline space.root) :
    Tracks C' space b' s' where
  sound := ht.sound.evolve hkin hs
  isRoot := (hkin.isRoot _).mpr ht.isRoot
  tidy := hkin.tidy ▸ ht.tidy
  lending := hkin.lending ▸ ht.lending
  resolves := hb

/-- **One call**: its result is one that the map allows, and the map that it makes answers lookups
afterwards. -/
theorem Tracks.call (ht : Tracks C space b s) (call : Call) :
    Ensures (call.run space) noPanic s fun event s' =>
      event.call = call ∧ b.Allows event ∧ ∃ C', Tracks C' space (b.apply event) s' := by
  have hexcuse : C.lending → ∀ p, noPanic p := fun h => absurd h ht.lending
  cases call with
  | map va pa flags =>
      refine (AddressSpace.map_ensures ht.sound.toSettled ht.isRoot (fun h : False => h.elim)
        hexcuse).bind fun r s' hend => .pure ?_
      rcases r with e | ⟨⟩
      · exact ⟨rfl, trivial, C, ht.restored hend⟩
      · obtain ⟨hva, hnone, C', hev, hs', hrest⟩ := hend
        obtain ⟨e, hpresent, hframe, hflags, hrewrites⟩ := hrest ht.lending
        have hrebinds := hrewrites.rebinds ht.lending ht.borrowsOnce
        rw [if_pos hpresent] at hrebinds
        have hunbound := ht.resolves va hva
        rw [hnone] at hunbound
        refine ⟨rfl, ⟨hva, hunbound.none_of_none⟩, C', ht.of_kin hev.toKin hs' ?_⟩
        exact ht.resolves.rebinds hva hrebinds ⟨e, rfl, hpresent, hframe, hflags⟩
  | unmap va =>
      refine (AddressSpace.unmap_ensures ht.sound.toSettled ht.isRoot hexcuse).bind
        fun r s' hend => .pure ?_
      rcases r with e | f
      · obtain ⟨rfl, hnone, -⟩ := hend
        refine ⟨rfl, fun hva => ?_, C, ht⟩
        have hunbound := ht.resolves va hva
        rw [hnone hva ht.tidy] at hunbound
        exact hunbound.none_of_none
      · obtain ⟨path, -, hva, hpresent, rfl, hway, hkeep, -⟩ := hend
        obtain ⟨C', hev, hs', hrewrites⟩ := hkeep
          (ht.sound.describes.fits.not_withdraws ht.isRoot hway.leads ht.lending)
        refine ⟨rfl, ⟨hva, ?_⟩, C', ht.of_kin hev.toKin hs' ?_⟩
        · have hbound := ht.resolves va hva
          rw [AddressSpace.resolve_slot hway, if_pos hpresent] at hbound
          cases hpage : b va.page with
          | none =>
              rw [hpage] at hbound
              cases hbound
          | some bound =>
              rw [hpage] at hbound
              obtain ⟨e, heq, -, hframe, -⟩ := hbound
              cases heq
              exact ⟨bound.2, by rw [← Entry.outline_frame, hframe]⟩
        · exact ht.resolves.rebinds hva
            ((hrewrites ht.lending).rebinds ht.lending ht.borrowsOnce) rfl
  | walkOrCreate va =>
      refine (AddressSpace.walkOrCreate_ensures ht.sound.toSettled ht.isRoot
        (fun h : False => h.elim) hexcuse).bind fun r s' hend => .pure ?_
      rcases r with e | path
      · exact ⟨rfl, trivial, C, ht.restored hend⟩
      · obtain ⟨C', hev, hs', hunseen, -⟩ := hend
        exact ⟨rfl, trivial, C', ht.of_kin hev.toKin hs' (ht.resolves.unseen hunseen ht.isRoot)⟩

/-- **A run of calls**: the map explains all results, and the map that the run makes answers lookups
afterwards. -/
theorem Tracks.run (ht : Tracks C space b s) (calls : List Call) :
    Ensures (runCalls space calls) noPanic s fun events s' =>
      events.map Event.call = calls ∧ b.Explains events ∧
        ∃ C', Tracks C' space (b.after events) s' := by
  induction calls generalizing C s b with
  | nil => exact .pure ⟨rfl, trivial, C, ht⟩
  | cons call calls ih =>
      refine (ht.call call).bind ?_
      rintro event s₁ ⟨rfl, hallows, C₁, ht₁⟩
      refine (ih ht₁).bind ?_
      rintro events s₂ ⟨rfl, hexplains, C₂, ht₂⟩
      exact .pure ⟨rfl, ⟨hallows, hexplains⟩, C₂, ht₂⟩

/-- **A new address space binds nothing.** -/
theorem tracks_create {held : Finset Frame} (hheld : Holds s held) :
    Ensures AddressSpace.create noPanic s fun r s' =>
      ∀ space, r = .ok space → ∃ C, Tracks C space unbound s' := by
  refine (AddressSpace.create_sound False True hheld).mono fun r s' hend space hr => ?_
  obtain ⟨hs', hblank⟩ := hend space hr
  refine ⟨_, hs', isRoot_single.mpr rfl, trivial, id, fun va hva => ?_⟩
  rw [Outline.resolve, hblank, Outline.follow_absent]
  rfl

end Bindings

namespace Space

variable {A : Type} [FrameSource A] [LawfulSource A] {s : Store A}

/-- **An address space is a map of pages.**  Whatever calls are made on a new address space, over
any well-behaved source of frames: all of them return, their results are those that the map of
bindings allows, and afterwards every lookup of a canonical address is answered by the map that the
successful calls have made. -/
theorem refines_bindings {held : Finset Frame} (hheld : Holds s held) (calls : List Call) :
    ∃ created s₀, AddressSpace.create.run s = .ok created s₀ ∧ ∀ space, created = .ok space →
      ∃ events s', (runCalls space calls).run s₀ = .ok events s' ∧
        events.map Event.call = calls ∧ Bindings.unbound.Explains events ∧
        ∀ va, va.isCanonical = true →
          space.isMapped s'.memory va = .ok (Bindings.unbound.after events va.page).isSome ∧
          space.translate s'.memory va = .ok ((Bindings.unbound.after events).translate va) := by
  obtain ⟨created, s₀, hcreate, htracks⟩ := (Bindings.tracks_create hheld).returns
  refine ⟨created, s₀, hcreate, fun space hspace => ?_⟩
  obtain ⟨C, ht⟩ := htracks space hspace
  obtain ⟨events, s', hrun, hcalls, hexplains, C', ht'⟩ := (ht.run calls).returns
  exact ⟨events, s', hrun, hcalls, hexplains, fun va hva => ht'.lookup hva⟩

theorem refines_bindings_sample :
    ∃ s₀ events s', AddressSpace.create.run (Pool.sample 7) = .ok (.ok ⟨.ofNumber 1⟩) s₀ ∧
      (runCalls ⟨.ofNumber 1⟩ [.map ⟨0x1000⟩ ⟨0x5000⟩ ⟨2⟩, .unmap ⟨0x2000⟩]).run s₀ =
        .ok events s' ∧
      ∀ va, va.isCanonical = true →
        AddressSpace.translate ⟨.ofNumber 1⟩ s'.memory va =
          .ok ((Bindings.unbound.after events).translate va) := by
  obtain ⟨created, s₀, hcreate, hspace⟩ := refines_bindings (Pool.holds_sample (le_refl 7))
    [.map ⟨0x1000⟩ ⟨0x5000⟩ ⟨2⟩, .unmap ⟨0x2000⟩]
  obtain rfl : .ok ⟨.ofNumber 1⟩ = created := by
    cases hcreate
    rfl
  obtain ⟨events, s', hrun, -, -, hlookup⟩ := hspace _ rfl
  exact ⟨s₀, events, s', hcreate, hrun, fun va hva => (hlookup va hva).2⟩

end Space

end KernelMemory
