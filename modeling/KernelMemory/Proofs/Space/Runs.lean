import KernelMemory.Proofs.Space.Calls

/-!
# Runs of calls

A run is any sequence of calls on one address space, with whatever arguments and whatever the source
of frames makes of them.  Between the calls the state stays sound, and a call that fails restores
it.

* `Space.Call`, `Space.Event` — a call, and a call with its result.
* `Space.runCalls` — a sequence of calls.
* `Space.Call.IsPaging` — the calls that map or unmap a page.
* **`Space.call_carries`** — what one call keeps of a chart.
* **`Space.call_keeps`**, **`Space.run_keeps`** — one call, and a run, keep the state sound.
-/

namespace KernelMemory.Space

open Chart KernelMemory.Action

variable {A : Type} [FrameSource A] [LawfulSource A]

/-- A call that may change an address space. -/
inductive Call where
  | map (va : VirtAddr) (pa : PhysAddr) (flags : Flags)
  | unmap (va : VirtAddr)
  | walkOrCreate (va : VirtAddr)

/-- A call with its result. -/
inductive Event where
  | map (va : VirtAddr) (pa : PhysAddr) (flags : Flags) (result : Except MapError Unit)
  | unmap (va : VirtAddr) (result : Except MapError Frame)
  | walkOrCreate (va : VirtAddr) (result : Except MapError Path)

namespace Event

/-- The call without its result. -/
def call : Event → Call
  | map va pa flags _ => .map va pa flags
  | unmap va _ => .unmap va
  | walkOrCreate va _ => .walkOrCreate va

/-- Whether the call failed. -/
def failed : Event → Bool
  | map _ _ _ (.error _) => true
  | unmap _ (.error _) => true
  | walkOrCreate _ (.error _) => true
  | _ => false

end Event

/-- Makes a call, and gives it with its result. -/
def Call.run {A : Type} [FrameSource A] (space : AddressSpace) : Call → Action (Store A) Event
  | .map va pa flags => return .map va pa flags (← space.map va pa flags)
  | .unmap va => return .unmap va (← space.unmap va)
  | .walkOrCreate va => return .walkOrCreate va (← space.walkOrCreate va)

/-- Makes calls one after the other, and gives them with their results. -/
def runCalls {A : Type} [FrameSource A] (space : AddressSpace) :
    List Call → Action (Store A) (List Event)
  | [] => return []
  | call :: calls => do
    let event ← call.run space
    return event :: (← runCalls space calls)

/-- A run begins with its first call. -/
lemma runCalls_cons {A : Type} [FrameSource A] {space : AddressSpace} {s s₁ s' : Store A}
    {call : Call} {calls : List Call} {event : Event} {events : List Event}
    (hcall : (call.run space).run s = .ok event s₁)
    (hcalls : (runCalls space calls).run s₁ = .ok events s') :
    (runCalls space (call :: calls)).run s = .ok (event :: events) s' := by
  rw [runCalls, run_bind hcall, run_bind hcalls]
  rfl

variable {C : Chart} {s : Store A} {space : AddressSpace} {exact lowest : Prop} {call : Call}

/-- The call maps or unmaps a page. -/
def Call.IsPaging : Call → Prop
  | .walkOrCreate _ => False
  | _ => True

/-- **A call carries the chart on**, if no root lends its tables; if it fails, the state is as it
was.  A call that maps or unmaps a page leaves no table of the lowest level empty. -/
theorem call_carries (hs : C.Settled lowest s) (hroot : C.IsRoot space.root)
    (hlending : ¬ C.lending) (hexact : exact → RestoringSource A) :
    Ensures (call.run space) noPanic s fun event s' => event.call = call ∧
      (∃ C', C.Carries C' s s' ∧ C'.Settled (lowest ∧ call.IsPaging) s') ∧
      (event.failed = true → Restored exact s s') := by
  have hexcuse : C.lending → ∀ p, noPanic p := fun h => absurd h hlending
  -- A call that fails restores the state, and with it all that is known of the chart.
  have hfailure : ∀ {paging : Prop} {s'}, Restored exact s s' →
      ∃ C', C.Carries C' s s' ∧ C'.Settled (lowest ∧ paging) s' := fun h =>
    ⟨C, h.carries hs.describes, (hs.restored h).mono And.left⟩
  cases call with
  | map va pa flags =>
      refine (AddressSpace.map_ensures hs hroot hexact hexcuse).bind fun r s' hend => .pure ?_
      rcases r with e | ⟨⟩
      · exact ⟨rfl, hfailure hend, fun _ => hend⟩
      · obtain ⟨-, -, C', hev, hs', -⟩ := hend
        exact ⟨rfl, ⟨C', hev.toCarries, hs'.mono And.left⟩, fun hfailed => by cases hfailed⟩
  | unmap va =>
      refine (AddressSpace.unmap_ensures hs hroot hexcuse).bind fun r s' hend => .pure ?_
      rcases r with e | f
      · obtain ⟨rfl, -⟩ := hend
        exact ⟨rfl, hfailure (.refl _), fun _ => .refl _⟩
      · obtain ⟨path, -, -, -, -, hway, hkeep, -⟩ := hend
        obtain ⟨C', hev, hs', -⟩ :=
          hkeep (hs.describes.fits.not_withdraws hroot hway.leads hlending)
        exact ⟨rfl, ⟨C', hev.toCarries, hs'.mono And.left⟩, fun hfailed => by cases hfailed⟩
  | walkOrCreate va =>
      refine (AddressSpace.walkOrCreate_ensures hs hroot hexact hexcuse).bind fun r s' hend =>
        .pure ?_
      rcases r with e | path
      · exact ⟨rfl, hfailure hend, fun _ => hend⟩
      · obtain ⟨C', hev, hs', -⟩ := hend
        exact ⟨rfl, ⟨C', hev.toCarries, hs'.mono And.right⟩, fun hfailed => by cases hfailed⟩

/-- **A call keeps the state sound**, if no root lends its tables; if it fails, the state is as it
was. -/
theorem call_keeps (hs : C.Sound s) (hroot : C.IsRoot space.root) (hlending : ¬ C.lending)
    (hexact : exact → RestoringSource A) :
    Ensures (call.run space) noPanic s fun event s' => event.call = call ∧
      (∃ C', C.Kin C' ∧ C'.Sound s') ∧ (event.failed = true → Restored exact s s') := by
  refine (call_carries hs.toSettled hroot hlending hexact).mono ?_
  rintro event s' ⟨hcall, ⟨C', hcarries, hs'⟩, hfailed⟩
  exact ⟨hcall, ⟨C', hcarries.toKin, hs.evolve hcarries.toKin (hs'.mono False.elim)⟩, hfailed⟩

/-- **A run keeps the state sound**, if no root lends its tables. -/
theorem run_keeps (hs : C.Sound s) (hroot : C.IsRoot space.root) (hlending : ¬ C.lending)
    (calls : List Call) :
    Ensures (runCalls space calls) noPanic s fun events s' => events.map Event.call = calls ∧
      ∃ C', C.Kin C' ∧ C'.Sound s' := by
  induction calls generalizing C s with
  | nil => exact .pure ⟨rfl, C, .refl C, hs⟩
  | cons call calls ih =>
      refine (call_keeps hs hroot hlending (fun h : False => h.elim)).bind ?_
      rintro event s₁ ⟨rfl, ⟨C₁, hkin, hs₁⟩, -⟩
      refine (ih hs₁ ((hkin.isRoot _).mpr hroot) (hkin.lending ▸ hlending)).bind ?_
      rintro events s₂ ⟨rfl, C₂, hkin', hs₂⟩
      exact .pure ⟨rfl, C₂, hkin.trans hkin', hs₂⟩

end KernelMemory.Space
