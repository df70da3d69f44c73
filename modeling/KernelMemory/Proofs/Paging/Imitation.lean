import KernelMemory.Proofs.Frames.Bitmap
import KernelMemory.Proofs.Paging.Lawful

/-!
# Machines that imitate each other

A machine imitates another one if it answers whatever it is asked as the other one does, from states
that are related to states that are related again.  The registers of the processor imitate the
stand-in for it: the address of the active root stands in CR3, paging is one bit of CR0, and a page
is dropped by its first address.

* `PagingControl.Call` — what a machine can be asked; `PagingControl.runCalls` — a run of calls.
* **`Imitates`** — a machine imitates another one.
* `Processor.Mirrors` — the registers say what is on record.
* `Processor.Follows` — what also holds of the registers since the start of a run.
* **`Processor.imitates`** — the processor imitates its stand-in, whatever the unused bits are.
-/

namespace KernelMemory

open KernelMemory.Action

variable {P Q : Type}

/-! ## Calls -/

namespace PagingControl

/-- What a machine can be asked. -/
inductive Call where
  | activeRoot
  | loadRoot (root : Frame)
  | isEnabled
  | enable
  | invalidate (page : VirtPage)
  | faultAddress
deriving DecidableEq, Repr

namespace Call

/-- What a call gives. -/
def Reply : Call → Type
  | activeRoot => Frame
  | loadRoot _ => Unit
  | isEnabled => Bool
  | enable => Unit
  | invalidate _ => Unit
  | faultAddress => VirtAddr

/-- Makes a call. -/
def run [PagingControl P] : (call : Call) → Action P call.Reply
  | activeRoot => return PagingControl.activeRoot (← get)
  | loadRoot root => do set (← Action.ofExcept (PagingControl.loadRoot (← get) root))
  | isEnabled => return PagingControl.isEnabled (← get)
  | enable => modify PagingControl.enable
  | invalidate page => modify (PagingControl.invalidate · page)
  | faultAddress => return PagingControl.faultAddress (← get)

/-- A root that is made active is one of the given ones. -/
def On (Loads : Frame → Prop) : Call → Prop
  | loadRoot root => Loads root
  | _ => True

end Call

/-- Makes calls one after the other, and gives what each of them gave. -/
def runCalls [PagingControl P] : List Call → Action P (List (Σ call : Call, call.Reply))
  | [] => return []
  | call :: calls => do
    let reply ← call.run
    return ⟨call, reply⟩ :: (← runCalls calls)

end PagingControl

open PagingControl

/-! ## Imitation -/

variable [PagingControl P] [PagingControl Q]

/-- **A machine imitates another one**, as long as only certain roots are made active: in related
states it says the same, and asked for the same, both get into related states. -/
structure Imitates (R : P → Q → Prop) (Loads : Frame → Prop) : Prop where
  activeRoot {p q} : R p q → activeRoot p = activeRoot q
  loadRoot {p q root} : R p q → Loads root → match loadRoot p root, loadRoot q root with
    | .ok p', .ok q' => R p' q'
    | .error e, .error e' => e = e'
    | _, _ => False
  isEnabled {p q} : R p q → isEnabled p = isEnabled q
  enable {p q} : R p q → R (enable p) (enable q)
  invalidate {p q} (page : VirtPage) : R p q → R (invalidate p page) (invalidate q page)
  observe {p q} (memory : Memory) : R p q → R (observe p memory) (observe q memory)
  faultAddress {p q} : R p q → faultAddress p = faultAddress q

/-- Every machine imitates itself. -/
lemma imitates_eq : Imitates (@Eq P) fun _ => True := by
  constructor
  case loadRoot =>
    rintro p _ root rfl -
    cases PagingControl.loadRoot p root <;> rfl
  all_goals
    intros
    subst_vars
    rfl

namespace Imitates

variable {R : P → Q → Prop} {Loads : Frame → Prop}

/-- Both machines answer a call alike. -/
lemma simulates_call (h : Imitates R Loads) {call : Call} (hcall : call.On Loads) :
    Simulates R (call.run : Action P _) (call.run : Action Q _) := by
  cases call with
  | activeRoot => exact .get_bind fun p q hR => h.activeRoot hR ▸ .pure _
  | loadRoot root =>
      refine .get_bind fun p q hR => ?_
      have hload := h.loadRoot hR hcall
      cases hp : PagingControl.loadRoot p root <;> cases hq : PagingControl.loadRoot q root <;>
        rw [hp, hq] at hload
      case error.error => exact hload ▸ .throw _
      case ok.ok => exact fun _ _ _ => ⟨rfl, hload⟩
      all_goals exact hload.elim
  | isEnabled => exact .get_bind fun p q hR => h.isEnabled hR ▸ .pure _
  | enable => exact .modify fun p q hR => h.enable hR
  | invalidate page => exact .modify fun p q hR => h.invalidate page hR
  | faultAddress => exact .get_bind fun p q hR => h.faultAddress hR ▸ .pure _

/-- **Both machines answer a run of calls alike.** -/
theorem simulates_runCalls (h : Imitates R Loads) {calls : List Call}
    (hcalls : ∀ call ∈ calls, call.On Loads) :
    Simulates R (runCalls calls : Action P _) (runCalls calls : Action Q _) := by
  induction calls with
  | nil => exact .pure _
  | cons call calls ih =>
      obtain ⟨hcall, hcalls⟩ := List.forall_mem_cons.mp hcalls
      exact (h.simulates_call hcall).bind fun reply => (ih hcalls).bind fun replies => .pure _

end Imitates

/-! ## Registers -/

/-- Bit 31 of CR0 turns paging on. -/
lemma Cr0.test_paging (bits : UInt64) : paging.test bits = bits.toNat.testBit paging.offset := by
  rw [Nat.testBit_eq_decide_div_mod_eq]
  change (bits.toNat / 2 ^ 31 % 2 != 0) = decide (bits.toNat / 2 ^ 31 % 2 = 1)
  rcases Nat.mod_two_eq_zero_or_one (bits.toNat / 2 ^ 31) with h | h <;> rw [h] <;> rfl

/-- Turning paging on changes that bit only. -/
lemma Cr0.testBit_withPaging (bits : UInt64) (i : Nat) :
    (withPaging bits).toNat.testBit i = (bits.toNat.testBit i || decide (paging.offset = i)) :=
  Bitmap.testBit_set (by decide)

lemma Cr0.test_withPaging (bits : UInt64) : paging.test (withPaging bits) = true := by
  rw [test_paging, testBit_withPaging, decide_eq_true rfl, Bool.or_true]

namespace Processor

/-- CR3 has room for the number of a root. -/
def CanLoad (root : Frame) : Prop :=
  root.number < 2 ^ 40

/-- **The registers say what the stand-in has on record.**  Nothing is said of the other bits of CR0
and CR3. -/
structure Mirrors (p : Processor) (r : Recorder) : Prop where
  root : Cr3.root p.cr3 = r.root
  enabled : Cr0.paging.test p.cr0 = r.enabled
  fault : p.cr2 = r.fault.value
  /-- A page is dropped by its first address. -/
  invalidated : p.invalidated = r.invalidated.map Page.base

/-- **What holds since a start**, beside what the registers say. -/
structure Follows (p₀ : Processor) (r₀ : Recorder) (p : Processor) (r : Recorder) : Prop
    extends Mirrors p r where
  /-- CR2 is kept. -/
  cr2 : p.cr2 = p₀.cr2
  /-- Every bit of CR0 is kept but the one for paging. -/
  cr0 {i : Nat} : i ≠ Cr0.paging.offset → p.cr0.toNat.testBit i = p₀.cr0.toNat.testBit i
  /-- Paging is not turned off. -/
  paging : Cr0.paging.test p₀.cr0 = true → Cr0.paging.test p.cr0 = true
  rootLoads : r₀.rootLoads ≤ r.rootLoads
  /-- CR3 is kept until a root is made active; from then on it is the address of the active root. -/
  cr3 : p.cr3 = if r.rootLoads = r₀.rootLoads then p₀.cr3 else r.root.base.value

variable {p p₀ : Processor} {r r₀ : Recorder}

namespace Follows

lemma start (h : p.Mirrors r) : Follows p r p r where
  toMirrors := h
  cr2 := rfl
  cr0 _ := rfl
  paging := id
  rootLoads := Nat.le_refl _
  cr3 := (if_pos rfl).symm

lemma loadRoot (h : Follows p₀ r₀ p r) {root : Frame} (hroot : CanLoad root) :
    Follows p₀ r₀ { p with cr3 := root.base.value }
      { r with root, rootLoads := r.rootLoads + 1 } where
  root := Cr3.root_base hroot
  enabled := h.enabled
  fault := h.fault
  invalidated := h.invalidated
  cr2 := h.cr2
  cr0 := h.cr0
  paging := h.paging
  rootLoads := Nat.le_succ_of_le h.rootLoads
  cr3 := (if_neg (Nat.lt_succ_of_le h.rootLoads).ne').symm

lemma enable (h : Follows p₀ r₀ p r) :
    Follows p₀ r₀ { p with cr0 := Cr0.withPaging p.cr0 } { r with enabled := true } where
  root := h.root
  enabled := Cr0.test_withPaging p.cr0
  fault := h.fault
  invalidated := h.invalidated
  cr2 := h.cr2
  cr0 {i} hi := by
    rw [Cr0.testBit_withPaging, decide_eq_false hi.symm, Bool.or_false, h.cr0 hi]
  paging _ := Cr0.test_withPaging p.cr0
  rootLoads := h.rootLoads
  cr3 := h.cr3

lemma invalidate (h : Follows p₀ r₀ p r) (page : VirtPage) :
    Follows p₀ r₀ { p with invalidated := p.invalidated ++ [page.base] }
      { r with invalidated := r.invalidated ++ [page] } where
  root := h.root
  enabled := h.enabled
  fault := h.fault
  invalidated := by rw [h.invalidated, List.map_append, List.map_singleton]
  cr2 := h.cr2
  cr0 := h.cr0
  paging := h.paging
  rootLoads := h.rootLoads
  cr3 := h.cr3

end Follows

/-- **The processor imitates its stand-in**, whatever stands in the bits of its registers that say
nothing about paging. -/
theorem imitates (p₀ : Processor) (r₀ : Recorder) : Imitates (Follows p₀ r₀) CanLoad where
  activeRoot h := h.root
  loadRoot {p r root} h hroot := by
    have hload : PagingControl.loadRoot p root = .ok { p with cr3 := root.base.value } := by
      change (Cr3.ofRoot root >>= fun cr3 => pure { p with cr3 }) = _
      rw [Cr3.ofRoot_eq_ok_iff.mpr ⟨hroot, rfl⟩]
      rfl
    rw [hload]
    exact h.loadRoot hroot
  isEnabled h := h.enabled
  enable h := h.enable
  invalidate page h := h.invalidate page
  observe _ h := h
  faultAddress h := Address.ext h.fault

end Processor

end KernelMemory
