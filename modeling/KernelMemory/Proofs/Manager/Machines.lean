import KernelMemory.Proofs.Manager.Alike
import KernelMemory.Proofs.Manager.Invalidation

/-!
# The manager on the processor

The manager is tried out on the stand-in for the processor.  On the processor it does the same: both
machines answer every run of calls alike, and so does the manager on either of them, with the same
memory and the same source of frames.

* `Manager.runRequests` — a run of calls on a manager.
* **`Manager.alike_runRequests`** — managers on machines that imitate each other answer it alike.
* **`processor_agrees`** — the processor and the manager on it agree with the stand-in.
-/

namespace KernelMemory

open KernelMemory.Action PagingControl

namespace Manager

variable {A B P Q : Type}

/-- The roots that a call makes active are among the given ones. -/
def Request.On (Loads : Frame → Prop) : Request → Prop
  | switch root => Loads root
  | enablePaging root => Loads root
  | _ => True

/-- Makes calls one after the other, and gives what each of them gave. -/
def runRequests [FrameSource A] [PagingControl P] :
    List Request → Action (Manager A P) (List (Σ request : Request, request.Reply))
  | [] => return []
  | request :: requests => do
    let reply ← request.run
    return ⟨request, reply⟩ :: (← runRequests requests)

variable [PagingControl P] [PagingControl Q] [FrameSource A] [FrameSource B] {f : B → A}
  [ProjectsTo f] {R : P → Q → Prop} {Loads : Frame → Prop}

/-- Managers on machines that imitate each other answer a call alike. -/
lemma alike_request (hR : Imitates R Loads) {request : Request} (hon : request.On Loads) :
    Simulates (Alike f R) request.run request.run := by
  cases request with
  | operate root op => exact op.alike_run hR
  | createRoot => exact alike_createRoot
  | createKernelRoot => exact alike_createKernelRoot hR
  | switch root => exact alike_switch hR hon
  | enablePaging root => exact alike_enablePaging hR hon

/-- **Managers on machines that imitate each other** answer every run of calls alike. -/
theorem alike_runRequests (hR : Imitates R Loads) {requests : List Request}
    (hon : ∀ request ∈ requests, request.On Loads) :
    Simulates (Alike f R) (runRequests requests) (runRequests requests) := by
  induction requests with
  | nil => exact .pure _
  | cons request requests ih =>
      obtain ⟨hrequest, hrequests⟩ := List.forall_mem_cons.mp hon
      exact (alike_request hR hrequest).bind fun reply =>
        (ih hrequests).bind fun replies => .pure _

end Manager

/-- The stand-in answers every run of calls. -/
lemma Recorder.runCalls_returns (r : Recorder) (calls : List PagingControl.Call) :
    ∃ replies r', (runCalls calls).run r = .ok replies r' := by
  induction calls generalizing r with
  | nil => exact ⟨[], r, rfl⟩
  | cons call calls ih =>
      have hcall : ∃ reply r₁, call.run.run r = .ok reply r₁ := by
        cases call <;> exact ⟨_, _, rfl⟩
      obtain ⟨reply, r₁, hrun⟩ := hcall
      obtain ⟨replies, r₂, hrest⟩ := ih r₁
      refine ⟨⟨call, reply⟩ :: replies, r₂, ?_⟩
      rw [runCalls, run_bind hrun, run_bind hrest]
      rfl

/-- **The processor agrees with its stand-in.**  From registers that say what the stand-in has on
record, both answer every run of calls alike, as long as CR3 has room for the roots; the registers
go on to say what is on record, and what nobody asked to change is kept.  A manager starts on both
in the same way, and answers every run of calls on either of them alike, from any memory and with
any source of frames. -/
theorem processor_agrees {p : Processor} {r : Recorder} (hpr : p.Mirrors r) :
    (∀ calls : List PagingControl.Call, (∀ call ∈ calls, call.On Processor.CanLoad) →
      ∃ replies p' r', (runCalls calls).run p = .ok replies p' ∧
        (runCalls calls).run r = .ok replies r' ∧ Processor.Follows p r p' r') ∧
    ∀ {A : Type} [FrameSource A] (s : Store A),
      (Manager.start p s : Manager A Processor) = ⟨(Manager.start r s).store, p,
        (Manager.start r s).kernelRoot, (Manager.start r s).pagingEnabled⟩ ∧
      ∀ (kernelRoot : Frame) (pagingEnabled : Bool) (requests : List Manager.Request),
        (∀ request ∈ requests, request.On Processor.CanLoad) →
        Agrees (fun m m' => m'.store = m.store ∧ m'.kernelRoot = m.kernelRoot ∧
            m'.pagingEnabled = m.pagingEnabled ∧ Processor.Follows p r m.machine m'.machine)
          ((Manager.runRequests requests).run ⟨s, p, kernelRoot, pagingEnabled⟩)
          ((Manager.runRequests requests).run ⟨s, r, kernelRoot, pagingEnabled⟩) := by
  have himitates := Processor.imitates p r
  refine ⟨fun calls hcalls => ?_, fun {A} _ s => ⟨?_, fun kernelRoot enabled requests hon => ?_⟩⟩
  · obtain ⟨replies, r', hr⟩ := r.runCalls_returns calls
    have hagrees := himitates.simulates_runCalls hcalls p r (.start hpr)
    rw [hr] at hagrees
    obtain ⟨p', hp, hfollows⟩ := hagrees.of_ok
    exact ⟨replies, p', r', hp, hr, hfollows⟩
  · have hactive : activeRoot p = activeRoot r := hpr.root
    rw [Manager.start, Manager.start, hactive]
  · have hprojects : ProjectsTo (id : A → A) := .refl
    have halike : Manager.Alike id (Processor.Follows p r) ⟨s, p, kernelRoot, enabled⟩
        ⟨s, r, kernelRoot, enabled⟩ := ⟨rfl, .start hpr, rfl, rfl⟩
    refine (Manager.alike_runRequests himitates hon _ _ halike).mono fun m m' hm => ?_
    exact ⟨hm.store, hm.kernelRoot, hm.pagingEnabled, hm.machine⟩

/-- A processor with bits in its registers that say nothing about paging. -/
def Processor.sample : Processor where
  cr0 := 0x11
  cr2 := 0xdead000
  cr3 := 0xfff0000000456018
  invalidated := [⟨0x7000⟩]

/-- What the stand-in for it has on record. -/
def Recorder.sample : Recorder where
  root := .ofNumber 0x456
  fault := ⟨0xdead000⟩
  invalidated := [.ofNumber 7]

/-- A root is made active, and then a manager makes a root and turns paging on through it. -/
theorem processor_agrees_sample :
    Processor.sample.Mirrors Recorder.sample ∧
    (∃ replies p', (runCalls [.loadRoot (.ofNumber 0x123), .invalidate (.ofNumber 5),
        .activeRoot]).run Processor.sample = .ok replies p' ∧
      p'.cr3 = 0x123000 ∧ p'.invalidated = [⟨0x7000⟩, ⟨0x5000⟩]) ∧
    ∃ replies m, (Manager.runRequests [.createRoot, .enablePaging (.ofNumber 1)]).run
        (⟨Pool.sample 7, Processor.sample, .ofNumber 0x456, false⟩ : Manager Pool Processor) =
          .ok replies m ∧ m.machine.cr3 = 0x1000 ∧ Cr0.paging.test m.machine.cr0 = true := by
  have hmirrors : Processor.sample.Mirrors Recorder.sample :=
    ⟨by decide, by decide, rfl, by decide⟩
  have hroom : ∀ n < 2 ^ 40, Processor.CanLoad (.ofNumber n) := by
    intro n hn
    rwa [Processor.CanLoad, Page.number_ofNumber (hn.trans (by decide))]
  obtain ⟨hmachine, hmanager⟩ := processor_agrees hmirrors
  refine ⟨hmirrors, ?_, ?_⟩
  · have hon : ∀ call ∈ [PagingControl.Call.loadRoot (.ofNumber 0x123), .invalidate (.ofNumber 5),
        .activeRoot], call.On Processor.CanLoad := by
      simp [PagingControl.Call.On, hroom]
    obtain ⟨replies, p', r', hp, hr, hfollows⟩ := hmachine _ hon
    cases hr
    exact ⟨_, p', hp, hfollows.cr3, hfollows.invalidated⟩
  · have hon : ∀ request ∈ [Manager.Request.createRoot, .enablePaging (.ofNumber 1)],
        request.On Processor.CanLoad := by
      simp [Manager.Request.On, hroom]
    have hagrees := (hmanager (Pool.sample 7)).2 (.ofNumber 0x456) false _ hon
    obtain ⟨replies, m', hr, hmachine⟩ : ∃ replies m',
        (Manager.runRequests [.createRoot, .enablePaging (.ofNumber 1)]).run
          (⟨Pool.sample 7, Recorder.sample, .ofNumber 0x456, false⟩ : Manager Pool Recorder) =
            .ok replies m' ∧ m'.machine =
              { Recorder.sample with root := .ofNumber 1, enabled := true, rootLoads := 1 } :=
      ⟨_, _, rfl, rfl⟩
    rw [hr] at hagrees
    obtain ⟨m, hp, -, -, -, hfollows⟩ := hagrees.of_ok
    rw [hmachine] at hfollows
    exact ⟨replies, m, hp, hfollows.cr3, hfollows.enabled⟩

end KernelMemory
