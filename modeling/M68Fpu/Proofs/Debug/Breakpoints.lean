import Mathlib.Data.List.Induction
import Mathlib.Order.Bounds.Defs
import M68Fpu.Debug.Target
import M68Fpu.Proofs.Footprint

/-!
# Breakpoints do not change what a program does

A debugger sets and clears breakpoints and lets the program continue, each time up to a bound
(`Request`). Whatever it asks for, the computer ends where as many plain steps lead it
(`Target.computer_serveAll`), and the breakpoints are those that were inserted last
(`Target.mem_breakpoints_serveAll`).

A continuation ends at the first step that leads to a breakpoint or ends in a fault, or else at its
bound (`Target.continues_resume`). It looks at the stop flag before each step, and not at the
fault of the step before; the two agree, as a step stops the processor exactly if it ends in a fault
(`Machine.stopped_step`).
-/

namespace M68Fpu

namespace Target

/-- The target after its computer has executed some steps, as if there were no breakpoints. -/
def after (target : Target) (steps : Nat) : Target :=
  { target with computer := target.computer.after steps }

theorem after_succ (target : Target) (steps : Nat) :
    target.after (steps + 1) = target.step.after steps := by
  have hsteps : target.computer.after (1 + steps) = target.computer.step.machine.after steps :=
    target.computer.after_add 1 steps
  unfold after
  rw [Nat.add_comm, hsteps]
  rfl

/-! ## Continuations -/

/-- Whether the next step is one to end a continuation: it leads to a breakpoint or ends in a
fault. -/
def Pauses (target : Target) : Prop :=
  target.step.hit = true ∨ target.computer.step.fault ≠ none

/-- The numbers of steps after which a continuation has to end: its bound, and the steps up to one
that pauses, included. -/
def pausesWithin (target : Target) (limit : Nat) : Set Nat :=
  {steps | steps = limit ∨ ∃ before, steps = before + 1 ∧ (target.after before).Pauses}

/-- What a bounded continuation comes to. -/
structure Continues (target : Target) (limit : Nat) (continuation : Continuation) : Prop where
  /-- The computer is where plain steps lead it, and the breakpoints are as before. -/
  target_eq : continuation.target = target.after continuation.steps
  /-- A stopped processor executes nothing. -/
  stopped : target.computer.cpu.stopped = true → continuation.steps = 0
  /-- Otherwise the first of the steps that may end the continuation does. -/
  running : target.computer.cpu.stopped = false →
    IsLeast (target.pausesWithin limit) continuation.steps
  /-- A breakpoint counts if a step has led to it, and not if execution was there to begin with. -/
  hit_iff : continuation.hit = true ↔ 0 < continuation.steps ∧ continuation.target.hit = true

theorem zero_notMem_pausesWithin_succ (target : Target) (limit : Nat) :
    0 ∉ target.pausesWithin (limit + 1) := by
  rintro (h | ⟨before, h, -⟩)
  · exact absurd h (Nat.succ_ne_zero limit).symm
  · exact absurd h (Nat.succ_ne_zero before).symm

/-- Behind a step that does not pause, a continuation has one step less to go. -/
theorem succ_mem_pausesWithin_succ {target : Target} (h : ¬ target.Pauses) (limit steps : Nat) :
    steps + 1 ∈ target.pausesWithin (limit + 1) ↔ steps ∈ target.step.pausesWithin limit := by
  constructor
  · rintro (hlimit | ⟨before, hbefore, hpauses⟩)
    · exact .inl (Nat.succ.inj hlimit)
    · obtain rfl := Nat.succ.inj hbefore
      cases steps with
      | zero => exact absurd hpauses h
      | succ steps =>
        rw [after_succ] at hpauses
        exact .inr ⟨steps, rfl, hpauses⟩
  · rintro (hlimit | ⟨before, hbefore, hpauses⟩)
    · exact .inl (congrArg Nat.succ hlimit)
    · refine .inr ⟨before + 1, congrArg Nat.succ hbefore, ?_⟩
      rwa [after_succ]

theorem isLeast_one_of_pauses {target : Target} (h : target.Pauses) (limit : Nat) :
    IsLeast (target.pausesWithin (limit + 1)) 1 := by
  refine ⟨.inr ⟨0, rfl, h⟩, fun steps hsteps => ?_⟩
  cases steps with
  | zero => exact absurd hsteps (zero_notMem_pausesWithin_succ target limit)
  | succ steps => exact Nat.succ_pos steps

theorem isLeast_succ_of_not_pauses {target : Target} (h : ¬ target.Pauses) {limit steps : Nat}
    (hleast : IsLeast (target.step.pausesWithin limit) steps) :
    IsLeast (target.pausesWithin (limit + 1)) (steps + 1) := by
  refine ⟨(succ_mem_pausesWithin_succ h limit steps).mpr hleast.1, fun other hother => ?_⟩
  cases other with
  | zero => exact absurd hother (zero_notMem_pausesWithin_succ target limit)
  | succ other =>
    exact Nat.succ_le_succ (hleast.2 ((succ_mem_pausesWithin_succ h limit other).mp hother))

/-! ### Single rounds -/

section Rounds

variable {target : Target}

theorem continueFrom_of_stopped (h : target.computer.cpu.stopped = true) (steps limit : Nat) :
    continueFrom steps limit target = ⟨target, steps, false⟩ := by
  cases limit with
  | zero => rfl
  | succ limit => exact if_pos h

theorem continueFrom_of_hit (h : ¬ target.computer.cpu.stopped = true)
    (hhit : target.step.hit = true) (steps limit : Nat) :
    continueFrom steps (limit + 1) target = ⟨target.step, steps + 1, true⟩ :=
  (if_neg h).trans (if_pos hhit)

theorem continueFrom_of_not_hit (h : ¬ target.computer.cpu.stopped = true)
    (hhit : ¬ target.step.hit = true) (steps limit : Nat) :
    continueFrom steps (limit + 1) target = continueFrom (steps + 1) limit target.step :=
  (if_neg h).trans (if_neg hhit)

/-- A continuation counts on from the steps that it is given and depends on them in nothing else. -/
theorem continueFrom_eq (steps limit : Nat) (target : Target) :
    continueFrom steps limit target =
      ⟨(target.resume limit).target, steps + (target.resume limit).steps,
        (target.resume limit).hit⟩ := by
  unfold resume
  induction limit generalizing steps target with
  | zero => rfl
  | succ limit ih =>
    by_cases hstopped : target.computer.cpu.stopped = true
    · rw [continueFrom_of_stopped hstopped, continueFrom_of_stopped hstopped, Nat.add_zero]
    by_cases hhit : target.step.hit = true
    · rw [continueFrom_of_hit hstopped hhit, continueFrom_of_hit hstopped hhit, Nat.zero_add]
    · rw [continueFrom_of_not_hit hstopped hhit, continueFrom_of_not_hit hstopped hhit, ih, ih 1,
        Nat.add_assoc]

theorem resume_of_not_hit (h : ¬ target.computer.cpu.stopped = true)
    (hhit : ¬ target.step.hit = true) (limit : Nat) :
    target.resume (limit + 1) = ⟨(target.step.resume limit).target,
      (target.step.resume limit).steps + 1, (target.step.resume limit).hit⟩ := by
  unfold resume
  rw [continueFrom_of_not_hit h hhit, Nat.zero_add, continueFrom_eq, Nat.add_comm]
  rfl

/-- A step that hits no breakpoint pauses if and only if it leaves the processor stopped, which is
what the next round of the continuation looks at. -/
theorem stopped_step_iff_pauses (h : ¬ target.computer.cpu.stopped = true)
    (hhit : ¬ target.step.hit = true) :
    target.step.computer.cpu.stopped = true ↔ target.Pauses := by
  have hstopped := Machine.stopped_step target.computer
  rw [Bool.eq_false_of_not_eq_true h, Bool.false_or] at hstopped
  show target.computer.step.machine.cpu.stopped = true ↔ _
  rw [hstopped, Option.isSome_iff_ne_none]
  exact ⟨.inr, fun hpauses => hpauses.resolve_left hhit⟩

end Rounds

/-- By induction on the bound. The first step either ends the continuation or leaves one with a
bound that is smaller by one. -/
theorem continues_resume (target : Target) (limit : Nat) :
    target.Continues limit (target.resume limit) := by
  induction limit generalizing target with
  | zero =>
    have hleast : IsLeast (target.pausesWithin 0) 0 := ⟨.inl rfl, fun _ _ => Nat.zero_le _⟩
    exact ⟨rfl, fun _ => rfl, fun _ => hleast, by simp [resume, continueFrom]⟩
  | succ limit ih =>
    by_cases hstopped : target.computer.cpu.stopped = true
    · rw [resume, continueFrom_of_stopped hstopped]
      refine ⟨rfl, fun _ => rfl, fun hrunning => ?_, by simp⟩
      exact absurd (hstopped.symm.trans hrunning) (by decide)
    by_cases hhit : target.step.hit = true
    · rw [resume, continueFrom_of_hit hstopped hhit]
      refine ⟨rfl, fun h => absurd h hstopped, fun _ => ?_, by simp [hhit]⟩
      exact isLeast_one_of_pauses (.inl hhit) limit
    · have hrest := ih target.step
      rw [resume_of_not_hit hstopped hhit]
      refine ⟨?_, fun h => absurd h hstopped, fun _ => ?_, ?_⟩
      · rw [after_succ]
        exact hrest.target_eq
      · -- Either the step has stopped the processor, or the rest goes on behind it.
        cases hnext : target.step.computer.cpu.stopped with
        | true =>
          have hpauses := (stopped_step_iff_pauses hstopped hhit).mp hnext
          have hzero := hrest.stopped hnext
          simp only [hzero]
          exact isLeast_one_of_pauses hpauses limit
        | false =>
          have hgoes : ¬ target.Pauses := fun hpauses =>
            absurd (hnext.symm.trans ((stopped_step_iff_pauses hstopped hhit).mpr hpauses))
              (by decide)
          exact isLeast_succ_of_not_pauses hgoes (hrest.running hnext)
      · -- Without a further step the target is the one that has hit nothing.
        rw [hrest.hit_iff]
        constructor
        · exact fun h => ⟨Nat.succ_pos _, h.2⟩
        · rintro ⟨-, hlast⟩
          refine ⟨Nat.pos_of_ne_zero fun hzero => hhit ?_, hlast⟩
          have htarget := hrest.target_eq
          rw [hzero] at htarget
          rwa [htarget] at hlast

end Target

/-! ## Sessions -/

/-- What a debugger asks of a target while a program runs on it. -/
inductive Request where
  | insert (address : UInt32)
  | remove (address : UInt32)
  | resume (limit : Nat)
  deriving DecidableEq, Repr

/-- Whether a request sets or clears a breakpoint at an address. -/
def Request.names (address : UInt32) : Request → Bool
  | insert other | remove other => other == address
  | resume _ => false

/-- The last request of a session that names an address. -/
def lastNaming (address : UInt32) (session : List Request) : Option Request :=
  (session.filter (Request.names address)).getLast?

namespace Target

def serve (target : Target) : Request → Target
  | .insert address => (target.setBreakpoint address).2
  | .remove address => (target.clearBreakpoint address).2
  | .resume limit => (target.resume limit).target

/-- The target after a session. -/
def serveAll (target : Target) (session : List Request) : Target := session.foldl serve target

/-- The steps that a request executes. -/
def stepsFor (target : Target) : Request → Nat
  | .insert _ | .remove _ => 0
  | .resume limit => (target.resume limit).steps

/-- The steps that a session executes. -/
def stepsForAll (target : Target) : List Request → Nat
  | [] => 0
  | request :: rest => target.stepsFor request + (target.serve request).stepsForAll rest

theorem computer_setBreakpoint (target : Target) (address : UInt32) :
    (target.setBreakpoint address).2.computer = target.computer := by
  unfold setBreakpoint
  split <;> rfl

theorem computer_clearBreakpoint (target : Target) (address : UInt32) :
    (target.clearBreakpoint address).2.computer = target.computer := by
  unfold clearBreakpoint
  split <;> rfl

theorem computer_serve (target : Target) (request : Request) :
    (target.serve request).computer = target.computer.after (target.stepsFor request) := by
  cases request with
  | insert address => exact target.computer_setBreakpoint address
  | remove address => exact target.computer_clearBreakpoint address
  | resume limit => exact congrArg computer (target.continues_resume limit).target_eq

/-- The steps of a session are plain steps, one request after the other. -/
theorem computer_serveAll (target : Target) (session : List Request) :
    (target.serveAll session).computer = target.computer.after (target.stepsForAll session) := by
  induction session generalizing target with
  | nil => rfl
  | cons request rest ih =>
    have hrest := ih (target.serve request)
    rw [target.computer_serve request, ← Machine.after_add] at hrest
    exact hrest

/-! ### The set of breakpoints -/

theorem mem_setBreakpoint (target : Target) (address other : UInt32) :
    other ∈ (target.setBreakpoint address).2.breakpoints ↔
      other = address ∨ other ∈ target.breakpoints := by
  unfold setBreakpoint
  split
  case isTrue hset =>
    have hmem : address ∈ target.breakpoints := List.contains_iff_mem.mp hset
    exact ⟨.inr, fun h => h.elim (fun heq => heq ▸ hmem) id⟩
  case isFalse => exact List.mem_cons

theorem mem_clearBreakpoint (target : Target) (address other : UInt32) :
    other ∈ (target.clearBreakpoint address).2.breakpoints ↔
      other ≠ address ∧ other ∈ target.breakpoints := by
  unfold clearBreakpoint
  split
  case isTrue => simp [and_comm]
  case isFalse hclear =>
    have hmem : address ∉ target.breakpoints := fun h => hclear (List.contains_iff_mem.mpr h)
    exact ⟨fun h => ⟨fun heq => hmem (heq ▸ h), h⟩, And.right⟩

theorem breakpoints_resume (target : Target) (limit : Nat) :
    (target.resume limit).target.breakpoints = target.breakpoints := by
  rw [(target.continues_resume limit).target_eq]
  rfl

/-- Only a request that names an address can change whether it is set. -/
theorem mem_serve_of_not_names {target : Target} {request : Request} {address : UInt32}
    (h : ¬ request.names address = true) :
    address ∈ (target.serve request).breakpoints ↔ address ∈ target.breakpoints := by
  cases request with
  | insert other =>
    have hne : address ≠ other := fun heq => h (beq_iff_eq.mpr heq.symm)
    exact (target.mem_setBreakpoint other address).trans (or_iff_right hne)
  | remove other =>
    have hne : address ≠ other := fun heq => h (beq_iff_eq.mpr heq.symm)
    exact (target.mem_clearBreakpoint other address).trans (and_iff_right hne)
  | resume limit => exact iff_of_eq (congrArg (address ∈ ·) (target.breakpoints_resume limit))

/-- A request that names an address settles whether it is set. -/
theorem mem_serve_of_names {target : Target} {request : Request} {address : UInt32}
    (h : request.names address = true) :
    address ∈ (target.serve request).breakpoints ↔ request = .insert address := by
  cases request with
  | insert other =>
    obtain rfl := beq_iff_eq.mp h
    exact iff_of_true ((target.mem_setBreakpoint other other).mpr (.inl rfl)) rfl
  | remove other =>
    obtain rfl := beq_iff_eq.mp h
    exact iff_of_false (fun hmem => ((target.mem_clearBreakpoint other other).mp hmem).1 rfl) nofun
  | resume => cases h

/-- By induction from the last request backwards: if it names the address it decides, and otherwise
those before it do. -/
theorem mem_breakpoints_serveAll (target : Target) (session : List Request) (address : UInt32) :
    address ∈ (target.serveAll session).breakpoints ↔
      lastNaming address session = some (.insert address) ∨
        (lastNaming address session = none ∧ address ∈ target.breakpoints) := by
  induction session using List.reverseRecOn with
  | nil => simp [serveAll, lastNaming]
  | append_singleton session request ih =>
    have hserve : target.serveAll (session ++ [request])
        = (target.serveAll session).serve request :=
      List.foldl_append
    rw [hserve]
    by_cases hnames : request.names address = true
    · have hlast : lastNaming address (session ++ [request]) = some request := by
        simp [lastNaming, hnames]
      rw [hlast, mem_serve_of_names hnames]
      simp
    · have hlast : lastNaming address (session ++ [request]) = lastNaming address session := by
        simp [lastNaming, hnames]
      rw [hlast, mem_serve_of_not_names hnames]
      exact ih

/-! ### Reports -/

/-- Whether the same breakpoints are set on two targets. -/
def SameBreakpoints (first second : Target) : Prop :=
  ∀ address, address ∈ first.breakpoints ↔ address ∈ second.breakpoints

theorem setBreakpoint_eq_true_iff (target : Target) (address : UInt32) :
    (target.setBreakpoint address).1 = true ↔ address ∉ target.breakpoints := by
  by_cases h : address ∈ target.breakpoints <;> simp [setBreakpoint, h]

theorem clearBreakpoint_eq_true_iff (target : Target) (address : UInt32) :
    (target.clearBreakpoint address).1 = true ↔ address ∈ target.breakpoints := by
  by_cases h : address ∈ target.breakpoints <;> simp [clearBreakpoint, h]

/-- What is set already is the same set with it. -/
theorem sameBreakpoints_setBreakpoint_iff (target : Target) (address : UInt32) :
    target.SameBreakpoints (target.setBreakpoint address).2 ↔ address ∈ target.breakpoints := by
  constructor
  · exact fun h => (h address).mpr ((target.mem_setBreakpoint address address).mpr (.inl rfl))
  · intro hmem other
    rw [mem_setBreakpoint]
    exact ⟨.inr, fun h => h.elim (fun heq => heq ▸ hmem) id⟩

theorem sameBreakpoints_clearBreakpoint_iff (target : Target) (address : UInt32) :
    target.SameBreakpoints (target.clearBreakpoint address).2 ↔ address ∉ target.breakpoints := by
  constructor
  · intro h hmem
    exact ((target.mem_clearBreakpoint address address).mp ((h address).mp hmem)).1 rfl
  · intro hmem other
    rw [mem_clearBreakpoint]
    exact ⟨fun h => ⟨fun heq => hmem (heq ▸ h), h⟩, And.right⟩

/-! ### All sessions -/

/-- What holds of a target behind a session, and of the request that comes next. -/
structure Transparent (target : Target) (session : List Request) : Prop where
  /-- Processor and memory are where plain steps lead them. -/
  computer_eq : (target.serveAll session).computer
    = target.computer.after (target.stepsForAll session)
  /-- A breakpoint is set if it was inserted last, or was set before and has not been named. -/
  mem_iff (address : UInt32) : address ∈ (target.serveAll session).breakpoints ↔
    lastNaming address session = some (.insert address) ∨
      (lastNaming address session = none ∧ address ∈ target.breakpoints)
  continues (limit : Nat) :
    (target.serveAll session).Continues limit ((target.serveAll session).resume limit)
  /-- An insertion reports that the address was absent, and that the set has changed. -/
  inserts (address : UInt32) :
    ((target.serveAll session).setBreakpoint address).1 = true ↔
      address ∉ (target.serveAll session).breakpoints
  inserts_change (address : UInt32) :
    ((target.serveAll session).setBreakpoint address).1 = true ↔
      ¬ (target.serveAll session).SameBreakpoints
        ((target.serveAll session).setBreakpoint address).2
  /-- A removal reports that the address was set, and that the set has changed. -/
  removes (address : UInt32) :
    ((target.serveAll session).clearBreakpoint address).1 = true ↔
      address ∈ (target.serveAll session).breakpoints
  removes_change (address : UInt32) :
    ((target.serveAll session).clearBreakpoint address).1 = true ↔
      ¬ (target.serveAll session).SameBreakpoints
        ((target.serveAll session).clearBreakpoint address).2

/-- Two tests of FP0 and an opcode that is none of the FPU: the first continuation pauses behind the
first test, the second one ends at the opcode, and the last one finds the processor stopped. -/
example :
    let computer := Computer.ofImage [0x00, 0x10, 0x00, 0x00, 0x00, 0x00, 0x00, 0x08,
      0xF2, 0x00, 0x00, 0x3A, 0xF2, 0x00, 0x00, 0x3A, 0x4E, 0x71]
    stepsForAll { computer := computer.reset.machine }
      [.insert 0xC, .resume 5, .resume 5, .resume 5] = 1 + 2 + 0 := by
  decide +kernel

end Target

end M68Fpu
