import Mathlib.Data.Nat.Find
import M68Fpu.CommandLine.Invocation
import M68Fpu.Proofs.Footprint
import M68Fpu.Proofs.ReadOnlyMemory

/-!
# A program runs up to its first fault

The command line resets a computer and steps it to the end of the run, which is its first fault or
the limit of steps, whichever comes first (`Machine.Ends`). The exit code tells whether the fault
that ended the run is another than that of an opcode that is none of the FPU's
(`CommandLine.RunsProgram`).

The loop never looks at the fault of a step. It looks at the stop flag, and keeps the latest fault:
a reset clears the flag, a step sets it if and only if it ends in a fault
(`Machine.stopped_step`), and so the fault that is kept is the only one.
-/

namespace M68Fpu

/-! ## The first fault -/

namespace Machine

variable {β : Type} [Bus β] {machine : Machine β} {limit : Option Nat}

/-- Whether the first `count` steps all end without a fault. -/
def Quiet (machine : Machine β) (count : Nat) : Prop :=
  ∀ steps < count, (machine.after steps).step.fault = none

/-- How a machine that is stepped under a limit ends: the steps executed, and the fault of the last
of them if it is one that ends the run. -/
inductive Ends (machine : Machine β) (limit : Option Nat) : Nat → Option Fault → Prop
  | faulted {before : Nat} {fault : Fault} (hquiet : machine.Quiet before)
      (hfault : (machine.after before).step.fault = some fault)
      (hlimit : ∀ bound, limit = some bound → before < bound) :
      Ends machine limit (before + 1) (some fault)
  | exhausted {bound : Nat} (hlimit : limit = some bound) (hquiet : machine.Quiet bound) :
      Ends machine limit bound none

/-- A machine that does not end under a limit has none, and no step of it ends in a fault. -/
theorem ends_or_quiet (machine : Machine β) (limit : Option Nat) :
    (∃ steps failure, machine.Ends limit steps failure) ∨
      limit = none ∧ ∀ count, machine.Quiet count := by
  by_cases hfaults : ∃ steps, (machine.after steps).step.fault ≠ none
  · have hquiet : machine.Quiet (Nat.find hfaults) := fun steps hsteps =>
      Decidable.not_not.mp (Nat.find_min hfaults hsteps)
    obtain ⟨fault, hfault⟩ := Option.ne_none_iff_exists'.mp (Nat.find_spec hfaults)
    left
    by_cases hbound : ∀ bound, limit = some bound → Nat.find hfaults < bound
    · exact ⟨_, _, .faulted hquiet hfault hbound⟩
    · -- The limit comes before the first fault.
      push Not at hbound
      obtain ⟨bound, hlimit, hle⟩ := hbound
      exact ⟨_, _, .exhausted hlimit fun steps hsteps => hquiet steps (by omega)⟩
  · push Not at hfaults
    have hquiet (count : Nat) : machine.Quiet count := fun steps _ => hfaults steps
    cases limit with
    | none => exact .inr ⟨rfl, hquiet⟩
    | some bound => exact .inl ⟨bound, none, .exhausted rfl (hquiet bound)⟩

/-- A processor that runs goes on running as long as there is no fault. -/
theorem stopped_after {count : Nat} (hrunning : machine.cpu.stopped = false)
    (hquiet : machine.Quiet count) : (machine.after count).cpu.stopped = false := by
  induction count with
  | zero => exact hrunning
  | succ count ih =>
    have hbefore := ih fun steps hsteps => hquiet steps (Nat.lt_succ_of_lt hsteps)
    rw [after, stopped_step, hbefore, hquiet count (Nat.lt_succ_self count)]
    rfl

end Machine

namespace CommandLine

/-! ## The loop -/

namespace Run

variable {limit : Option Nat} {run last : Run} {computer : Computer}

theorem finish_of_not_finished (h : ¬ run.finished limit = true) :
    run.finish limit = run.step.finish limit := by
  rw [finish.eq_1 limit run, if_neg h]

theorem finish_of_finished (h : run.finished limit = true) : run.finish limit = some run := by
  rw [finish, if_pos h]

theorem advance_of_not_finished (h : ¬ run.finished limit = true) (fuel : Nat) :
    run.advance limit (fuel + 1) = run.step.advance limit fuel := by
  rw [advance, if_neg h]

theorem advance_of_finished (h : run.finished limit = true) (fuel : Nat) :
    run.advance limit fuel = run := by
  cases fuel with
  | zero => rfl
  | succ fuel => rw [advance, if_pos h]

theorem advance_succ (limit : Option Nat) (fuel : Nat) (run : Run) :
    run.advance limit (fuel + 1) = (run.advance limit fuel).advance limit 1 := by
  induction fuel generalizing run with
  | zero => rfl
  | succ fuel ih =>
    by_cases hfinished : run.finished limit = true
    · simp only [advance_of_finished hfinished]
    · rw [advance_of_not_finished hfinished, ih, advance_of_not_finished hfinished]

/-- A part of the loop does not change where it ends. -/
theorem finish_advance (limit : Option Nat) (fuel : Nat) (run : Run) :
    (run.advance limit fuel).finish limit = run.finish limit := by
  induction fuel generalizing run with
  | zero => rfl
  | succ fuel ih =>
    by_cases hfinished : run.finished limit = true
    · rw [advance_of_finished hfinished]
    · rw [advance_of_not_finished hfinished, ih, finish_of_not_finished hfinished]

/-- The loop ends where a bounded part of it finds nothing left to execute. -/
theorem finish_eq_some_iff :
    run.finish limit = some last ↔
      last.finished limit = true ∧ ∃ fuel, run.advance limit fuel = last := by
  constructor
  · intro h
    -- A result of the loop comes after finitely many rounds, so an induction on them reaches it.
    refine finish.partial_correctness limit
      (fun run last => last.finished limit = true ∧ ∃ fuel, run.advance limit fuel = last)
      (fun round hround run last hlast => ?_) run last h
    split at hlast
    case isTrue hfinished =>
      obtain rfl := Option.some.inj hlast
      exact ⟨hfinished, 0, rfl⟩
    case isFalse hrunning =>
      obtain ⟨hfinished, fuel, hfuel⟩ := hround run.step last hlast
      refine ⟨hfinished, fuel + 1, ?_⟩
      rw [advance_of_not_finished hrunning, hfuel]
  · rintro ⟨hfinished, fuel, rfl⟩
    rw [← finish_advance limit fuel run, finish_of_finished hfinished]

/-! ## Runs without a fault -/

/-- A run that has come to no fault in some steps. -/
def faultless (computer : Computer) (steps : Nat) : Run :=
  { computer := computer.after steps, steps }

theorem finished_faultless {steps : Nat} (hrunning : computer.cpu.stopped = false)
    (hquiet : computer.Quiet steps) :
    (faultless computer steps).finished limit = true ↔
      ∃ bound, limit = some bound ∧ bound ≤ steps := by
  have hstopped := Machine.stopped_after hrunning hquiet
  show ((computer.after steps).cpu.stopped || limit.any fun bound => decide (bound ≤ steps)) = true
    ↔ _
  rw [hstopped, Bool.false_or]
  cases limit <;> simp

theorem step_faultless (computer : Computer) (steps : Nat) :
    (faultless computer steps).step =
      { faultless computer (steps + 1) with failure := (computer.after steps).step.fault } := by
  show Run.mk _ _ ((computer.after steps).step.fault.or none) = _
  rw [Option.or_none]
  rfl

/-- The induction is on the steps, each of which is the next of the loop as there is neither a fault
nor the limit in the way. -/
theorem advance_eq_faultless {steps : Nat} (hrunning : computer.cpu.stopped = false)
    (hquiet : computer.Quiet steps) (hlimit : ∀ bound, limit = some bound → steps ≤ bound) :
    advance limit steps { computer } = faultless computer steps := by
  induction steps with
  | zero => rfl
  | succ steps ih =>
    have hbefore : computer.Quiet steps := fun k hk => hquiet k (Nat.lt_succ_of_lt hk)
    have hcontinues : ¬ (faultless computer steps).finished limit = true := by
      rw [finished_faultless hrunning hbefore]
      rintro ⟨bound, hbound, hle⟩
      have hlt := hlimit bound hbound
      omega
    rw [advance_succ, ih hbefore fun bound hbound => Nat.le_of_succ_le (hlimit bound hbound),
      advance_of_not_finished hcontinues, step_faultless, hquiet steps (Nat.lt_succ_self steps)]
    rfl

/-! ## The end of a run -/

theorem finish_of_ends {steps : Nat} {failure : Option Fault}
    (hrunning : computer.cpu.stopped = false) (h : computer.Ends limit steps failure) :
    finish limit { computer } = some { computer := computer.after steps, steps, failure } := by
  cases h with
  | @faulted before fault hquiet hfault hlimit =>
    have hcontinues : ¬ (faultless computer before).finished limit = true := by
      rw [finished_faultless hrunning hquiet]
      rintro ⟨bound, hbound, hle⟩
      exact absurd hle (Nat.not_le_of_lt (hlimit bound hbound))
    have hstopped : (computer.after (before + 1)).cpu.stopped = true := by
      rw [Machine.after, Machine.stopped_step, hfault]
      exact Bool.or_true _
    have hadvance : advance limit before { computer } = faultless computer before :=
      advance_eq_faultless hrunning hquiet fun bound hbound => Nat.le_of_lt (hlimit bound hbound)
    rw [← finish_advance limit before, hadvance, finish_of_not_finished hcontinues, step_faultless,
      hfault]
    apply finish_of_finished
    show ((computer.after (before + 1)).cpu.stopped || _) = true
    rw [hstopped, Bool.true_or]
  | exhausted hlimit hquiet =>
    have hreached (bound : Nat) (hbound : limit = some bound) : steps ≤ bound := by
      rw [hlimit, Option.some.injEq] at hbound
      omega
    rw [← finish_advance limit steps, advance_eq_faultless hrunning hquiet hreached]
    exact finish_of_finished
      ((finished_faultless hrunning hquiet).mpr ⟨steps, hlimit, Nat.le_refl steps⟩)

/-- A program without a fault goes on for ever if there is no limit. -/
theorem finish_eq_none (hrunning : computer.cpu.stopped = false)
    (hquiet : ∀ count, computer.Quiet count) : finish none { computer } = none := by
  cases hfinish : finish none { computer } with
  | none => rfl
  | some last =>
    obtain ⟨hfinished, fuel, rfl⟩ := finish_eq_some_iff.mp hfinish
    rw [advance_eq_faultless hrunning (hquiet fuel) (by simp),
      finished_faultless hrunning (hquiet fuel)] at hfinished
    obtain ⟨bound, hbound, -⟩ := hfinished
    cases hbound

end Run

/-! ## The command line -/

/-- A computer that has been reset with an image in its read-only memory. -/
def booted (image : List UInt8) : Computer := (Computer.ofImage image).reset.machine

theorem resetsTo_ofImage (image : List UInt8) : (Computer.ofImage image).ResetsTo image :=
  Computer.resetsTo_of_romHolds (Memory.romHolds_of_image rfl)

theorem stopped_booted (image : List UInt8) : (booted image).cpu.stopped = false := by
  rw [booted, (resetsTo_ofImage image).cpu_eq]
  rfl

/-- Whether a program has failed: the fault that has ended it is another than that of an opcode that
is none of the FPU's. -/
def Fails (failure : Option Fault) : Prop :=
  ∃ fault, failure = some fault ∧ ∀ opcode, fault ≠ .illegalInstruction opcode

/-- How the program answers for an image that it runs. -/
structure RunsProgram (image : List UInt8) (arguments : Arguments) (answer : Option Report) :
    Prop where
  reset_eq : (Computer.ofImage image).reset.fault = none
  /-- It ends at the first fault or at the limit, or else there is neither and no end. -/
  ends_or_endless :
    (∃ steps failure, (booted image).Ends arguments.steps steps failure) ∨
      arguments.steps = none ∧ (∀ count, (booted image).Quiet count) ∧
        Run.finish none { computer := booted image } = none ∧ answer = none
  finish_eq {steps : Nat} {failure : Option Fault} :
    (booted image).Ends arguments.steps steps failure →
      Run.finish arguments.steps { computer := booted image }
        = some { computer := (booted image).after steps, steps, failure }
  report_eq {steps : Nat} {failure : Option Fault} :
    (booted image).Ends arguments.steps steps failure →
      ∃ report, answer = some report ∧
        (Fails failure → report.exitCode = Report.failureCode) ∧
        (¬ Fails failure → report.exitCode = 0) ∧
        report.output = if arguments.dump then dump ((booted image).after steps).cpu else ""

theorem succeeded_iff (run : Run) : run.succeeded = true ↔ ¬ Fails run.failure := by
  unfold Run.succeeded Fails
  split <;> simp_all

section

variable {files : String → Option (List UInt8)} {texts : List String} {arguments : Arguments}
  {image : List UInt8}

theorem answer_eq (hparse : Arguments.parse texts = .ok arguments)
    (hfile : files arguments.file = some image) (hdebug : arguments.debug = none) :
    answer files texts = (Run.finish arguments.steps { computer := booted image }).map
      (Report.ofRun arguments) := by
  have hreset : (Computer.ofImage image).reset.fault = none := (resetsTo_ofImage image).fault_eq
  unfold answer invoke
  simp [hparse, hfile, hreset, hdebug, booted, Option.map_eq_bind]

/-- An image whose program moves a register and comes to an operation that does not exist. -/
def failingImage : List UInt8 :=
  [0x00, 0x00, 0x10, 0x00, 0x00, 0x00, 0x00, 0x08, 0xF2, 0x00, 0x00, 0x80, 0xF2, 0x00, 0x00, 0x7F]

end

end CommandLine

end M68Fpu
