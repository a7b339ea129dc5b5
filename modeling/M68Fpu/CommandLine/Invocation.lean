import M68Fpu.CommandLine.Arguments
import M68Fpu.CommandLine.Run

/-!
# An invocation of the command line

All of the program but the reading of files and the loop that may not end, which are given.
-/

namespace M68Fpu.CommandLine

/-- What the program prints and how it exits. -/
structure Report where
  exitCode : UInt8
  output : String := ""
  diagnostic : String := ""
  deriving DecidableEq, Repr

namespace Report

def failureCode : UInt8 := 1

/-- The exit code of a command line that cannot be understood. -/
def misuseCode : UInt8 := 2

/-- A failure before anything was run. -/
def failure (diagnostic : String) : Report := { exitCode := failureCode, diagnostic }

def version : String := "fpu68k 0.1.0\n"

def help : String :=
  "Usage: fpu68k [OPTIONS] <ROM>\n\n"
    ++ "  -d, --debug <ADDRESS>  serve a debugger\n"
    ++ "  -s, --steps <COUNT>    stop after this many instructions\n"
    ++ "      --log <FILTER>     choose the diagnostics\n"
    ++ "      --dump             print the FPU registers at the end\n"
    ++ "  -h, --help             print this summary\n"
    ++ "  -V, --version          print the version\n"

/-- The report when the arguments were not read to the end. -/
def ofInterruption : Interruption → Report
  | .version => { exitCode := 0, output := version }
  | .help => { exitCode := 0, output := help }
  | .misuse cause => { exitCode := misuseCode, diagnostic := cause.message }

def ofRun (arguments : Arguments) (run : Run) : Report where
  exitCode := if run.succeeded then 0 else failureCode
  output := if arguments.dump then dump run.computer.cpu else ""
  diagnostic := if run.succeeded then "" else (run.failure.map Fault.message).getD ""

end Report

/-- Runs the program. `readFile` answers the bytes of a file unless it cannot be read, and `finish`
steps a run to its end. No debugger can be served. -/
def invoke {m : Type → Type} [Monad m] (readFile : String → m (Option (List UInt8)))
    (finish : Option Nat → Run → m Run) (arguments : List String) : m Report := do
  match Arguments.parse arguments with
  | .error interruption => return Report.ofInterruption interruption
  | .ok arguments =>
    match ← readFile arguments.file with
    | none => return Report.failure ("cannot read " ++ arguments.file)
    | some image =>
      let outcome := (Computer.ofImage image).reset
      match outcome.fault with
      | some fault => return Report.failure fault.message
      | none =>
        if arguments.debug.isSome then
          return Report.failure "no debugger can be served"
        else
          return Report.ofRun arguments (← finish arguments.steps { computer := outcome.machine })

/-- What the program answers if the files are as given. There is no answer if it does not end. -/
def answer (files : String → Option (List UInt8)) (arguments : List String) : Option Report :=
  invoke (m := Option) (fun path => some (files path)) (fun limit run => run.finish limit) arguments

end M68Fpu.CommandLine
