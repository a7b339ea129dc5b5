import M68Fpu.CommandLine.Invocation

/-!
# The program

Reading the image, stepping to the end, printing.
-/

namespace M68Fpu.CommandLine

/-- Steps a run to its end. This goes on for ever if it has none. -/
def finishRun (limit : Option Nat) (run : Run) : IO Run := return (run.finish limit).getD run

/-- The bytes of a file, unless it cannot be read. -/
def readImage (path : String) : IO (Option (List UInt8)) := do
  try
    return some (← IO.FS.readBinFile path).toList
  catch _ =>
    return none

end M68Fpu.CommandLine

open M68Fpu.CommandLine in
/-- Runs the command line. -/
def main (arguments : List String) : IO UInt32 := do
  let report ← invoke readImage finishRun arguments
  IO.print report.output
  unless report.diagnostic.isEmpty do IO.eprintln report.diagnostic
  return report.exitCode.toUInt32
