/-!
# Arguments of the command line

The command line names one image and takes four options, three of them with a value. Arguments are
read from left to right, and the first that is wrong or asks for information ends the reading.
-/

namespace M68Fpu.CommandLine

/-! ## Options -/

/-- The options that take a value. -/
inductive ValueOption where
  | debug
  | steps
  | log
  deriving DecidableEq, Repr

def ValueOption.name : ValueOption → String
  | debug => "--debug"
  | steps => "--steps"
  | log => "--log"

/-- What a valid command line asks for. -/
structure Arguments where
  file : String
  /-- The address at which to serve a debugger. -/
  debug : Option String
  steps : Option Nat
  log : Option String
  /-- Whether to print the FPU registers at the end. -/
  dump : Bool
  deriving DecidableEq, Repr

/-! ## The ends of a reading -/

/-- What is wrong with a command line. -/
inductive Misuse where
  | unknown (argument : String)
  | repeated (option : String)
  | missingValue (option : String)
  | unexpectedValue (option : String)
  | invalidCount (text : String)
  | emptyFile
  | missingFile
  deriving DecidableEq, Repr

def Misuse.message : Misuse → String
  | unknown argument => "unexpected argument " ++ argument
  | repeated option => "option " ++ option ++ " is given twice"
  | missingValue option => "option " ++ option ++ " needs a value"
  | unexpectedValue option => "option " ++ option ++ " takes no value"
  | invalidCount text => "not a number of steps: " ++ text
  | emptyFile => "the path of the image is empty"
  | missingFile => "the path of the image is missing"

/-- What ends the reading of the arguments before they are all read. -/
inductive Interruption where
  | version
  | help
  | misuse (cause : Misuse)
  deriving DecidableEq, Repr

/-! ## Single arguments -/

/-- What an argument is by its form alone. -/
inductive Form where
  | positional
  /-- The end of the options: all that follows is positional. -/
  | separator
  /-- An option with a value, in the same argument or not. -/
  | valued (option : ValueOption) (attached : Option String)
  | dump
  | version
  | help
  | wrong (cause : Misuse)
  deriving DecidableEq, Repr

/-- An option that takes no value, given under its full name. -/
def flagForm (name : String) (form : Form) (attached : Option String) : Form :=
  match attached with
  | none => form
  | some _ => .wrong (.unexpectedValue name)

/-- The form of an argument that starts with two dashes. A value follows the first equals sign. -/
def longForm (argument : String) (text : List Char) : Form :=
  let name := String.ofList (text.takeWhile (· != '='))
  let attached :=
    match text.dropWhile (· != '=') with
    | [] => none
    | _ :: value => some (String.ofList value)
  match name with
  | "debug" => .valued .debug attached
  | "steps" => .valued .steps attached
  | "log" => .valued .log attached
  | "dump" => flagForm "--dump" .dump attached
  | "version" => flagForm "--version" .version attached
  | "help" => flagForm "--help" .help attached
  | _ => .wrong (.unknown argument)

/-- The value right behind a one-letter option; an equals sign before it is not part of it. -/
def attachedValue : List Char → Option String
  | [] => none
  | '=' :: value => some (String.ofList value)
  | value => some (String.ofList value)

/-- The form of an argument that starts with one dash and a letter. A flag takes effect before the
letters after it are read. -/
def shortForm (argument : String) (letter : Char) (rest : List Char) : Form :=
  match letter with
  | 'd' => .valued .debug (attachedValue rest)
  | 's' => .valued .steps (attachedValue rest)
  | 'V' => .version
  | 'h' => .help
  | _ => .wrong (.unknown argument)

/-- The form of an argument. A single dash is positional. -/
def form (argument : String) : Form :=
  match argument.toList with
  | ['-', '-'] => .separator
  | '-' :: '-' :: text => longForm argument text
  | '-' :: letter :: rest => shortForm argument letter rest
  | _ => .positional

/-! ## Counts -/

def maxCount : Nat := 0xFFFFFFFFFFFFFFFF

/-- A count of steps: decimal digits, after a plus sign or not, up to the largest count. -/
def parseCount (text : String) : Option Nat :=
  let digits :=
    match text.toList with
    | '+' :: rest => rest
    | digits => digits
  if digits.isEmpty || !digits.all Char.isDigit then none
  else
    let count := digits.foldl (fun count digit => count * 10 + (digit.toNat - '0'.toNat)) 0
    if count ≤ maxCount then some count else none

/-! ## Sequences of arguments -/

/-- What has been read so far. -/
structure Draft where
  file : Option String := none
  debug : Option String := none
  steps : Option Nat := none
  log : Option String := none
  dump : Bool := false
  deriving DecidableEq, Repr

namespace Draft

/-- An option that can be given once. -/
def once {α : Type} (option : ValueOption) (old : Option α) (value : α) :
    Except Interruption (Option α) :=
  match old with
  | none => .ok (some value)
  | some _ => .error (.misuse (.repeated option.name))

def give (draft : Draft) (option : ValueOption) (value : String) : Except Interruption Draft :=
  match option with
  | .debug => return { draft with debug := ← once option draft.debug value }
  | .log => return { draft with log := ← once option draft.log value }
  | .steps =>
    match parseCount value with
    | some count => return { draft with steps := ← once option draft.steps count }
    | none => .error (.misuse (.invalidCount value))

def giveFile (draft : Draft) (path : String) : Except Interruption Draft :=
  match draft.file with
  | some _ => .error (.misuse (.unknown path))
  | none => if path.isEmpty then .error (.misuse .emptyFile) else .ok { draft with file := some path }

def giveDump (draft : Draft) : Except Interruption Draft :=
  if draft.dump then .error (.misuse (.repeated "--dump")) else .ok { draft with dump := true }

/-- Reads arguments of which all are positional. -/
def readPositional (draft : Draft) (arguments : List String) : Except Interruption Draft :=
  arguments.foldlM giveFile draft

/-- Reads arguments. The value of an option can be the next argument if that is positional by its
form. -/
def read (draft : Draft) : (arguments : List String) → Except Interruption Draft
  | [] => .ok draft
  | argument :: rest =>
    match form argument with
    | .positional => do read (← draft.giveFile argument) rest
    | .separator => draft.readPositional rest
    | .dump => do read (← draft.giveDump) rest
    | .version => .error .version
    | .help => .error .help
    | .wrong cause => .error (.misuse cause)
    | .valued option (some value) => do read (← draft.give option value) rest
    | .valued option none =>
      match rest with
      | [] => .error (.misuse (.missingValue option.name))
      | value :: rest =>
        match form value with
        | .positional => do read (← draft.give option value) rest
        | _ => .error (.misuse (.missingValue option.name))

/-- What the arguments ask for, if they name an image. -/
def finish (draft : Draft) : Except Interruption Arguments :=
  match draft.file with
  | some file => .ok { file, debug := draft.debug, steps := draft.steps, log := draft.log,
                       dump := draft.dump }
  | none => .error (.misuse .missingFile)

end Draft

/-- What a command line asks for. -/
def Arguments.parse (arguments : List String) : Except Interruption Arguments := do
  (← Draft.read {} arguments).finish

end M68Fpu.CommandLine
