/-!
# Command-line arguments

The command line names a schema to compile, and may say where the result goes, which configuration
to use, how much to log, and whether to check only.

Arguments are read from left to right.  A value may be **attached** to its option or be the next
argument; in that case the option is **open** until something else is recognised, and only then it
is known whether it has its value and was given just once.  An argument that is not recognised is
reported even if an open option has a mistake.

After `--` every argument is a plain word.
-/

namespace LevelSchema.CommandLine

/-- What to do. -/
structure Arguments where
  input : String
  output : String
  config : Option String
  logLevel : String
  check : Bool
deriving DecidableEq

/-- Why there is nothing to run. -/
inductive UsageError
  | missingInput
  | unknownArgument
  | missingValue
  | repeated
  | unexpectedValue
  | help
  | version
deriving DecidableEq

/-- The name of a usage error. -/
def UsageError.label : UsageError → String
  | .missingInput => "MissingRequiredArgument"
  | .unknownArgument => "UnknownArgument"
  | .missingValue => "InvalidValue"
  | .repeated => "ArgumentConflict"
  | .unexpectedValue => "TooManyValues"
  | .help => "DisplayHelp"
  | .version => "DisplayVersion"

/-- The options that have a value. -/
inductive Setting
  | output
  | config
  | logLevel
deriving DecidableEq

/-- What an argument can ask for by name. -/
inductive Request
  | setting (setting : Setting)
  | check
  | help
  | version

/-- What a long name asks for. -/
def Request.ofName? : String → Option Request
  | "output" => some (.setting .output)
  | "config" => some (.setting .config)
  | "log-level" => some (.setting .logLevel)
  | "check" => some .check
  | "help" => some .help
  | "version" => some .version
  | _ => none

/-- What a letter asks for. -/
def Request.ofLetter? : Char → Option Request
  | 'o' => some (.setting .output)
  | 'c' => some (.setting .config)
  | 'h' => some .help
  | 'V' => some .version
  | _ => none

/-! ## Reading one argument -/

/-- What has been read so far.  An open option comes with its value, once it has one. -/
structure Progress where
  input : Option String
  values : List (Setting × String)
  check : Bool
  opened : Option (Setting × Option String)
  wordsOnly : Bool

namespace Progress

/-- Nothing has been read. -/
def initial : Progress :=
  ⟨none, [], false, none, false⟩

/-- Give an option its value. -/
def assign (p : Progress) (setting : Setting) (value : String) : Except UsageError Progress :=
  if (p.values.lookup setting).isSome then .error .repeated
  else .ok { p with values := (setting, value) :: p.values }

/-- Finish the open option. -/
def settle (p : Progress) : Except UsageError Progress :=
  match p.opened with
  | none => .ok p
  | some (_, none) => .error .missingValue
  | some (setting, some value) => { p with opened := none }.assign setting value

/-- Act on a request, with the value that is attached to it. -/
def act (p : Progress) (value : Option String) : Request → Except UsageError Progress
  | .setting setting => do
      let p ← p.settle
      match value with
      | some value => p.assign setting value
      | none => return { p with opened := some (setting, none) }
  | .check => do
      let p ← p.settle
      if p.check then .error .repeated else return { p with check := true }
  | .help => do
      let _ ← p.settle
      .error .help
  | .version => do
      let _ ← p.settle
      .error .version

/-- Read an argument `--name` or `--name=value`. -/
def readLong (p : Progress) (cs : List Char) : Except UsageError Progress :=
  let name := String.ofList (cs.takeWhile (· ≠ '='))
  let value :=
    match cs.dropWhile (· ≠ '=') with
    | [] => none
    | _ :: rest => some (String.ofList rest)
  match Request.ofName? name with
  | none => .error .unknownArgument
  | some (.setting setting) => p.act value (.setting setting)
  | some request => if value.isSome then .error .unexpectedValue else p.act none request

/-- Read an argument `-x`, where a value may directly follow the letter, or follow a `=`. -/
def readShort (p : Progress) (letter : Char) (rest : List Char) : Except UsageError Progress :=
  let value :=
    match rest with
    | [] => none
    | '=' :: rest => some (String.ofList rest)
    | rest => some (String.ofList rest)
  match Request.ofLetter? letter with
  | none => .error .unknownArgument
  | some request => p.act value request

/-- Read a word that stands for itself: the input, and nothing after it. -/
def readInput (p : Progress) (word : String) : Except UsageError Progress :=
  if p.input.isSome then .error .unknownArgument
  else do
    let p ← p.settle
    return { p with input := some word }

/-- Read a word: the value of the option before it, or the input. -/
def readWord (p : Progress) (word : String) : Except UsageError Progress :=
  match p.opened with
  | some (setting, none) => .ok { p with opened := some (setting, some word) }
  | _ => p.readInput word

/-- Read an argument. -/
def read (p : Progress) (argument : String) : Except UsageError Progress :=
  if p.wordsOnly then p.readInput argument
  else
    match argument.toList with
    | ['-', '-'] => .ok { p with wordsOnly := true }
    | '-' :: '-' :: cs => p.readLong cs
    | '-' :: c :: cs => p.readShort c cs
    | _ => p.readWord argument

/-- Finish reading. -/
def finish (p : Progress) : Except UsageError Arguments := do
  let p ← p.settle
  match p.input with
  | none => .error .missingInput
  | some input =>
      return {
        input
        output := (p.values.lookup .output).getD "model.rs"
        config := p.values.lookup .config
        logLevel := (p.values.lookup .logLevel).getD "info"
        check := p.check }

end Progress

/-- Read a command line, without the name of the program. -/
def Arguments.ofList (arguments : List String) : Except UsageError Arguments := do
  (← arguments.foldlM Progress.read Progress.initial).finish

end LevelSchema.CommandLine
