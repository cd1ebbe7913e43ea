import LevelSchema.CommandLine.Arguments
import LevelSchema.Publication
import LevelSchema.Session
import LevelSchema.Settings.Decode
import LevelSchema.Toml.Document

/-!
# Running a command line

A run looks for its configuration, reads the schema, compiles it and publishes the result.  Nothing
is written before the schema has been compiled, and nothing at all if it is only checked.

**Configuration.**  A file named on the command line has to exist.  Otherwise the configuration of
the working directory is used, else that of the user, else the defaults.
-/

namespace LevelSchema.CommandLine

variable {δ : Type} {m : Type → Type} [Monad m] [Files δ m]

/-- The configuration of the working directory. -/
def localConfig : String := "semio/config.toml"

/-- What a run ends with. -/
structure Outcome where
  result : Except Failure Unit
  warnings : List Diagnostic

/-- Read a file as text. -/
def readText (path : String) : ExceptT Failure m String := do
  match ← Files.readText (m := m) (Path.ofText path) with
  | .ok text => return text
  | .error e => throw (.file e)

/-- Whether a path names a file or directory. -/
def isPresent (path : String) : ExceptT Failure m Bool :=
  ExceptT.lift (Files.isPresent (Path.ofText path))

/-- How the text of a configuration file is read. -/
abbrev SettingsReader := String → Option Settings

/-- Configuration files are written in TOML. -/
def readToml : SettingsReader := fun text =>
  Toml.ofText? text >>= Settings.ofValue? .toml

/-- The settings in a configuration file. -/
def readSettings (reader : SettingsReader) (path : String) : ExceptT Failure m Settings := do
  if ← isPresent path then
    let text ← readText path
    match reader text with
    | some settings => return settings
    | none => throw (.config (.unreadable path))
  else
    throw (.config (.missing path))

/-- The settings of a run; `userConfig` is where the user's configuration would be. -/
def findSettings (reader : SettingsReader) (userConfig : Option String)
    (explicit : Option String) : ExceptT Failure m Settings := do
  match explicit with
  | some path => readSettings reader path
  | none =>
      if ← isPresent localConfig then readSettings reader localConfig
      else
        match userConfig with
        | some path => if ← isPresent path then readSettings reader path else return {}
        | none => return {}

/-- The session and the source of a run. -/
def prepare (reader : SettingsReader) (userConfig : Option String) (arguments : Arguments) :
    ExceptT Failure m (Session × String) := do
  let settings ← findSettings reader userConfig arguments.config
  let source ← readText arguments.input
  match Session.start settings with
  | .ok session => return (session, source)
  | .error e => throw e

/-- Run a command line, whatever configuration files are written in. -/
def runWith (reader : SettingsReader) (userConfig : Option String) (arguments : Arguments) :
    m Outcome := do
  match ← (prepare reader userConfig arguments).run with
  | .error e => return ⟨.error e, []⟩
  | .ok (session, source) =>
      if arguments.check then
        let reply := session.check source
        return ⟨reply.result.map fun _ => (), reply.warnings⟩
      else
        let reply := session.compile source
        match reply.result with
        | .error e => return ⟨.error e, reply.warnings⟩
        | .ok artifact =>
            let published ← artifact.publish (Path.ofText arguments.output)
            return ⟨published.mapError .file, reply.warnings⟩

/-- Run a command line. -/
def run (userConfig : Option String) (arguments : Arguments) : m Outcome :=
  runWith readToml userConfig arguments

end LevelSchema.CommandLine
