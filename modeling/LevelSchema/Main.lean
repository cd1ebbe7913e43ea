import LevelSchema.CommandLine.Run

/-!
# The program

The command line on real files: file operations are those of the system, the user's configuration is
where the environment says, and messages go to the standard error output.
-/

namespace LevelSchema.CommandLine

/-- How the program is called. -/
def usage : String :=
  "Usage: semio [OPTIONS] <INPUT>\n\n" ++
  "Arguments:\n" ++
  "  <INPUT>  Path to the input schema\n\n" ++
  "Options:\n" ++
  "  -o, --output <OUTPUT>        [default: model.rs]\n" ++
  "  -c, --config <CONFIG>\n" ++
  "      --log-level <LOG_LEVEL>  [default: info]\n" ++
  "      --check\n" ++
  "  -h, --help                   Print help\n" ++
  "  -V, --version                Print version"

/-- The name and version of the program. -/
def versionText : String := "semio 0.1.0"

/-- What is said about a failure, line by line. -/
def failureLines (e : Failure) : List String :=
  match e with
  | .schema rejection _ =>
      rejection.diagnostics.flatMap fun d =>
        d.display :: (d.help.map ("  help: " ++ ·)).toList
  | _ => ("error: " ++ e.display) :: (e.help?.map ("  help: " ++ ·)).toList

/-! ## Files of the system -/

/-- Why a system operation failed. -/
def fileError : IO.Error → FileError
  | .noFileOrDirectory .. | .noSuchThing .. => .notFound
  | .alreadyExists .. => .alreadyExists
  | .resourceBusy .. => .busy
  | e => .other (toString e)

/-- Do something with the files of the system, and keep the error if it fails. -/
def attempt {α : Type} (action : IO α) : IO (Except FileError α) := do
  try
    return .ok (← action)
  catch e =>
    return .error (fileError e)

/-- Put contents into a new file of a directory. -/
def stageFile (directory : Path) (contents : ByteArray) : IO Path := do
  let draft := directory.child (".tmp" ++ toString (← IO.rand 0 999999999999))
  IO.FS.withFile draft.toText .writeNew fun handle => do
    handle.write contents
    handle.flush
  return draft

instance : Files Path IO where
  isPresent p := do
    if p.isEmpty then return false else ((← IO.currentDir) / p.toText).pathExists
  read p := attempt (IO.FS.readBinFile p.toText)
  makeDirectories p := attempt (if p.isEmpty then pure () else IO.FS.createDirAll p.toText)
  stage directory contents := attempt (stageFile directory contents)
  move draft target := attempt (IO.FS.rename draft.toText target.toText)
  discard draft := do
    let _ ← attempt (IO.FS.removeFile draft.toText)

/-- Where the user's configuration would be. -/
def userConfig : IO (Option String) := do
  match ← IO.getEnv "XDG_CONFIG_HOME" with
  | some directory =>
      if (Path.ofText directory).isAbsolute then return some (directory ++ "/semio/config.toml")
      else homeConfig
  | none => homeConfig
where
  homeConfig : IO (Option String) := do
    return (← IO.getEnv "HOME").map (· ++ "/.config/semio/config.toml")

end LevelSchema.CommandLine

open LevelSchema LevelSchema.CommandLine in
/-- Compile the schema that the command line names. -/
def main (arguments : List String) : IO UInt32 := do
  match Arguments.ofList arguments with
  | .error .help =>
      IO.println usage
      return 0
  | .error .version =>
      IO.println versionText
      return 0
  | .error e =>
      IO.eprintln ("error: " ++ e.label ++ "\n\n" ++ usage)
      return 2
  | .ok arguments =>
      let outcome ← run (← userConfig) arguments
      outcome.warnings.forM fun d => IO.eprintln d.display
      match outcome.result with
      | .ok () => return 0
      | .error e =>
          (failureLines e).forM IO.eprintln
          return 1
