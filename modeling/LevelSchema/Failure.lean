import LevelSchema.Code.Generate
import LevelSchema.Diagnostic.Report
import LevelSchema.Files.Basic
import LevelSchema.Settings.Basic
import LevelSchema.Stage

/-!
# Failures

Everything that can end a run: a file that cannot be read or written, a schema that is rejected, a
configuration that cannot be used, or a mistake of the compiler itself.  Each is kept as its cause,
and worded here.
-/

namespace LevelSchema

/-- Why a configuration cannot be used. -/
inductive ConfigFault
  | invalid (fault : SettingsFault)
  | missing (path : String)
  | unreadable (path : String)
deriving DecidableEq

/-- What is wrong with a configuration, in words. -/
def ConfigFault.message : ConfigFault → String
  | .invalid fault => fault.message
  | .missing path => "Missing configuration file: " ++ path
  | .unreadable path => "Failed to parse TOML configuration " ++ path

/-- What went wrong inside the compiler. -/
inductive InternalFault
  | refusedMove (current next : Stage)
  | inconsistent (fault : Code.Fault)
deriving DecidableEq

/-- What went wrong inside the compiler, in words. -/
def InternalFault.message : InternalFault → String
  | .refusedMove current next =>
      "compile run cannot move from " ++ current.label ++ " to " ++ next.label
  | .inconsistent fault => "Inconsistent resolved model: " ++ fault.message

/-- Why a run ended without a result.  A rejected schema comes with its source. -/
inductive Failure
  | file (error : FileError)
  | schema (rejection : Rejection) (source : String)
  | config (fault : ConfigFault)
  | internal (fault : InternalFault)
deriving DecidableEq

namespace Failure

/-- A failure on one line. -/
def display : Failure → String
  | .file error => "I/O error: " ++ error.label
  | .schema rejection _ => rejection.display
  | .config fault => "Configuration error: " ++ fault.message
  | .internal fault => "Internal error: " ++ fault.message

/-- The code of a failure that is not about the schema. -/
def code? : Failure → Option String
  | .file _ => some "semio::io"
  | .schema _ _ => none
  | .config _ => some "semio::config"
  | .internal _ => some "semio::internal"

/-- What to do about a failure that is not about the schema. -/
def help? : Failure → Option String
  | .internal _ => some "the schema resolved but could not be emitted; please report this"
  | _ => none

end Failure

end LevelSchema
