import EnvModules.Descriptor.Fault
import EnvModules.FileTree

/-!
Why an operation fails.
-/

namespace EnvModules

/-- What is wrong with a file that a module or a pin was expected in. -/
inductive FileContentFault where
  | notModule
  | text (fault : TextFault)
  | noVersion
  deriving DecidableEq, Repr

/-- Why a configuration cannot be used. -/
inductive ConfigFault where
  | unreadable (path : Path) (fault : FileFault)
  /-- An unknown key is named, together with the keys that there could be. -/
  | malformed (path : Path) (unknownKey : Option (String × List String))
  deriving DecidableEq, Repr

inductive Fault where
  | noModule (name : String)
  | content (path : Path) (fault : FileContentFault)
  | missingRoot (path : Path)
  | missingDefault (version : String) (directory : Path)
  | unmetPrerequisite (subject : Name) (required : List String)
  | conflict (subject conflicting : Name)
  | noneAvailable
  | unknownDialect (name : String)
  | tooDeep (names : List String)
  | config (fault : ConfigFault)
  | file (fault : FileFault)
  | streamClosed
  deriving DecidableEq, Repr

/-- How deep loads and swaps inside descriptors may nest. -/
def nestingLimit : Nat := 32

/-- The dialect names that are understood. -/
def dialectNames : List String :=
  ["bash", "sh", "zsh", "ksh", "csh", "tcsh", "dos", "cmd", "python", "r", "silent", "pythonsilent",
    "host", "disp"]

def FileContentFault.message : FileContentFault → String
  | .notModule => "not a module file"
  | .text fault => fault.message
  | .noVersion => "variable 'version' is not set"

def ConfigFault.message : ConfigFault → String
  | .unreadable path fault =>
    "Failed to read configuration file '" ++ path.text ++ "': " ++ fault.message
  | .malformed path unknownKey =>
    let known (key : String) : String := "`" ++ key ++ "`"
    "Failed to parse TOML file at '" ++ path.text ++ "'" ++
      match unknownKey with
      | none => ""
      | some (key, keys) =>
        ": unknown field " ++ known key ++ ", expected one of " ++ ", ".intercalate (keys.map known)

def Fault.message : Fault → String
  | .noModule name => "Can't find module '" ++ name ++ "'"
  | .content path fault => "Failed to parse '" ++ path.text ++ "': " ++ fault.message
  | .missingRoot path => "Can't find " ++ path.text
  | .missingDefault version directory =>
    "Unable to find default module version " ++ version ++ " in '" ++ directory.text ++ "'"
  | .unmetPrerequisite subject required =>
    "None of the specified prerequisites (" ++ ",".intercalate required ++ ") required for module " ++
      subject.text ++ " are loaded"
  | .conflict subject conflicting =>
    "Module " ++ conflicting.text ++ " already loaded which is listed as a conflict for module " ++
      subject.text
  | .noneAvailable => "No module files found"
  | .unknownDialect name =>
    "Unknown shell '" ++ name ++ "'. Expected one of: " ++ ", ".intercalate dialectNames
  | .tooDeep names =>
    "Maximum module nesting depth (" ++ toString nestingLimit ++ ") exceeded while loading '" ++
      " ".intercalate names ++ "'. Check for cycles."
  | .config fault => fault.message
  | .file fault => "I/O error: " ++ fault.message
  | .streamClosed => "I/O error: stream closed"

/-- The message of what lies behind a fault, if that is known. -/
def Fault.cause? : Fault → Option String
  | .config (.unreadable _ fault) => some fault.message
  | .file fault => some fault.message
  | .streamClosed => some "stream closed"
  | _ => none

/-- The message, and after it the message of what lies behind. -/
def Fault.account (f : Fault) : String :=
  match f.cause? with
  | some cause => f.message ++ ": " ++ cause
  | none => f.message

end EnvModules
