import EnvModules.Bindings
import EnvModules.Text.Quoted

/-!
The commands by which other interpreters change their environment.
-/

namespace EnvModules

open Text

/-- What becomes of one variable. -/
inductive Change where
  | assign (value : String)
  | unset
  deriving DecidableEq, Repr

inductive Dialect where
  | posix
  | csh
  | dos
  | python
  | r
  deriving DecidableEq, Repr

namespace Dialect

def quoted (value : String) : String := String.ofList (singleQuoted value.toList)

def literal (value : String) : String := String.ofList (Text.literal value.toList)

/-- In a batch file only the percent sign is special inside the quotes of a `set`. -/
def doubledPercent (value : String) : String :=
  String.ofList (value.toList.flatMap fun c => if c = '%' then ['%', '%'] else [c])

def assign (d : Dialect) (name value : String) : String :=
  match d with
  | posix => "export " ++ name ++ "=" ++ quoted value ++ ";"
  | csh => "setenv " ++ name ++ " " ++ quoted value ++ ";"
  | dos => "set \"" ++ name ++ "=" ++ doubledPercent value ++ "\""
  | python => "os.environ[" ++ literal name ++ "] = " ++ literal value
  | r => "Sys.setenv(" ++ literal name ++ " = " ++ literal value ++ ")"

def unset (d : Dialect) (name : String) : String :=
  match d with
  | posix => "unset " ++ name ++ ";"
  | csh => "unsetenv " ++ name ++ ";"
  | dos => "set " ++ name ++ "="
  | python => "os.environ.pop(" ++ literal name ++ ", None)"
  | r => "Sys.unsetenv(" ++ literal name ++ ")"

/-- A line that goes before the commands. -/
def preamble? : Dialect → Option String
  | python => some "import os"
  | _ => none

def command (d : Dialect) (name : String) : Change → String
  | .assign value => d.assign name value
  | .unset => d.unset name

/-- The commands of a batch, one to a line and in the order of names. An empty batch has no text. -/
def script (d : Dialect) (batch : Bindings Change) : String :=
  if batch.isEmpty then ""
  else
    String.join ((d.preamble?.toList ++ batch.entries.map fun e => d.command e.1 e.2).map (· ++ "\n"))

end Dialect

end EnvModules
