import EnvModules.Text.Blank
import EnvModules.Text.Split

/-!
Module names: a package, and possibly one of its versions.
-/

namespace EnvModules

open Text

structure Name where
  package : String
  version : Option String
  deriving DecidableEq, Repr

namespace Name

/-- Blanks at both ends and slashes at the end are dropped. What then precedes the first slash is
the package, and what follows it the version. -/
def parse (s : String) : Name :=
  let cs := dropRightWhile (· == '/') (trim s.toList)
  match splitOnce '/' cs with
  | some (package, version) => ⟨String.ofList package, some (String.ofList version)⟩
  | none => ⟨String.ofList cs, none⟩

def text (n : Name) : String :=
  match n.version with
  | some version => n.package ++ "/" ++ version
  | none => n.package

/-- The package in capitals, with an underscore for all but ASCII letters and digits. -/
def stem (n : Name) : String :=
  n.package.map fun c => if c.isAlphanum then c.toUpper else '_'

/-- The name of a variable that belongs to the package. -/
def varName (n : Name) (ending : String) : String := n.stem ++ "_" ++ ending

end Name

end EnvModules
