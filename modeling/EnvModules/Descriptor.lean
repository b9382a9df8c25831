import EnvModules.Version

/-!
Module descriptors as statements: what a module sets, what it requires, and under which conditions.
-/

namespace EnvModules

/-- The direction in which a descriptor is evaluated. -/
inductive Mode where
  /-- Changes are made and guards are enforced. -/
  | load
  /-- Changes are taken back. -/
  | unload
  /-- Changes are only reported. -/
  | display
  deriving DecidableEq, Repr

namespace Mode

/-- Whether statements take effect forwards. A display reports them as a load would make them. -/
def isForward : Mode → Bool
  | .unload => false
  | .load | .display => true

def parse? (s : String) : Option Mode :=
  let folded := s.toLower
  if folded = "load" ∨ folded = "loading" then some .load
  else if folded = "unload" ∨ folded = "unloading" then some .unload
  else if folded = "display" ∨ folded = "disp" then some .display
  else none

/-- The text of the refusal of a mode that `parse?` does not know. -/
def unknownMessage (s : String) : String :=
  "Unknown mode '" ++ s ++ "'. Expected load, unload or display."

end Mode

/-- The directories of an installed package that have variables of their own. -/
inductive Location where
  | bin
  | lib
  | man
  | headers
  | python
  deriving DecidableEq, Repr

inductive Condition where
  /-- The variable is set and not empty. -/
  | defined (name : String)
  /-- The two texts are equal once their references are replaced. -/
  | equal (left right : String)
  /-- A module that matches the name is loaded. -/
  | loaded (name : String)
  | mode (mode : Mode)
  | not (condition : Condition)
  deriving DecidableEq, Repr

inductive Statement where
  | setVariable (value name : String)
  /-- Sets a variable that belongs to the package, named by what follows the package's stem. -/
  | setPackageVariable (value ending : String)
  /-- Puts a segment in front of a list variable. -/
  | prependPath (value name : String)
  /-- Records an installation and every usable directory in it. -/
  | installTree (root : String)
  /-- Records one directory of an installation. -/
  | install (location : Location) (directory : String)
  | require (names : List String)
  | conflict (names : List String)
  | load (names : List String)
  | swap (old new : String)
  | describe (text : String)
  /-- Changes the policy for the statements after it. -/
  | matchVersions (policy : Policy)
  /-- Runs the statements of the first branch whose condition holds, or else the others. -/
  | choose (branches : List (Condition × List Statement)) (otherwise : List Statement)
  deriving Repr

end EnvModules
