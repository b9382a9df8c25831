import EnvModules.Environment
import EnvModules.Version

/-!
The loaded modules, as they stand in the list variable that records them.
-/

namespace EnvModules

/-- The list variable that records the loaded modules. -/
def loadedVariable : String := "LOADEDENVMASTER"

structure Loaded where
  /-- The most recently loaded module comes first. -/
  entries : List Name
  deriving DecidableEq, Repr

namespace Loaded

/-- Empty segments stand for no module. -/
def ofEnvironment (env : Environment) : Loaded :=
  ⟨((env.segments loadedVariable).filter (!·.isEmpty)).map Name.parse⟩

def contains (l : Loaded) (n : Name) : Bool := l.entries.contains n

def oldestFirst (l : Loaded) : List Name := l.entries.reverse

/-- The most recent entry of the package, and of the version if one is asked for. -/
def find? (l : Loaded) (requested : Name) : Option Name :=
  l.entries.find? fun entry =>
    entry.package == requested.package &&
      (requested.version.isNone || entry.version == requested.version)

/-- The most recent entry that the policy admits for a request. -/
def findMatching? (l : Loaded) (policy : Policy) (requested : Name) : Option Name :=
  l.entries.find? (policy.admits requested)

/-- The value of the variable for these entries. -/
def value (l : Loaded) : String := ":".intercalate (l.entries.map Name.text)

end Loaded

end EnvModules
