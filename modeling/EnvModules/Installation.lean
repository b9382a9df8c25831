import EnvModules.Config
import EnvModules.Descriptor
import EnvModules.FileTree
import EnvModules.Text.Wildcard

/-!
The directories of an installation that are worth recording.
-/

namespace EnvModules

namespace FileTree

/-- Whether a directory holds a file. A link to one does not count. -/
def holdsFile (t : FileTree) (p : Path) : Bool :=
  match t.list p with
  | .ok entries => entries.any fun e => match e.2 with
    | .file _ => true
    | _ => false
  | .error _ => false

def holdsEntry (t : FileTree) (p : Path) : Bool :=
  match t.list p with
  | .ok entries => !entries.isEmpty
  | .error _ => false

/-- The entries of a directory whose names match, in the order of names. -/
def matching (t : FileTree) (directory : Path) (pattern : List Char) : List Path :=
  match t.list directory with
  | .error _ => []
  | .ok entries =>
    let names := (entries.map Prod.fst).filter fun name => Text.wildcardMatches pattern name.toList
    (names.mergeSort fun a b => decide (a ≤ b)).map fun name => directory.join ⟨name⟩

/-- Follows the segments of a pattern. One without a star is taken as it is, whether there is such an
entry or not. -/
def followPattern (t : FileTree) (reached : List Path) : List (List Char) → List Path
  | [] => reached
  | segment :: rest =>
    let next :=
      if segment.contains '*' then reached.flatMap (t.matching · segment)
      else reached.map (·.join ⟨String.ofList segment⟩)
    t.followPattern next rest

/-- The paths below a root that a pattern with stars stands for. -/
def expandPattern (t : FileTree) (root : Path) (pattern : String) : List Path :=
  t.followPattern [root] ((Text.fields (· == '/') pattern.toList).filter (!·.isEmpty))

/-- The first of some directories below a root that is usable. -/
def firstUsable (usable : Path → Bool) (root : Path) (candidates : List String) : List Path :=
  ((candidates.map fun candidate => root.join ⟨candidate⟩).find? usable).toList

/-- The usable directories of an installation, each with its location. -/
def installation (t : FileTree) (s : Subdirectories) (root : Path) : List (Location × Path) :=
  (firstUsable t.holdsFile root s.bin).map (Location.bin, ·) ++
    (firstUsable t.holdsFile root s.lib).map (Location.lib, ·) ++
    (firstUsable t.holdsEntry root s.headers).map (Location.headers, ·) ++
    (firstUsable t.holdsEntry root s.man).map (Location.man, ·) ++
    ((s.python.flatMap (t.expandPattern root)).filter t.holdsEntry).map (Location.python, ·)

end FileTree

/-- What the variable for a location of a package ends in. -/
def Location.ending : Location → String
  | .bin => "BIN_PATH"
  | .lib => "LIB_PATH"
  | .headers => "INCLUDE_PATH"
  | .man => "MAN_PATH"
  | .python => "PYTHON_PATH"

/-- The list variable that all packages share for a location. Headers have none. -/
def Config.sharedVariable? (config : Config) : Location → Option String
  | .bin => some "PATH"
  | .lib => some config.libraryVariable
  | .headers => none
  | .man => some "MANPATH"
  | .python => some "PYTHONPATH"

end EnvModules
