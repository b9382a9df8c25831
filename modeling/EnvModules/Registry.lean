import EnvModules.Config
import EnvModules.Fault
import EnvModules.Loaded
import EnvModules.Pin

/-!
Finding modules in an ordered list of roots. A file in a root is a module, and a directory is a package
whose files are its versions.
-/

namespace EnvModules

/-- A name and the descriptor that it stands for. -/
structure Resolved where
  name : Name
  path : Path
  deriving DecidableEq, Repr

/-- The modules under one root. -/
structure Listing where
  root : Path
  modules : List String
  deriving DecidableEq, Repr

structure Registry where
  roots : List Path
  deriving DecidableEq, Repr

/-- Where a module with this name lies below a root. -/
def Name.relativePath (n : Name) : Path :=
  match n.version with
  | some version => Path.join ⟨n.package⟩ ⟨version⟩
  | none => ⟨n.package⟩

def pinName : String := ".version"

namespace FileTree

/-- Whether a path leads to a file that begins with the sentinel. -/
def isDescriptor (t : FileTree) (p : Path) : Bool :=
  match t.readBytes p with
  | .ok content => content.extract 0 sentinel.utf8ByteSize == sentinel.toUTF8
  | .error _ => false

/-- The version that a pin binds. -/
def readPin (t : FileTree) (pin : Path) : Except Fault String :=
  match t.readText pin with
  | .error fault => .error (.file fault)
  | .ok source =>
    match Pin.read source with
    | .error fault => .error (.content pin (.text fault))
    | .ok none => .error (.content pin .noVersion)
    | .ok (some version) => .ok version

/-- The default version in the directory of a package: the one that the pin binds, or without a pin the
first in listing order. A directory without versions stands for the package itself. -/
def findDefault (t : FileTree) (directory : Path) (package : String) : Except Fault Resolved :=
  let pin := directory.join ⟨pinName⟩
  if t.isFile pin then do
    let version ← t.readPin pin
    let path := directory.join ⟨version⟩
    if t.pathExists path then .ok ⟨⟨package, some version⟩, path⟩
    else .error (.missingDefault version directory)
  else
    match t.list directory with
    | .error fault => .error (.file fault)
    | .ok entries =>
      match (entries.map Prod.fst).find? (· != pinName) with
      | some version => .ok ⟨⟨package, some version⟩, directory.join ⟨version⟩⟩
      | none => .ok ⟨Name.parse package, directory⟩

end FileTree

namespace Registry

def ofConfig (config : Config) (env : Environment) : Registry := ⟨config.roots env⟩

/-- The first root that has anything under the name decides. What it has must be a descriptor. -/
def resolve (r : Registry) (t : FileTree) (name : Name) : Except Fault (Option Resolved) :=
  match (r.roots.map (·.join name.relativePath)).find? t.pathExists with
  | none => .ok none
  | some candidate => do
    let found ←
      if t.isDirectory candidate then t.findDefault candidate name.package
      else .ok ⟨name, candidate⟩
    if t.isDescriptor found.path then .ok (some found)
    else .error (.content found.path .notModule)

/-- Resolves the loaded module that a name refers to. -/
def findLoaded (r : Registry) (t : FileTree) (loaded : Loaded) (name : Name) :
    Except Fault (Option Resolved) :=
  match loaded.find? name with
  | some entry => r.resolve t entry
  | none => .ok none

/-- Whether a path leads to a descriptor that a listing shows under a name. -/
def lists (t : FileTree) (path : Path) (name : String) : Bool :=
  name != pinName && t.isDescriptor path

/-- The versions in the directory of a package, with a mark on the default one. -/
def listPackage (t : FileTree) (directory : Path) (package : String) : List String :=
  match t.list directory with
  | .error _ => []
  | .ok entries =>
    let default := (t.findDefault directory package).toOption.map Resolved.name
    ((entries.map Prod.fst).filter fun version => lists t (directory.join ⟨version⟩) version).map
      fun version =>
        let name : Name := ⟨package, some version⟩
        if default = some name then name.text ++ "(default)" else name.text

/-- The modules under a root: its files, and the files of its directories. A link back to the root is
passed over. -/
def listRoot (t : FileTree) (root : Path) : List String :=
  match t.list root with
  | .error _ => []
  | .ok entries =>
    let names := entries.map Prod.fst
    let found := names.flatMap fun name =>
      let path := root.join ⟨name⟩
      if t.isDirectory path then
        if (t.locate path).toOption = (t.locate root).toOption then [] else listPackage t path name
      else if lists t path name then [name]
      else []
    found.mergeSort fun a b => decide (a ≤ b)

/-- The modules under every root that is a directory. There has to be one at least. -/
def available (r : Registry) (t : FileTree) : Except Fault (List Listing) :=
  let listings := (r.roots.filter t.isDirectory).map fun root => ⟨root, listRoot t root⟩
  if listings.all (·.modules.isEmpty) then .error .noneAvailable else .ok listings

end Registry

end EnvModules
