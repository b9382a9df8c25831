import EnvModules.Path

/-!
A file tree with symbolic links, and walks through it.
-/

namespace EnvModules

inductive Node where
  | file (content : ByteArray)
  | link (target : Path)
  | directory (entries : List (String × Node))

instance : Inhabited Node := ⟨.directory []⟩

namespace Node

/-- Of two entries with one name the first counts. -/
def distinct : List (String × Node) → List (String × Node)
  | [] => []
  | e :: rest => e :: (distinct rest).filter (·.1 != e.1)

/-- The node at the end of a chain of names, each an entry of the directory before it. -/
def descend? (n : Node) : List String → Option Node
  | [] => some n
  | name :: names =>
    match n with
    | .directory entries => (entries.lookup name).bind (·.descend? names)
    | _ => none

/-- Puts a node at the end of a chain of names. Directories that the chain lacks are made, and what is
no directory on the way gives place to one. -/
def put (n new : Node) : List String → Node
  | [] => new
  | name :: names =>
    let entries := match n with
      | .directory entries => entries
      | _ => []
    let child := ((entries.lookup name).getD (.directory [])).put new names
    .directory (replace name child entries)
where
  replace (name : String) (child : Node) : List (String × Node) → List (String × Node)
    | [] => [(name, child)]
    | e :: rest => if e.1 = name then (name, child) :: rest else e :: replace name child rest

def remove (n : Node) : List String → Node
  | [] => n
  | [name] =>
    match n with
    | .directory entries => .directory (entries.filter (·.1 != name))
    | _ => n
  | name :: names =>
    match n with
    | .directory entries =>
      .directory (entries.map fun e => if e.1 = name then (e.1, e.2.remove names) else e)
    | _ => n

end Node

/-- Why a walk or a read fails. -/
inductive FileFault where
  | missing
  | notDirectory
  | isDirectory
  | tooManyLinks
  | nameTooLong
  | nulInName
  | notText
  deriving DecidableEq, Repr

def FileFault.message : FileFault → String
  | .missing => "No such file or directory (os error 2)"
  | .notDirectory => "Not a directory (os error 20)"
  | .isDirectory => "Is a directory (os error 21)"
  | .tooManyLinks => "Too many levels of symbolic links (os error 40)"
  | .nameTooLong => "File name too long (os error 36)"
  | .nulInName => "file name contained an unexpected NUL byte"
  | .notText => "stream did not contain valid UTF-8"

/-- A place in the tree: the names from the root down. -/
abbrev Place := List String

structure FileTree where
  root : Node
  /-- Where relative paths start. -/
  here : Place

namespace FileTree

/-- A tree with nothing but the directory where relative paths start. -/
def startingAt (here : Place) : FileTree := ⟨(Node.directory []).put (.directory []) here, here⟩

/-- How many bytes one name may have. -/
def nameLimit : Nat := 255

/-- Walks from a place along names. At a link the walk is handed over, with the place that holds the
link, its target and the names still to go. -/
def walk (t : FileTree) (follow : Place → Path → List String → Except FileFault Place) (dir : Place) :
    List String → Except FileFault Place
  | [] => .ok dir
  | name :: names =>
    match t.root.descend? dir with
    | some (.directory entries) =>
      if name = "." then t.walk follow dir names
      else if name = ".." then t.walk follow dir.dropLast names
      else if nameLimit < name.utf8ByteSize then .error .nameTooLong
      else
        match entries.lookup name with
        | none => .error .missing
        | some (.link target) => follow dir target names
        | some _ => t.walk follow (dir ++ [name]) names
    | some _ => .error .notDirectory
    | none => .error .missing

/-- Walks on, with a limit on the links that are followed. -/
def walkLinks (t : FileTree) : Nat → Place → List String → Except FileFault Place
  | 0 => t.walk fun _ _ _ => .error .tooManyLinks
  | links + 1 => t.walk fun dir target names =>
      t.walkLinks links (if target.isAbsolute then [] else dir) (target.components ++ names)

/-- The number of links one path may lead through. -/
def linkLimit : Nat := 40

/-- How many bytes a path may have as it is written. -/
def pathLimit : Nat := 4095

/-- Where a path leads. -/
def locate (t : FileTree) (p : Path) : Except FileFault Place :=
  if p.text.toList.contains '\x00' then .error .nulInName
  else if p.text.isEmpty then .error .missing
  else if pathLimit < p.text.utf8ByteSize then .error .nameTooLong
  else t.walkLinks linkLimit (if p.isAbsolute then [] else t.here) p.components

def node (t : FileTree) (p : Path) : Except FileFault Node :=
  (t.locate p).bind fun place =>
    match t.root.descend? place with
    | some n => .ok n
    | none => .error .missing

def pathExists (t : FileTree) (p : Path) : Bool := (t.node p).isOk

def isFile (t : FileTree) (p : Path) : Bool :=
  match t.node p with
  | .ok (.file _) => true
  | _ => false

def isDirectory (t : FileTree) (p : Path) : Bool :=
  match t.node p with
  | .ok (.directory _) => true
  | _ => false

def readBytes (t : FileTree) (p : Path) : Except FileFault ByteArray :=
  match t.node p with
  | .ok (.file content) => .ok content
  | .ok _ => .error .isDirectory
  | .error fault => .error fault

def readText (t : FileTree) (p : Path) : Except FileFault String :=
  (t.readBytes p).bind fun content =>
    match String.fromUTF8? content with
    | some text => .ok text
    | none => .error .notText

/-- The entries of a directory in listing order. Links are listed as links. -/
def list (t : FileTree) (p : Path) : Except FileFault (List (String × Node)) :=
  match t.node p with
  | .ok (.directory entries) => .ok (Node.distinct entries)
  | .ok _ => .error .notDirectory
  | .error fault => .error fault

/-- The place a chain of names leads to from another place, with directories made where it leads
nowhere. -/
def ensure (t : FileTree) (dir : Place) : List String → FileTree × Place
  | [] => (t, dir)
  | name :: names =>
    match t.walkLinks linkLimit dir [name] with
    | .ok place => t.ensure place names
    | .error _ =>
      { t with root := t.root.put (.directory []) (dir ++ [name]) }.ensure (dir ++ [name]) names

/-- The directory that a path starts from. -/
def start (t : FileTree) (p : Path) : Place := if p.isAbsolute then [] else t.here

/-- Makes a directory and those above it. -/
def addDirectory (t : FileTree) (p : Path) : FileTree := (t.ensure (t.start p) p.components).1

/-- Puts a node at a path, in directories that are made as needed. A link that is already there is
written through if it leads somewhere, unless the new node is a link. -/
def add (t : FileTree) (p : Path) (n : Node) : FileTree :=
  match p.components.reverse with
  | [] => t
  | last :: above =>
    let (t, dir) := t.ensure (t.start p) above.reverse
    let place := match n, t.walkLinks linkLimit dir [last] with
      | .file _, .ok place => place
      | _, _ => dir ++ [last]
    { t with root := t.root.put n place }

/-- Takes away what is at a path, a link and not what it leads to. -/
def remove (t : FileTree) (p : Path) : FileTree :=
  match p.components.reverse with
  | [] => t
  | last :: above =>
    match t.walkLinks linkLimit (t.start p) above.reverse with
    | .ok dir => { t with root := t.root.remove (dir ++ [last]) }
    | .error _ => t

end FileTree

end EnvModules
