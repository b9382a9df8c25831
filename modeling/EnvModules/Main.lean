import EnvModules.CommandLine.Program

/-!
The program itself: it looks at the system, runs, and writes what the run has said. The part of the
file tree that a run can reach is read beforehand.
-/

namespace EnvModules

/-- What is at an entry of a directory, down to a depth. Links to directories are followed. A reading
look gets the content of files and follows links to them; otherwise such a link leads nowhere. -/
def look (reading : Bool) : Nat → IO.FS.DirEntry → IO Node
  | 0, _ => return .directory []
  | depth + 1, entry => do
    try
      match (← entry.path.metadata).type with
      | .dir =>
        let entries := (← entry.path.readDir).toList
        return .directory (← entries.mapM fun e => return (e.fileName, ← look reading depth e))
      | .file =>
        if reading then return .file (← IO.FS.readBinFile entry.path)
        else if (← entry.path.symlinkMetadata).type == .file then return .file .empty
        else return .link ⟨entry.fileName⟩
      | _ => return .link ⟨entry.fileName⟩
    catch _ => return .link ⟨entry.fileName⟩

/-- Adds to a tree what the system has at a path. -/
def reach (reading : Bool) (depth : Nat) (tree : FileTree) (path : Path) : IO FileTree := do
  let text := String.ofList (Text.dropRightWhile (· == '/') path.text.toList)
  match ← look reading (depth + 1) ⟨text ++ "/", "."⟩ with
  | .directory entries => return tree.add ⟨text⟩ (.directory entries)
  | _ => return tree

/-- How deep roots are searched for modules. -/
def searchDepth : Nat := 8

/-- How deep an installation is looked into. -/
def Subdirectories.depth (s : Subdirectories) : Nat :=
  (s.all.map fun d => (Path.mk d).components.length).foldl max 0 + 1

/-- Adds a file to a tree, if the system has it. -/
def reachFile (tree : FileTree) (path : Path) : IO FileTree := do
  try
    return tree.add path (.file (← IO.FS.readBinFile path.text))
  catch _ => return tree

/-- What the system has that any run starts from, and the configuration in it. -/
def survey : IO (World × Config) := do
  let env := Environment.ofBlock (← IO.FS.readBinFile "/proc/self/environ")
  let user := UserDirectories.ofEnvironment env none
  let here := Path.mk (← IO.currentDir).toString
  let start := FileTree.startingAt here.components
  let tree ← match Config.file? env user with
    | some file => reachFile start file
    | none => pure start
  let config := (Config.load tree env user).toOption.getD .default
  let tree ← (config.roots env).foldlM (reach true searchDepth) tree
  return (⟨tree, env, user⟩, config)

/-- Runs on a world. When a run misses an installation that the system has, it is made again with that
installation, up to a number of times. -/
def runReaching (depth : Nat) (words : List String) : Nat → World → IO Finished
  | 0, world => return world.run words
  | rounds + 1, world => do
    let done := world.run words
    match done.missingRoot with
    | none => return done
    | some root =>
      let tree ← reach false depth world.tree root
      if tree.isDirectory root then runReaching depth words rounds { world with tree }
      else return done

/-- Runs on the system as it is. -/
def program (words : List String) : IO UInt32 := do
  let (world, config) ← survey
  let done ← runReaching config.subdirectories.depth words 1000 world
  (← IO.getStdout).write done.streams.commands.written
  (← IO.getStderr).write done.streams.diagnostics.written
  return done.code.toUInt32

end EnvModules

def main (words : List String) : IO UInt32 := EnvModules.program words
