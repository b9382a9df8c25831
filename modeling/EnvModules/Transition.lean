import EnvModules.Transition.Evaluation

/-!
Loading, unloading and displaying modules. Descriptors may load and swap other modules while they are
evaluated, up to a fixed depth.
-/

namespace EnvModules

namespace Site

open TransitionM

variable (s : Site)

def resolveOrFail (name : String) : TransitionM Resolved := do
  match ← ofExcept (s.registry.resolve s.tree (.parse name)) with
  | some found => pure found
  | none => throw (.noModule name)

/-- Reads the statements of a descriptor. -/
def statements (path : Path) : Except Fault (List Statement) :=
  match s.tree.readText path with
  | .error fault => .error (.file fault)
  | .ok source =>
    match Descriptor.read source with
    | .error fault => .error (.content path (.text fault))
    | .ok statements => .ok statements

/-- Evaluates a descriptor. A module that is loaded is recorded before its statements run, and one that
is unloaded is taken out of the record after them. -/
def visit (depth : Nat) (nested : Mode → List String → TransitionM Unit) (mode : Mode)
    (found : Resolved) : TransitionM Unit := do
  let statements ← ofExcept (s.statements found.path)
  modify fun m => { m with visits := m.visits ++ [⟨depth, mode, found.name⟩] }
  if mode = .load then
    modify fun m => if m.backend.isDisplay then m else m.register found.name
  (Subject.runBlock ⟨s, found.name, mode, nested⟩ statements).toTransition
  if mode = .unload then modify (·.unregister found.name)

/-- Loads a module that is not loaded yet. -/
def loadOne (visit : Resolved → TransitionM Unit) (name : String) : TransitionM Unit := do
  let found ← s.resolveOrFail name
  if !(← get).loaded.contains found.name then visit found

/-- Unloads the loaded module that a name refers to. It is no fault if none is loaded, but there has to
be such a module. -/
def unloadOne (visit : Resolved → TransitionM Unit) (name : String) : TransitionM Unit := do
  let requested := Name.parse name
  let loaded := (← get).loaded
  match ← ofExcept (s.registry.findLoaded s.tree loaded requested) with
  | some found => if loaded.contains found.name then visit found
  | none =>
    if (loaded.find? requested).isSome then throw (.noModule name)
    else
      match ← ofExcept (s.registry.resolve s.tree requested) with
      | some _ => pure ()
      | none => throw (.noModule name)

def runOne (visit : Mode → Resolved → TransitionM Unit) (mode : Mode) (name : String) :
    TransitionM Unit :=
  match mode with
  | .load => s.loadOne (visit .load) name
  | .unload => s.unloadOne (visit .unload) name
  | .display => do visit .display (← s.resolveOrFail name)

/-- Takes modules through a mode one after the other, with a number of levels left for what their
descriptors load in turn. -/
def runWithin : Nat → Mode → List String → TransitionM Unit
  | 0, mode, names =>
    names.forM (s.runOne (s.visit nestingLimit fun _ names => throw (.tooDeep names)) mode)
  | levels + 1, mode, names =>
    names.forM (s.runOne (s.visit (nestingLimit - (levels + 1)) (runWithin levels)) mode)

/-- Takes modules through a mode, without writing anything. -/
def run (mode : Mode) (names : List String) : TransitionM Unit := s.runWithin nestingLimit mode names

def load (names : List String) : TransitionM Unit := do
  s.run .load names
  flush

def unload (names : List String) : TransitionM Unit := do
  s.run .unload names
  flush

/-- Unloads one module and loads another, and writes all of it at once. -/
def swap (old new : String) : TransitionM Unit := do
  s.run .unload [old]
  s.run .load [new]
  flush

/-- Unloads and loads each module, by the name that is given. -/
def reload (names : List String) : TransitionM Unit := do
  names.forM fun name => do
    s.run .unload [name]
    s.run .load [name]
  flush

/-- Reloads every loaded module at the version that is now its package's default, oldest first. -/
def reloadAll : TransitionM Unit := do
  (← get).loaded.oldestFirst.forM fun entry => do
    s.run .unload [entry.text]
    s.run .load [entry.package]
  flush

/-- Unloads every loaded module, the most recent first. -/
def unloadAll : TransitionM Unit := do
  (← get).loaded.entries.forM fun entry => s.run .unload [entry.text]
  flush

/-- Reports what each module would do, under its path as a title and whether it is loaded or not. -/
def display (names : List String) : TransitionM Unit :=
  withBackend (.display ⟨none, []⟩) do
    names.forM fun name => do
      let found ← s.resolveOrFail name
      modify fun m => { m with backend := m.backend.setTitle found.path.text }
      s.visit 0 (s.runWithin (nestingLimit - 1)) .display found
      flush

end Site

end EnvModules
