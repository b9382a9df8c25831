import EnvModules.Backend
import EnvModules.Descriptor
import EnvModules.Registry

/-!
The state that transitions work on, and the steps they consist of. The state outlives a failure.
-/

namespace EnvModules

/-- What stays fixed during a transition. -/
structure Site where
  tree : FileTree
  registry : Registry
  config : Config

/-- An evaluation of a descriptor. -/
structure Visit where
  /-- How many evaluations it is nested in. -/
  depth : Nat
  mode : Mode
  subject : Name
  deriving DecidableEq, Repr

structure Machine where
  env : Environment
  backend : Backend
  streams : Streams
  /-- The evaluations so far, in the order in which they began. -/
  visits : List Visit

abbrev TransitionM := ExceptT Fault (StateM Machine)

namespace Machine

def setVariable (m : Machine) (forward : Bool) (value name : String) : Machine :=
  let (backend, env) := m.backend.setVariable m.env forward value name
  { m with backend, env }

def setPath (m : Machine) (forward : Bool) (value name : String) : Machine :=
  let (backend, env) := m.backend.setPath m.env forward value name
  { m with backend, env }

def register (m : Machine) (name : Name) : Machine :=
  let (backend, env) := m.backend.register m.env name
  { m with backend, env }

def unregister (m : Machine) (name : Name) : Machine :=
  let (backend, env) := m.backend.unregister m.env name
  { m with backend, env }

def report (m : Machine) (effect : Effect) (name value : String) : Machine :=
  { m with backend := m.backend.report effect name value }

def loaded (m : Machine) : Loaded := .ofEnvironment m.env

end Machine

namespace TransitionM

/-- Writes what is staged, and applies the unsets that were put off. -/
def flush : TransitionM Unit := fun m =>
  let f := m.backend.flush m.env m.streams
  (f.outcome, { m with env := f.env, backend := f.backend, streams := f.streams })

/-- Runs with another backend, and goes back to the present one. -/
def withBackend {α : Type} (backend : Backend) (x : TransitionM α) : TransitionM α := fun m =>
  let (outcome, m') := x { m with backend }
  (outcome, { m' with backend := m.backend })

end TransitionM

end EnvModules
