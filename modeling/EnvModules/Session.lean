import EnvModules.Config.Reader
import EnvModules.Transition

/-!
Sessions: an environment together with the modules that can be loaded into it. An operation that fails
leaves the environment of its session as it was.
-/

namespace EnvModules

structure Session where
  config : Config
  registry : Registry
  env : Environment

/-- What can be asked of a session. -/
inductive Operation where
  | load (names : List String)
  | unload (names : List String)
  | swap (old new : String)
  | reload (names : List String)
  | reloadAll
  | unloadAll
  | display (names : List String)
  deriving DecidableEq, Repr

def Operation.transition (s : Site) : Operation → TransitionM Unit
  | .load names => s.load names
  | .unload names => s.unload names
  | .swap old new => s.swap old new
  | .reload names => s.reload names
  | .reloadAll => s.reloadAll
  | .unloadAll => s.unloadAll
  | .display names => s.display names

/-- What an operation has led to. -/
structure Performed where
  outcome : Except Fault Unit
  session : Session
  backend : Backend
  streams : Streams
  visits : List Visit

namespace Session

/-- A session over a configuration and an environment. The roots are settled here. -/
def ofConfig (config : Config) (env : Environment) : Session :=
  ⟨config, .ofConfig config env, env⟩

/-- A session over the user's own configuration. -/
def load (tree : FileTree) (env : Environment) (user : UserDirectories) : Except Fault Session :=
  (Config.load tree env user).map (ofConfig · env)

def loaded (s : Session) : Loaded := .ofEnvironment s.env

def site (s : Session) (tree : FileTree) : Site := ⟨tree, s.registry, s.config⟩

/-- Performs an operation. Only if it succeeds does the session's environment change. -/
def perform (s : Session) (tree : FileTree) (operation : Operation) (backend : Backend)
    (streams : Streams) : Performed :=
  let (outcome, machine) := operation.transition (s.site tree) ⟨s.env, backend, streams, []⟩
  let env := match outcome with
    | .ok () => machine.env
    | .error _ => s.env
  ⟨outcome, { s with env }, machine.backend, machine.streams, machine.visits⟩

/-- Performs an operation on the session's environment alone. -/
def performSilently (s : Session) (tree : FileTree) (operation : Operation) :
    Except Fault Unit × Session :=
  let done := s.perform tree operation .silent ⟨.unlimited, .unlimited, false⟩
  (done.outcome, done.session)

end Session

end EnvModules
