import EnvModules.Descriptor.Reader
import EnvModules.Installation
import EnvModules.Transition.Machine

/-!
Evaluating the statements of one descriptor. Modules that a statement loads or swaps are left to the
transition around the evaluation.
-/

namespace EnvModules

/-- The state of an evaluation. -/
structure Evaluation where
  machine : Machine
  /-- How requested versions are matched from here on. -/
  policy : Policy

abbrev EvaluationM := ExceptT Fault (StateM Evaluation)

/-- What an evaluation is about. -/
structure Subject where
  site : Site
  name : Name
  mode : Mode
  /-- Loads or unloads other modules. -/
  nested : Mode → List String → TransitionM Unit

/-- Whether a condition holds. -/
def Condition.holds (env : Environment) (policy : Policy) (mode : Mode) : Condition → Bool
  | .defined name => (env.getNonEmpty? name).isSome
  | .equal left right => env.expand left == env.expand right
  | .loaded name =>
    ((Loaded.ofEnvironment env).findMatching? policy (.parse (env.expand name))).isSome
  | .mode wanted => mode == wanted
  | .not condition => !condition.holds env policy mode

namespace EvaluationM

def onMachine (f : Machine → Machine) : EvaluationM Unit :=
  modify fun e => { e with machine := f e.machine }

def environment : EvaluationM Environment := do return (← get).machine.env

def expand (text : String) : EvaluationM String := do return (← environment).expand text

/-- Runs a transition inside an evaluation, whose policy it leaves alone. -/
def ofTransition {α : Type} (x : TransitionM α) : EvaluationM α := fun e =>
  let (outcome, machine) := x e.machine
  (outcome, { e with machine })

/-- Runs an evaluation on its own, with the policy that it starts from. -/
def toTransition {α : Type} (x : EvaluationM α) : TransitionM α := fun machine =>
  let (outcome, e) := x ⟨machine, .equal⟩
  (outcome, e.machine)

end EvaluationM

namespace Subject

open EvaluationM

variable (s : Subject)

/-- Sets a variable to a text whose references are replaced, or unsets it. -/
def setVariable (value name : String) : EvaluationM Unit := do
  let value ← expand value
  onMachine (·.setVariable s.mode.isForward value name)

/-- Puts a text whose references are replaced in front of a list variable, or takes it out. -/
def setPath (value name : String) : EvaluationM Unit := do
  let value ← expand value
  onMachine (·.setPath s.mode.isForward value name)

/-- Records a directory in the package's own variable and in the one that all packages share. -/
def install (location : Location) (directory : String) : EvaluationM Unit := do
  s.setVariable directory (s.name.varName location.ending)
  match s.site.config.sharedVariable? location with
  | some shared => s.setPath directory shared
  | none => pure ()

/-- Records an installation and its usable directories. Its root has to be a directory. -/
def installTree (root : String) : EvaluationM Unit := do
  let root : Path := ⟨← expand root⟩
  if !s.site.tree.isDirectory root then throw (.missingRoot root)
  s.setVariable root.text (s.name.varName "ROOT")
  (s.site.tree.installation s.site.config.subdirectories root).forM fun (location, path) =>
    s.install location path.text

/-- On a load, one of the modules has to be loaded. -/
def require (names : List String) : EvaluationM Unit := do
  let e ← get
  let names := names.map e.machine.env.expand
  match s.mode with
  | .display => onMachine (·.report .require "" (" ".intercalate names))
  | .unload => pure ()
  | .load =>
    let found := names.any fun name => (e.machine.loaded.findMatching? e.policy (.parse name)).isSome
    if !found then throw (.unmetPrerequisite s.name names)

/-- On a load, none of the modules may be loaded. -/
def conflict (names : List String) : EvaluationM Unit := do
  let e ← get
  let names := names.map e.machine.env.expand
  match s.mode with
  | .display => onMachine (·.report .conflict "" (" ".intercalate names))
  | .unload => pure ()
  | .load =>
    match names.findSome? fun name => e.machine.loaded.findMatching? e.policy (.parse name) with
    | some hit => throw (.conflict s.name hit)
    | none => pure ()

/-- On a load, loads other modules as well. -/
def load (names : List String) : EvaluationM Unit := do
  let names := names.map (← environment).expand
  match s.mode with
  | .display => onMachine (·.report .load "" (" ".intercalate names))
  | .unload => pure ()
  | .load => ofTransition (s.nested .load names)

/-- On a load, unloads one module and loads another. -/
def swap (old new : String) : EvaluationM Unit := do
  let env ← environment
  let old := env.expand old
  let new := env.expand new
  match s.mode with
  | .display => onMachine (·.report .swap "" (old ++ " " ++ new))
  | .unload => pure ()
  | .load =>
    ofTransition (s.nested .unload [old])
    ofTransition (s.nested .load [new])

/-- A description is only ever reported. -/
def describe (text : String) : EvaluationM Unit := do
  match s.mode with
  | .display =>
    let text ← expand text
    onMachine (·.report .describe "" text)
  | _ => pure ()

def matchVersions (policy : Policy) : EvaluationM Unit := modify fun e => { e with policy }

mutual

def runStatement : Statement → EvaluationM Unit
  | .setVariable value name => s.setVariable value name
  | .setPackageVariable value ending => s.setVariable value (s.name.varName ending)
  | .prependPath value name => s.setPath value name
  | .installTree root => s.installTree root
  | .install location directory => do s.install location (← expand directory)
  | .require names => s.require names
  | .conflict names => s.conflict names
  | .load names => s.load names
  | .swap old new => s.swap old new
  | .describe text => s.describe text
  | .matchVersions policy => matchVersions policy
  | .choose branches otherwise => runBranches branches (runBlock otherwise)

/-- Runs the first branch whose condition holds. -/
def runBranches : List (Condition × List Statement) → EvaluationM Unit → EvaluationM Unit
  | [], otherwise => otherwise
  | (condition, body) :: rest, otherwise => do
    let e ← get
    if condition.holds e.machine.env e.policy s.mode then runBlock body
    else runBranches rest otherwise

/-- Runs statements in order, up to the first that fails. -/
def runBlock : List Statement → EvaluationM Unit
  | [] => pure ()
  | statement :: rest => do
    runStatement statement
    runBlock rest

end

end Subject

end EnvModules
