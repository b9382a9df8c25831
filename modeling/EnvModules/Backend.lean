import EnvModules.Dialect
import EnvModules.Fault
import EnvModules.Layout
import EnvModules.Loaded
import EnvModules.Stream

/-!
What becomes of the changes that descriptors ask for: commands in some dialect, changes to the
environment alone, or a report.
-/

namespace EnvModules

namespace Environment

/-- Sets a variable, or schedules that it is unset. -/
def changeVariable (env : Environment) (forward : Bool) (value name : String) :
    Environment × Change :=
  if forward then (env.set name value, .assign value) else (env.scheduleUnset name, .unset)

/-- Puts a segment in front of a list variable, or takes its first occurrence out. A list that is empty
afterwards is scheduled to be unset. -/
def changePath (env : Environment) (forward : Bool) (value name : String) : Environment × Change :=
  let merged := if forward then env.prepended name value else env.without name value
  if merged.isEmpty then ((env.set name merged).scheduleUnset name, .unset)
  else (env.set name merged, .assign merged)

end Environment

/-- What a row of a report is about. -/
inductive Effect where
  | setVariable
  | prependPath
  | require
  | conflict
  | describe
  | load
  | swap
  deriving DecidableEq, Repr

def Effect.label : Effect → String
  | .setVariable => "setenv"
  | .prependPath => "prepend-path"
  | .require => "prereq"
  | .conflict => "conflict"
  | .describe => "whatis"
  | .load => "load"
  | .swap => "swap"

structure Report where
  title : Option String
  rows : List Row
  deriving DecidableEq, Repr

inductive Backend where
  /-- Changes the environment, and keeps the last change of each variable to be written as a
  command. -/
  | commands (dialect : Dialect) (batch : Bindings Change)
  /-- Changes the environment alone. -/
  | silent
  /-- Changes nothing and keeps rows that say what would change. -/
  | display (report : Report)
  deriving DecidableEq

namespace Backend

/-- A backend with nothing staged, by the name of its dialect. Case does not matter. -/
def ofName? (name : String) : Option Backend :=
  let folded := name.toLower
  if ["bash", "sh", "zsh", "ksh"].contains folded then some (.commands .posix .empty)
  else if ["csh", "tcsh"].contains folded then some (.commands .csh .empty)
  else if ["dos", "cmd"].contains folded then some (.commands .dos .empty)
  else if folded = "python" then some (.commands .python .empty)
  else if folded = "r" then some (.commands .r .empty)
  else if ["silent", "pythonsilent", "host"].contains folded then some .silent
  else if folded = "disp" then some (.display ⟨none, []⟩)
  else none

def isDisplay : Backend → Bool
  | .display _ => true
  | _ => false

/-- Adds a row. Only a display keeps it. -/
def report (b : Backend) (effect : Effect) (name value : String) : Backend :=
  match b with
  | .display r => .display { r with rows := r.rows ++ [⟨effect.label, name, value⟩] }
  | _ => b

def setTitle (b : Backend) (title : String) : Backend :=
  match b with
  | .display r => .display { r with title := some title }
  | _ => b

/-- Keeps a change of a variable in the place of an earlier one. -/
def stage (b : Backend) (name : String) (change : Change) : Backend :=
  match b with
  | .commands dialect batch => .commands dialect (batch.insert name change)
  | _ => b

def setVariable (b : Backend) (env : Environment) (forward : Bool) (value name : String) :
    Backend × Environment :=
  if b.isDisplay then (b.report .setVariable name value, env)
  else
    let (env, change) := env.changeVariable forward value name
    (b.stage name change, env)

def setPath (b : Backend) (env : Environment) (forward : Bool) (value name : String) :
    Backend × Environment :=
  if b.isDisplay then (b.report .prependPath name value, env)
  else
    let (env, change) := env.changePath forward value name
    (b.stage name change, env)

/-- Records a module as loaded. -/
def register (b : Backend) (env : Environment) (name : Name) : Backend × Environment :=
  b.setPath env true name.text loadedVariable

/-- Takes the first occurrence of a module out of the record of loaded ones. -/
def unregister (b : Backend) (env : Environment) (name : Name) : Backend × Environment :=
  b.setPath env false name.text loadedVariable

/-- What a flush has led to. -/
structure Flushed where
  outcome : Except Fault Unit
  backend : Backend
  env : Environment
  streams : Streams

/-- Writes what is staged, and on success unsets the variables that were scheduled for it. What has been
taken up for writing is no longer staged, even if the stream fails. -/
def flush (b : Backend) (env : Environment) (streams : Streams) : Flushed :=
  match b with
  | .commands dialect batch =>
    let (ok, stream) := streams.commands.write (dialect.script batch)
    let streams := { streams with commands := stream }
    if ok then ⟨.ok (), .commands dialect .empty, env.applyUnsets, streams⟩
    else ⟨.error .streamClosed, .commands dialect .empty, env, streams⟩
  | .silent => ⟨.ok (), .silent, env.applyUnsets, streams⟩
  | .display r =>
    let layout := Layout.ofEnvironment env
    let heading := match r.title with
      | some title => layout.title streams.emphasis title
      | none => ""
    let (ok, stream) := streams.diagnostics.write heading
    let streams := { streams with diagnostics := stream }
    if ok then
      let (ok, stream) := streams.diagnostics.write (layout.table r.rows)
      let streams := { streams with diagnostics := stream }
      if ok then ⟨.ok (), .display ⟨none, []⟩, env.applyUnsets, streams⟩
      else ⟨.error .streamClosed, .display ⟨none, []⟩, env, streams⟩
    else ⟨.error .streamClosed, .display { r with title := none }, env, streams⟩

end Backend

end EnvModules
