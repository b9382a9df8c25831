import EnvModules.CommandLine.Signature
import EnvModules.Layout
import EnvModules.Text.Blank

/-!
The commands, what they take, and the table that explains them.
-/

namespace EnvModules

open Text

inductive Command where
  | available
  | list
  | help
  | display
  | load
  | unload
  | swap
  | reload
  | reloadAll
  | unloadAll
  deriving DecidableEq, Repr

namespace Command

def all : List Command :=
  [available, list, help, display, load, unload, swap, reload, reloadAll, unloadAll]

def name : Command → String
  | available => "avail"
  | list => "list"
  | help => "help"
  | display => "disp"
  | load => "load"
  | unload => "unload"
  | swap => "swap"
  | reload => "reload"
  | reloadAll => "allreload"
  | unloadAll => "allunload"

def aliases : Command → List String
  | available => ["av"]
  | list => ["ls"]
  | display => ["display", "show"]
  | load => ["add"]
  | unload => ["rm"]
  | swap => ["sw", "switch"]
  | unloadAll => ["purge"]
  | help | reload | reloadAll => []

/-- A command by its name or an alias. Case does not matter. -/
def ofName? (s : String) : Option Command :=
  all.find? fun c => (c.name :: c.aliases).contains s.toLower

def ofModules : Signature where
  flags := [.help]
  single := 0
  further := true
  least := 1
  summary := fun _ => "Arguments of every command that takes one or more module names"

def ofTwoModules : Signature where
  flags := [.help]
  single := 2
  further := false
  least := 2
  summary := fun _ => "Unload a module and replace it with another."

def ofNothing : Signature where
  flags := [.help]
  single := 0
  further := false
  least := 0
  summary := fun _ => "Arguments of commands that take none"

/-- Takes all words, whatever they look like. -/
def ofAnything : Signature where
  flags := []
  single := 0
  further := true
  least := 0
  summary := fun _ => ""

def signature : Command → Signature
  | help => ofAnything
  | swap => ofTwoModules
  | display | load | unload | reload => ofModules
  | available | list | reloadAll | unloadAll => ofNothing

/-- The names of what a command takes, as its row of the table shows them. -/
def arguments : Command → String
  | display | load | unload | reload => "mod1 <mod2...>"
  | swap => "mod1 mod2"
  | _ => ""

def description : Command → String
  | available => "Show all available modules"
  | list => "Show loaded modules"
  | help => "Display this message"
  | display => "Display the contents of module(s)"
  | load => "Load the specified module(s)"
  | unload => "Unload the specified module(s)"
  | swap => "Unload mod1 and replace with mod2"
  | reload => "Reload with the default version"
  | reloadAll => "Reload all loaded modules"
  | unloadAll => "Unload all loaded modules"

def usageTitle : String := "Usage: envmaster <shell> <command> [modules...]"

def usageRows : List Row :=
  ⟨"Command", "Arguments", "Help"⟩ :: ⟨"-------", "---------", "----"⟩ ::
    all.map fun c => ⟨c.name, c.arguments, c.description⟩

end Command

/-- Why a command line asks for nothing that can be done. -/
inductive UsageFault where
  | incomplete
  | unknownCommand (name : String)
  | arguments (command : Command) (halt : Halt)
  deriving DecidableEq, Repr

namespace UsageFault

def firstLine (s : String) : List Char := (lines s.toList).headD []

def message : UsageFault → String
  | incomplete => "a shell and a command are required"
  | unknownCommand name => "unknown command '" ++ name ++ "'"
  | arguments command halt =>
    "'" ++ command.name ++ "': " ++ String.ofList (trim (firstLine (command.signature.answer halt).plain))

end UsageFault

end EnvModules
