import EnvModules.CommandLine.Command
import EnvModules.Session

/-!
Command lines, and what a session answers to them. Commands go to one stream, and all that is only for
reading to the other.
-/

namespace EnvModules

structure CommandLine where
  shell : Option String
  command : Option String
  arguments : List String
  deriving DecidableEq, Repr

/-- What a command line asks for. -/
inductive Request where
  | available
  | list
  | help
  | display (names : List String)
  | operation (dialect : String) (operation : Operation)
  deriving DecidableEq, Repr

/-- What a command asks for, given the words that its signature takes. -/
def Command.request (c : Command) (dialect : String) (words : List String) : Request :=
  match c with
  | .available => .available
  | .list => .list
  | .help => .help
  | .display => .display words
  | .load => .operation dialect (.load words)
  | .unload => .operation dialect (.unload words)
  | .swap => .operation dialect (.swap (words.getD 0 "") (words.getD 1 ""))
  | .reload => .operation dialect (.reload words)
  | .reloadAll => .operation dialect .reloadAll
  | .unloadAll => .operation dialect .unloadAll

namespace CommandLine

def signature : Signature where
  flags := [.help, .version]
  single := 2
  further := true
  least := 0
  summary := fun long =>
    if long then "envmaster: per-session shell environment management through module files."
    else "Per-session shell environment management through versioned module descriptors."

def ofWords (words : List String) : Except Halt CommandLine :=
  (signature.read words).map fun taken => ⟨taken[0]?, taken[1]?, taken.drop 2⟩

def request (line : CommandLine) : Except UsageFault Request :=
  match line.shell, line.command with
  | some shell, some word =>
    match Command.ofName? word with
    | none => .error (.unknownCommand word)
    | some command =>
      match command.signature.read line.arguments with
      | .error halt => .error (.arguments command halt)
      | .ok words => .ok (command.request shell words)
  | _, _ => .error .incomplete

end CommandLine

/-- Why a command line is not carried out. -/
inductive CommandFault where
  | usage (fault : UsageFault)
  | unknownDialect (name : String)
  /-- The stream closed while a text was written. -/
  | unwritten
  /-- The stream closed while modules were listed. -/
  | unlisted
  | operation (fault : Fault)
  deriving DecidableEq, Repr

def CommandFault.message : CommandFault → String
  | .usage fault => fault.message
  | .unknownDialect name =>
    "Cannot emit commands for '" ++ name ++ "': " ++ (Fault.unknownDialect name).message
  | .unwritten => "stream closed"
  | .unlisted => "Failed to write module listing: stream closed"
  | .operation fault => fault.account

namespace Layout

/-- The table of all commands. -/
def usage (l : Layout) (emphasis : Bool) : String :=
  l.title emphasis Command.usageTitle ++ l.table Command.usageRows

def listings (l : Layout) (emphasis : Bool) (roots : List Listing) : String :=
  String.join (roots.map fun r => l.title emphasis r.root.text ++ l.columns r.modules)

def noneLoaded : String := "No modules currently loaded"

/-- The loaded modules, numbered from the one that was loaded first. -/
def loaded (l : Layout) (emphasis : Bool) (modules : Loaded) : String :=
  l.title emphasis "Currently Loaded EnvMaster files" ++
    if modules.entries.isEmpty then (if emphasis then dim noneLoaded else noneLoaded) ++ "\n"
    else l.columns (modules.oldestFirst.zipIdx.map fun (name, i) => toString (i + 1) ++ ") " ++ name.text)

end Layout

/-- What has come of a command line. -/
structure Answered where
  outcome : Except CommandFault Unit
  session : Session
  streams : Streams

namespace Session

def layout (s : Session) : Layout := .ofEnvironment s.env

/-- Writes a text for reading. -/
def reply (s : Session) (streams : Streams) (text : String) (fault : CommandFault) : Answered :=
  let (ok, streams) := streams.report text
  ⟨if ok then .ok () else .error fault, s, streams⟩

def carryOut (s : Session) (tree : FileTree) (operation : Operation) (backend : Backend)
    (streams : Streams) : Answered :=
  let done := s.perform tree operation backend streams
  ⟨done.outcome.mapError .operation, done.session, done.streams⟩

/-- Answers a request. A display needs no dialect. -/
def answer (s : Session) (tree : FileTree) (streams : Streams) : Request → Answered
  | .available =>
    match s.registry.available tree with
    | .error fault => ⟨.error (.operation fault), s, streams⟩
    | .ok roots => s.reply streams (s.layout.listings streams.emphasis roots) .unlisted
  | .list => s.reply streams (s.layout.loaded streams.emphasis s.loaded) .unwritten
  | .help => s.reply streams (s.layout.usage streams.emphasis) .unwritten
  | .display names => s.carryOut tree (.display names) .silent streams
  | .operation dialect operation =>
    match Backend.ofName? dialect with
    | none => ⟨.error (.unknownDialect dialect), s, streams⟩
    | some backend => s.carryOut tree operation backend streams

def dispatch (s : Session) (tree : FileTree) (line : CommandLine) (streams : Streams) : Answered :=
  match line.request with
  | .error fault => ⟨.error (.usage fault), s, streams⟩
  | .ok request => s.answer tree streams request

end Session

end EnvModules
