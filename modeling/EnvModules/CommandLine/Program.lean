import EnvModules.CommandLine

/-!
One run of the program: a session over the process environment, a command line, and an exit code.
-/

namespace EnvModules

/-- The variables of a block of settings `name=value`, each with a NUL byte after it. Settings that are
no text are passed over. -/
def Environment.ofBlock (block : ByteArray) : Environment :=
  let bytes := block.toList.map fun b => Char.ofNat b.toNat
  let settings := (Text.fields (· == '\x00') bytes).filterMap fun cs => do
    let text ← String.fromUTF8? ⟨(cs.map fun c => c.toNat.toUInt8).toArray⟩
    let (name, value) ← Text.splitOnce '=' text.toList
    return (String.ofList name, String.ofList value)
  .ofVars (.ofList settings)

/-- What the program finds when it starts. -/
structure World where
  tree : FileTree
  env : Environment
  user : UserDirectories

/-- What a run has led to. -/
structure Finished where
  code : Nat
  streams : Streams
  /-- The installation that was not found, if the run failed for it. -/
  missingRoot : Option Path

namespace World

/-- Whether the environment asks for emphasis. -/
def emphasis (w : World) : Bool :=
  match w.env.get? "CLICOLOR_FORCE" with
  | some value => value != "0"
  | none => false

/-- Whether the environment asks for notices in color. -/
def coloredNotices (w : World) : Bool :=
  w.emphasis && ((w.env.get? "NO_COLOR").all fun value => value.isEmpty)

/-- The form of a command line, with an option in it if one matters, and with the words that are settled in
other brackets than those that may be left out. -/
def commandForm (flag : Option Flag) (settled : Nat) : Notice :=
  let words := ["SHELL", "COMMAND"].zipIdx.map fun (word, i) =>
    if i < settled then " <" ++ word ++ ">" else " [" ++ word ++ "]"
  let option := match flag with
    | some flag => .prose " " ++ .part .literal ("--" ++ flag.word)
    | none => .empty
  .part .heading "Usage:" ++ .prose " " ++ .part .literal "envmaster" ++ option ++
    .prose (String.join words ++ " [ARGS]...\n")

/-- The form that shows a fault. -/
def formOf : Halt → Notice
  | .unknownOption _ similar settled => commandForm similar settled
  | .unexpectedValue flag _ settled => commandForm (some flag) settled
  | _ => commandForm none 0

def tip (n : Notice) : Notice := .prose "  " ++ .part .proposed "tip:" ++ .prose " " ++ n ++ .prose "\n"

/-- How a word that looks like an option can be given as a plain one. -/
def asPlainWord (word : String) : Notice :=
  tip (.prose "to pass " ++ .quoted .rejected word ++ .prose " as a value, use " ++
    .quoted .proposed ("-- " ++ word))

/-- What to do about a fault. -/
def advice : Halt → Notice
  | .unexpectedWord word => .prose "\n" ++ asPlainWord word
  | .unknownOption word similar _ =>
    let other := match similar with
      | some flag => tip (.prose "a similar argument exists: " ++ .quoted .proposed ("--" ++ flag.word))
      | none => .empty
    .prose "\n" ++ other ++ asPlainWord word
  | _ => .empty

/-- The answer to a command line that is not read to its end. -/
def notice (halt : Halt) : Notice :=
  let said := CommandLine.signature.answer halt ++ .prose "\n"
  if halt.isFault then
    .part .alarm "error:" ++ .prose " " ++ said ++ advice halt ++ .prose "\n" ++ formOf halt ++
      .prose "\nFor more information, try " ++ .quoted .literal "--help" ++ .prose ".\n"
  else
    match halt with
    | .asked .help _ => said ++ .prose "\n" ++ formOf halt
    | _ => said

/-- Answers a command line that is not read to its end. An option is answered on the first stream, and a
fault on the second. -/
def halted (w : World) (streams : Streams) (halt : Halt) : Finished :=
  let text := (notice halt).render w.coloredNotices
  if halt.isFault then ⟨2, (streams.report text).2, none⟩
  else ⟨0, { streams with commands := (streams.commands.write text).2 }, none⟩

/-- Says on the second stream why a command line was not carried out. -/
def failed (w : World) (streams : Streams) (fault : CommandFault) : Finished :=
  let alarm (s : String) : String := if streams.emphasis then Layout.alarm s else s
  let text := match fault with
    | .usage fault =>
      alarm "Usage error" ++ ": " ++ fault.message ++ "\n\n" ++
        (Layout.ofEnvironment w.env).usage streams.emphasis
    | _ => "\n" ++ alarm "Error" ++ ": " ++ fault.message ++ "\n"
  let missing := match fault with
    | .operation (.missingRoot root) => some root
    | _ => none
  ⟨1, (streams.report text).2, missing⟩

/-- Runs the program on the words of a command line. -/
def run (w : World) (words : List String) : Finished :=
  let streams : Streams := ⟨.unlimited, .unlimited, w.emphasis⟩
  match CommandLine.ofWords words with
  | .error halt => w.halted streams halt
  | .ok line =>
    match Session.load w.tree w.env w.user with
    | .error fault => w.failed streams (.operation fault)
    | .ok session =>
      let answered := session.dispatch w.tree line streams
      match answered.outcome with
      | .ok () => ⟨0, answered.streams, none⟩
      | .error fault => w.failed answered.streams fault

end World

end EnvModules
