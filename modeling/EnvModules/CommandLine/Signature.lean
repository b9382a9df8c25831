import EnvModules.CommandLine.Notice
import EnvModules.Text.Similarity
import EnvModules.Text.Split

/-!
Reading the words of a command line. Single words come first, and any number of further words may follow
them. A word that begins with a dash can be an option instead.
-/

namespace EnvModules

open Text

/-- An option that stops the reading and is answered by itself. -/
inductive Flag where
  | help
  | version
  deriving DecidableEq, Repr

namespace Flag

def letter : Flag → Char
  | help => 'h'
  | version => 'V'

def word : Flag → String
  | help => "help"
  | version => "version"

end Flag

/-- Why the words of a command line are read no further. Of a long option it is recorded how many words
before it are settled. -/
inductive Halt where
  | asked (flag : Flag) (long : Bool)
  | unexpectedWord (word : String)
  | unknownOption (word : String) (similar : Option Flag) (settled : Nat)
  | unexpectedValue (flag : Flag) (value : String) (settled : Nat)
  | missingWords
  deriving DecidableEq, Repr

namespace Halt

/-- Whether the words are at fault. -/
def isFault : Halt → Bool
  | asked _ _ => false
  | _ => true

end Halt

/-- The words that a command line takes. -/
structure Signature where
  flags : List Flag
  /-- How many single words come first. -/
  single : Nat
  /-- Whether further words may follow. -/
  further : Bool
  /-- How many words there have to be. -/
  least : Nat
  /-- What is said first to who asks for help, at length or in short. -/
  summary : Bool → String

namespace Signature

/-- Whether the next word is one of the further ones. -/
def isFurther (s : Signature) (taken : Nat) : Bool := s.further && decide (s.single ≤ taken)

def flagOfLetter? (s : Signature) (c : Char) : Option Flag := s.flags.find? (·.letter == c)

def flagOfWord? (s : Signature) (w : List Char) : Option Flag := s.flags.find? (·.word.toList == w)

/-- What a word does as an option after some others, if it is not a plain word. In the place of a further
word what is no known option is a plain word. The last word is settled only when it is clear that the next
one is at fault. -/
def option? (s : Signature) (taken : Nat) : List Char → Option Halt
  | '-' :: '-' :: cs =>
    let (name, value) := (splitOnce '=' cs).elim (cs, none) fun (name, value) => (name, some value)
    match s.flagOfWord? name, value with
    | some flag, none => some (.asked flag true)
    | some flag, some value => some (.unexpectedValue flag (String.ofList value) (taken - 1))
    | none, _ =>
      if s.isFurther taken then none
      else
        let similar := mostSimilar? (·.word.toList) name s.flags
        some (.unknownOption (String.ofList ('-' :: '-' :: name)) similar taken)
  | '-' :: c :: cs =>
    if s.isFurther taken && (c :: cs).any fun c => (s.flagOfLetter? c).isNone then none
    else
      match s.flagOfLetter? c with
      | some flag => some (.asked flag false)
      | none => some (.unexpectedWord (String.ofList ['-', c]))
  | _ => none

/-- Takes words after those that are taken already. A double dash makes all later words plain, and
nothing after a further word is an option. -/
def collect (s : Signature) (plain : Bool) (taken : List String) :
    List String → Except Halt (List String)
  | [] => .ok taken
  | w :: ws =>
    if s.further ∧ s.single < taken.length then .ok (taken ++ w :: ws)
    else if plain = false ∧ w = "--" then s.collect true taken ws
    else
      match if plain then none else s.option? taken.length w.toList with
      | some halt => .error halt
      | none =>
        if taken.length < s.single ∨ s.further then s.collect plain (taken ++ [w]) ws
        else .error (.unexpectedWord w)

/-- The words of a command line, without its options. -/
def read (s : Signature) (words : List String) : Except Halt (List String) := do
  let taken ← s.collect false [] words
  if taken.length < s.least then .error .missingWords else .ok taken

/-- What is said first when the reading is stopped. -/
def answer (s : Signature) : Halt → Notice
  | .asked .help long => .prose (s.summary long)
  | .asked .version _ => .prose "envmaster 0.3.0"
  | .unexpectedWord word | .unknownOption word _ _ =>
    .prose "unexpected argument " ++ .quoted .rejected word ++ .prose " found"
  | .unexpectedValue flag value _ =>
    .prose "unexpected value " ++ .quoted .rejected value ++ .prose " for " ++
      .quoted .literal ("--" ++ flag.word) ++ .prose " found; no more were expected"
  | .missingWords => .prose "the following required arguments were not provided:"

end Signature

end EnvModules
