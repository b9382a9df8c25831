import EnvModules.Descriptor.Fault
import EnvModules.Text.Blank
import EnvModules.Text.Split
import EnvModules.Text.Words

/-!
The lines of a descriptor or a version pin, cut into words.
-/

namespace EnvModules

open Text

structure Line where
  /-- Counted from one. -/
  number : Nat
  head : String
  arguments : List String
  deriving DecidableEq, Repr

namespace Line

/-- The line before its words are cut: trimmed, unless it holds no statement. -/
def statement? (cs : List Char) : Option (List Char) :=
  match trim cs with
  | [] => none
  | '#' :: _ => none
  | c :: cs => some (c :: cs)

/-- The lines that hold words, numbered on from a number. -/
def ofTexts (number : Nat) : List (List Char) → Except TextFault (List Line)
  | [] => .ok []
  | cs :: rest =>
    match statement? cs with
    | none => ofTexts (number + 1) rest
    | some cs =>
      match words cs with
      | none => .error (.line number .unterminatedQuote)
      | some [] => ofTexts (number + 1) rest
      | some (w :: ws) => do
        let lines ← ofTexts (number + 1) rest
        .ok (⟨number, String.ofList w, ws.map String.ofList⟩ :: lines)

/-- The lines after the first of a text that begins with the sentinel. -/
def ofText (source : String) : Except TextFault (List Line) :=
  if sentinel.toList.isPrefixOf source.toList then ofTexts 2 ((Text.lines source.toList).drop 1)
  else .error .noSentinel

end Line

end EnvModules
