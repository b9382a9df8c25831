/-!
The words of a line: blanks separate them, quotes group characters, a backslash takes the next
character as it is, and a hash at the start of a word begins a comment.
-/

namespace EnvModules.Text

/-- What the characters read so far leave open. -/
inductive Reading where
  /-- Between two words. -/
  | gap
  /-- In a comment, which lasts to the end of its line. -/
  | comment
  /-- In a word, outside quotes. -/
  | bare
  /-- In a word, right after a backslash. -/
  | escaped
  /-- Inside single quotes, where every character stands for itself. -/
  | single
  /-- Inside double quotes. -/
  | double
  /-- Inside double quotes, right after a backslash. -/
  | doubleEscaped
  deriving DecidableEq, Repr

def isWordGap (c : Char) : Bool := c == ' ' || c == '\t' || c == '\n'

/-- The characters that a backslash takes literally inside double quotes. -/
def isDoubleEscape (c : Char) : Bool := "$`\"\\".toList.contains c

/-- What one character does inside a word: the characters it adds, and where it leads. -/
def Reading.inWord (c : Char) : Reading × List Char :=
  if c = '"' then (.double, [])
  else if c = '\x27' then (.single, [])
  else if c = '\\' then (.escaped, [])
  else (.bare, [c])

/-- Puts characters in front of the first word. -/
def extendFirst (cs : List Char) : List (List Char) → List (List Char)
  | [] => [cs]
  | w :: ws => (cs ++ w) :: ws

/-- Reads on from a state. Inside a word the first element of the result is the rest of that word.
A quote or a backslash that is still open at the end is no reading. -/
def Reading.words : Reading → List Char → Option (List (List Char))
  | .gap, [] | .comment, [] => some []
  | .bare, [] => some [[]]
  | .escaped, [] | .single, [] | .double, [] | .doubleEscaped, [] => none
  | .gap, c :: cs =>
    if isWordGap c then Reading.gap.words cs
    else if c = '#' then Reading.comment.words cs
    else ((Reading.inWord c).1.words cs).map (extendFirst (Reading.inWord c).2)
  | .comment, c :: cs => if c = '\n' then Reading.gap.words cs else Reading.comment.words cs
  | .bare, c :: cs =>
    if isWordGap c then (Reading.gap.words cs).map ([] :: ·)
    else ((Reading.inWord c).1.words cs).map (extendFirst (Reading.inWord c).2)
  | .escaped, c :: cs => (Reading.bare.words cs).map (extendFirst (if c = '\n' then [] else [c]))
  | .single, c :: cs =>
    if c = '\x27' then Reading.bare.words cs
    else (Reading.single.words cs).map (extendFirst [c])
  | .double, c :: cs =>
    if c = '"' then Reading.bare.words cs
    else if c = '\\' then Reading.doubleEscaped.words cs
    else (Reading.double.words cs).map (extendFirst [c])
  | .doubleEscaped, c :: cs =>
    let kept := if isDoubleEscape c then [c] else if c = '\n' then [] else ['\\', c]
    (Reading.double.words cs).map (extendFirst kept)

/-- The words of a text, or nothing when a quote or a backslash is left open. -/
def words (cs : List Char) : Option (List (List Char)) := Reading.gap.words cs

end EnvModules.Text
