import EnvModules.Text.Split

/-!
The four forms of strings in a TOML document. Each reader starts after the opening quotes and gives the
text together with what follows the closing ones.
-/

namespace EnvModules.Toml

/-- The control characters that no string and no comment may hold. -/
def isControl (c : Char) : Bool := (c.toNat < 0x20 && c != '\t') || c.toNat == 0x7F

def hexValue? (c : Char) : Option Nat :=
  if c.isDigit then some (c.toNat - '0'.toNat)
  else if 'a' ≤ c ∧ c ≤ 'f' then some (c.toNat - 'a'.toNat + 10)
  else if 'A' ≤ c ∧ c ≤ 'F' then some (c.toNat - 'A'.toNat + 10)
  else none

/-- The character with a code point, which must not be a surrogate. -/
def codePoint? (digits : List Char) : Option Char := do
  let n ← digits.foldlM (fun n c => (hexValue? c).map (16 * n + ·)) 0
  if h : n.isValidChar then some (Char.ofNatAux n h) else none

def simpleEscape? (c : Char) : Option Char :=
  if c = 'b' then some '\x08'
  else if c = 't' then some '\t'
  else if c = 'n' then some '\n'
  else if c = 'f' then some '\x0c'
  else if c = 'r' then some '\r'
  else if c = 'e' then some '\x1b'
  else if c = '"' ∨ c = '\\' then some c
  else none

abbrev Read := Option (List Char × List Char)

/-- Puts a character in front of the text that was read. -/
def Read.push (c : Option Char) (r : Read) : Read :=
  c.bind fun c => r.map fun (text, rest) => (c :: text, rest)

/-- A string in double quotes on one line. -/
def basic : List Char → Read
  | [] => none
  | '"' :: cs => some ([], cs)
  | '\\' :: 'x' :: a :: b :: cs => (basic cs).push (codePoint? [a, b])
  | '\\' :: 'u' :: a :: b :: c :: d :: cs => (basic cs).push (codePoint? [a, b, c, d])
  | '\\' :: 'U' :: a :: b :: c :: d :: e :: f :: g :: h :: cs =>
    (basic cs).push (codePoint? [a, b, c, d, e, f, g, h])
  | '\\' :: c :: cs => (basic cs).push (simpleEscape? c)
  | c :: cs => if isControl c || c == '\\' then none else (basic cs).push (some c)

def isLineBlank (c : Char) : Bool := c == ' ' || c == '\t'

def startsLine (cs : List Char) : Bool :=
  match cs with
  | '\n' :: _ | '\r' :: '\n' :: _ => true
  | _ => false

/-- A string in double quotes over several lines, whose ends are kept as they are written. A backslash at
the end of a line joins the lines, without the blanks between them. -/
def multiBasic (joining : Bool) : List Char → Read
  | [] => none
  | '"' :: '"' :: '"' :: '"' :: '"' :: cs => some (['"', '"'], cs)
  | '"' :: '"' :: '"' :: '"' :: cs => some (['"'], cs)
  | '"' :: '"' :: '"' :: cs => some ([], cs)
  | '\\' :: 'x' :: a :: b :: cs => (multiBasic false cs).push (codePoint? [a, b])
  | '\\' :: 'u' :: a :: b :: c :: d :: cs => (multiBasic false cs).push (codePoint? [a, b, c, d])
  | '\\' :: 'U' :: a :: b :: c :: d :: e :: f :: g :: h :: cs =>
    (multiBasic false cs).push (codePoint? [a, b, c, d, e, f, g, h])
  | '\\' :: c :: cs =>
    if startsLine ((c :: cs).dropWhile isLineBlank) then multiBasic true (c :: cs)
    else (multiBasic false cs).push (simpleEscape? c)
  | '\r' :: '\n' :: cs =>
    if joining then multiBasic true cs
    else Read.push (some '\r') ((multiBasic false cs).push (some '\n'))
  | '\n' :: cs => if joining then multiBasic true cs else (multiBasic false cs).push (some '\n')
  | c :: cs =>
    if isControl c || c == '\\' then none
    else if joining && isLineBlank c then multiBasic true cs
    else (multiBasic false cs).push (some c)

/-- A string in single quotes on one line, without escapes. -/
def literal : List Char → Read
  | [] => none
  | '\x27' :: cs => some ([], cs)
  | c :: cs => if isControl c then none else (literal cs).push (some c)

/-- A string in single quotes over several lines, without escapes. -/
def multiLiteral : List Char → Read
  | [] => none
  | '\x27' :: '\x27' :: '\x27' :: '\x27' :: '\x27' :: cs => some (['\x27', '\x27'], cs)
  | '\x27' :: '\x27' :: '\x27' :: '\x27' :: cs => some (['\x27'], cs)
  | '\x27' :: '\x27' :: '\x27' :: cs => some ([], cs)
  | '\r' :: '\n' :: cs => Read.push (some '\r') ((multiLiteral cs).push (some '\n'))
  | '\n' :: cs => (multiLiteral cs).push (some '\n')
  | c :: cs => if isControl c then none else (multiLiteral cs).push (some c)

/-- A line feed right after the opening quotes of several lines does not count. -/
def skipFirstBreak : List Char → List Char
  | '\r' :: '\n' :: cs => cs
  | '\n' :: cs => cs
  | cs => cs

/-- A string in any form, from its opening quotes on. -/
def string? : List Char → Read
  | '"' :: '"' :: '"' :: cs => multiBasic false (skipFirstBreak cs)
  | '"' :: cs => basic cs
  | '\x27' :: '\x27' :: '\x27' :: cs => multiLiteral (skipFirstBreak cs)
  | '\x27' :: cs => literal cs
  | _ => none

end EnvModules.Toml
