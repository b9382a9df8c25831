/-!
Writing a value so that a reader takes it back as one word: in single quotes, and as a literal in
double quotes with escapes.
-/

namespace EnvModules.Text

/-- A single quote ends the quoted run, stands escaped, and opens the next run. -/
def singleQuotedChar (c : Char) : List Char :=
  if c = '\x27' then "'\\''".toList else [c]

/-- The value between single quotes, where only a single quote has no form of its own. -/
def singleQuoted (cs : List Char) : List Char :=
  '\x27' :: cs.flatMap singleQuotedChar ++ ['\x27']

def hexDigit (n : Nat) : Char :=
  if n < 10 then Char.ofNat (0x30 + n) else Char.ofNat (0x61 + (n - 10))

/-- Quotes and backslashes are escaped, control characters below the space have a short or a
four-digit form, and everything else stands for itself. -/
def literalChar (c : Char) : List Char :=
  if c = '"' then ['\\', '"']
  else if c = '\\' then ['\\', '\\']
  else if c = '\n' then ['\\', 'n']
  else if c = '\r' then ['\\', 'r']
  else if c = '\t' then ['\\', 't']
  else if c = '\x08' then ['\\', 'b']
  else if c = '\x0c' then ['\\', 'f']
  else if c.toNat < 0x20 then
    ['\\', 'u', '0', '0', hexDigit (c.toNat / 16), hexDigit (c.toNat % 16)]
  else [c]

/-- The value as a double-quoted literal. -/
def literal (cs : List Char) : List Char :=
  '"' :: cs.flatMap literalChar ++ ['"']

end EnvModules.Text
