import EnvModules.Text.Numeral
import EnvModules.Text.Split

/-!
Which unquoted texts are numbers, dates and times in a TOML document.
-/

namespace EnvModules.Toml

open Text

def isHexDigit (c : Char) : Bool := c.isDigit || ('a' ≤ c && c ≤ 'f') || ('A' ≤ c && c ≤ 'F')

/-- Whether every underscore stands between two digits. A single character in front of all underscores
may be a sign. -/
def separates (isDigit : Char → Bool) (cs : List Char) : Bool :=
  match fields (· == '_') cs with
  | [] | [_] => true
  | first :: later =>
    !first.isEmpty && (first.length == 1 || first.getLast?.all isDigit) &&
      (later.all fun part => part.head?.any isDigit) &&
      later.dropLast.all fun part => part.getLast?.all isDigit

def withoutSign : List Char → List Char
  | '+' :: cs => cs
  | '-' :: cs => cs
  | cs => cs

/-- What comes after a run of digits and underscores with one digit at least. -/
def afterDigits? (cs : List Char) : Option (List Char) :=
  if (cs.takeWhile fun c => c.isDigit || c == '_').any Char.isDigit then
    some (cs.dropWhile fun c => c.isDigit || c == '_')
  else none

/-- Whether a text begins with a zero although it has more digits before a point or an exponent. -/
def hasIdleZero (cs : List Char) : Bool :=
  cs.head? == some '0' &&
    1 < ((cs.takeWhile fun c => c.isDigit || c == '_').filter Char.isDigit).length

def isExponentMark (c : Char) : Bool := c == 'e' || c == 'E'

/-- An exponent, or nothing. -/
def isExponent : List Char → Bool
  | [] => true
  | c :: cs => isExponentMark c && afterDigits? (withoutSign cs) == some []

/-- Digits that may have a fraction and an exponent after them. -/
def isFloat (cs : List Char) : Bool :=
  !hasIdleZero cs &&
    match afterDigits? cs with
    | some ('.' :: fraction) =>
      match afterDigits? fraction with
      | some exponent => isExponent exponent
      | none => false
    | some exponent => isExponent exponent
    | none => false

/-- A number in decimal digits, possibly with a sign. With underscores but without a fraction or an
exponent only what stands next to the underscores has to be digits, even hexadecimal ones: the rest
counts when the number is evaluated, and no configuration has a number to evaluate. -/
def isDecimal (cs : List Char) : Bool :=
  let unsigned := withoutSign cs
  let rest := unsigned.dropWhile Char.isDigit
  match rest.head? with
  | none => unsigned.length == 1 || (!unsigned.isEmpty && unsigned.head? != some '0')
  | some c =>
    if c == '-' || c == ':' then false
    else if rest.any fun c => c == '.' || isExponentMark c then
      isFloat unsigned && separates Char.isDigit cs
    else
      c == '_' && !rest.contains ' ' && unsigned.head? != some '0' && separates isHexDigit cs

/-- Digits of another base. There need not be any before the number is evaluated. -/
def isBased (isDigit : Char → Bool) (cs : List Char) : Bool :=
  (cs.all fun c => isDigit c || c == '_') && separates isDigit cs

def isNumber (cs : List Char) : Bool :=
  match cs with
  | '0' :: 'x' :: digits => isBased isHexDigit digits
  | '0' :: 'o' :: digits => isBased (fun c => '0' ≤ c && c ≤ '7') digits
  | '0' :: 'b' :: digits => isBased (fun c => c == '0' || c == '1') digits
  | _ =>
    withoutSign cs = ['i', 'n', 'f'] || withoutSign cs = ['n', 'a', 'n'] || isDecimal cs

/-- A number of exactly so many digits. -/
def fixed? (digits : Nat) (cs : List Char) : Option Nat :=
  if cs.length = digits then decimal? cs else none

def daysInMonth (year month : Nat) : Nat :=
  if month = 2 then
    if year % 4 = 0 ∧ (year % 100 ≠ 0 ∨ year % 400 = 0) then 29 else 28
  else if month = 4 ∨ month = 6 ∨ month = 9 ∨ month = 11 then 30
  else 31

def isDate (cs : List Char) : Bool :=
  match fields (· == '-') cs with
  | [year, month, day] =>
    match fixed? 4 year, fixed? 2 month, fixed? 2 day with
    | some y, some m, some d => 1 ≤ m && m ≤ 12 && 1 ≤ d && d ≤ daysInMonth y m
    | _, _, _ => false
  | _ => false

/-- Hours and minutes. -/
def isClock (hour minute : List Char) : Bool :=
  match fixed? 2 hour, fixed? 2 minute with
  | some h, some m => h ≤ 23 && m ≤ 59
  | _, _ => false

/-- Seconds, possibly with a fraction. -/
def isSeconds (cs : List Char) : Bool :=
  let (whole, fraction) := match splitOnce '.' cs with
    | some (whole, fraction) => (whole, !fraction.isEmpty && fraction.all Char.isDigit)
    | none => (cs, true)
  fraction && match fixed? 2 whole with
    | some s => s ≤ 60
    | none => false

/-- A time of day, whose seconds may be left out. -/
def isTime (cs : List Char) : Bool :=
  match fields (· == ':') cs with
  | [hour, minute] => isClock hour minute
  | [hour, minute, seconds] => isClock hour minute && isSeconds seconds
  | _ => false

def isOffset (cs : List Char) : Bool :=
  match fields (· == ':') cs with
  | [hour, minute] => isClock hour minute
  | _ => false

/-- A time of day, possibly with its distance from universal time. -/
def isTimeWithOffset (cs : List Char) : Bool :=
  match cs.reverse with
  | 'Z' :: before | 'z' :: before => isTime before.reverse
  | _ =>
    match splitOnce '+' cs, splitOnce '-' cs with
    | some (time, offset), _ | none, some (time, offset) => isTime time && isOffset offset
    | none, none => isTime cs

/-- A date, a time of day, or both with a separator between them. -/
def isMoment (cs : List Char) : Bool :=
  isDate cs || isTime cs ||
    (isDate (cs.take 10) &&
      match cs.drop 10 with
      | 'T' :: time | 't' :: time | ' ' :: time => isTimeWithOffset time
      | _ => false)

end EnvModules.Toml
