import EnvModules.Name
import EnvModules.Text.Numeral

/-!
The order of versions, and the policies by which a loaded version meets a requested one.
-/

namespace EnvModules

open Text

namespace Version

/-- A part of a version: a number that fits into 64 bits, or any other text. -/
inductive Segment where
  | number (value : Nat)
  | text (value : String)
  deriving DecidableEq, Repr

def Segment.ofChars (cs : List Char) : Segment :=
  match word64? cs with
  | some n => .number n
  | none => .text (String.ofList cs)

/-- Numbers come before texts. -/
def Segment.compare : Segment → Segment → Ordering
  | .number m, .number n => Ord.compare m n
  | .number _, .text _ => .lt
  | .text _, .number _ => .gt
  | .text s, .text t => Ord.compare s t

def isSeparator (c : Char) : Bool := c == '.' || c == '-' || c == '_' || c == '+'

/-- The non-empty parts between separators. -/
def segments (version : String) : List Segment :=
  ((fields isSeparator version.toList).filter (!·.isEmpty)).map Segment.ofChars

/-- The first difference decides. A segment that one side lacks counts as the number zero. -/
def compareSegments : List Segment → List Segment → Ordering
  | [], rs => zeros rs
  | l :: ls, rs => ((l.compare (rs.headD (.number 0))).then (compareSegments ls rs.tail))
where
  zeros : List Segment → Ordering
    | [] => .eq
    | r :: rs => (Segment.compare (.number 0) r).then (zeros rs)

def compare (a b : String) : Ordering := compareSegments (segments a) (segments b)

end Version

/-- How a requested version restricts the loaded ones. -/
inductive Policy where
  | equal
  | atLeast
  | atMost
  deriving DecidableEq, Repr

namespace Policy

/-- Case does not matter, and neither do hyphens and underscores. -/
def parse? (s : String) : Option Policy :=
  let folded := String.ofList ((s.toList.filter fun c => c != '-' && c != '_').map Char.toLower)
  if folded = "equal" ∨ folded = "eq" then some .equal
  else if folded = "atleast" ∨ folded = "ge" then some .atLeast
  else if folded = "atmost" ∨ folded = "le" then some .atMost
  else none

/-- The text of the refusal of a policy that `parse?` does not know. -/
def unknownMessage (s : String) : String :=
  "Unknown version match policy '" ++ s ++ "'. Expected equal, atleast or atmost."

/-- Equality is equality of texts; the other policies follow the order of versions. -/
def accepts (p : Policy) (requested loaded : String) : Bool :=
  match p with
  | .equal => requested == loaded
  | .atLeast => Version.compare loaded requested != .lt
  | .atMost => Version.compare loaded requested != .gt

/-- A name matches itself, a bare package matches each of its versions, and a version matches by the
policy. -/
def admits (p : Policy) (requested loaded : Name) : Bool :=
  requested == loaded ||
    (requested.package == loaded.package &&
      match requested.version, loaded.version with
      | none, _ => true
      | some want, some found => p.accepts want found
      | some _, none => false)

end Policy

end EnvModules
