/-!
Unsigned decimal numerals.
-/

namespace EnvModules.Text

/-- The value of a run of ASCII digits, most significant first. -/
def digitsValue (cs : List Char) : Nat :=
  cs.foldl (fun n c => 10 * n + (c.toNat - '0'.toNat)) 0

/-- The number a non-empty run of ASCII digits stands for. -/
def decimal? (cs : List Char) : Option Nat :=
  if cs ≠ [] ∧ cs.all Char.isDigit then some (digitsValue cs) else none

/-- Two to the power of 64. -/
def word64Limit : Nat := 18446744073709551616

/-- The number a non-empty run of ASCII digits stands for, if it fits into 64 bits. One with more than
twenty digits after its first zeros does not. -/
def word64? (cs : List Char) : Option Nat :=
  if (cs.dropWhile (· == '0')).length ≤ 20 then (decimal? cs).filter (· < word64Limit) else none

end EnvModules.Text
