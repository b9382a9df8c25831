/-!
How alike two words are: what part of each has a counterpart in the other not far away, and how many of the
counterparts are in the same order.
-/

namespace EnvModules.Text

/-- Marks the first character equal to `c` that has no mark, at a place from `low` to `high`. The marked
text begins at `place`. -/
def markBetween? (c : Char) (low high place : Nat) :
    List (Char × Bool) → Option (List (Char × Bool))
  | [] => none
  | (d, marked) :: rest =>
    if low ≤ place ∧ place ≤ high ∧ d = c ∧ marked = false then some ((d, true) :: rest)
    else (markBetween? c low high (place + 1) rest).map ((d, marked) :: ·)

/-- The characters of a text that have a counterpart in another one, at most `reach` places apart, and the
other one with the counterparts marked. The text begins at `place`. -/
def counterparts (reach place : Nat) :
    List Char → List (Char × Bool) → List Char × List (Char × Bool)
  | [], other => ([], other)
  | c :: cs, other =>
    match markBetween? c (place - reach) (place + reach) 0 other with
    | some other =>
      let (found, other) := counterparts reach (place + 1) cs other
      (c :: found, other)
    | none => counterparts reach (place + 1) cs other

/-- The similarity of two words, from zero for words without a counterpart in each other to one for equal
words. -/
def similarity (a b : List Char) : Rat :=
  if a = [] ∧ b = [] then 1
  else
    let reach := max a.length b.length / 2 - 1
    let (found, other) := counterparts reach 0 a (b.map (·, false))
    if found.isEmpty then 0
    else
      let common := found.length
      let moved := ((found.zip ((other.filter Prod.snd).map Prod.fst)).filter fun (c, d) => c != d).length
      ((common : Rat) / a.length + common / b.length + (common - moved / 2 : Nat) / common) / 3

/-- How alike a word has to be to one that it may be meant for. -/
def similarityLimit : Rat := 7 / 10

/-- The word that a given one is most likely meant for, if any is alike enough. Of two that are just as
alike the later one counts. -/
def mostSimilar? {α : Type} (word : α → List Char) (given : List Char) : List α → Option α
  | [] => none
  | candidate :: rest =>
    let here := similarity given (word candidate)
    match mostSimilar? word given rest with
    | some best =>
      if similarity given (word best) < here then some candidate else some best
    | none => if similarityLimit ≤ here then some candidate else none

end EnvModules.Text
