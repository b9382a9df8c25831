import EnvModules.Text.Alphanumeric
import EnvModules.Text.Split

/-!
References to variables inside a text.
-/

namespace EnvModules

open Text

/-- A part of a text that may refer to variables. -/
inductive Piece where
  /-- A character that stands for itself. -/
  | char (c : Char)
  /-- A reference as it is written, the name it refers to, and what to put when there is no such
  variable. -/
  | reference (written name : List Char) (fallback : Option (List Char))
  deriving DecidableEq, Repr

namespace Piece

/-- The parts before and after the first `:-`. -/
def splitFallback : List Char → Option (List Char × List Char)
  | ':' :: '-' :: cs => some ([], cs)
  | [] => none
  | c :: cs => (splitFallback cs).map fun (before, after) => (c :: before, after)

/-- A reference in braces. A fallback needs a name in front of it. -/
def braced (inside : List Char) : Piece :=
  let written := '$' :: '{' :: inside ++ ['}']
  match splitFallback inside with
  | some (c :: name, fallback) => reference written (c :: name) (some fallback)
  | _ => reference written inside none

theorem length_of_splitOnce {sep : Char} {cs before after : List Char}
    (h : splitOnce sep cs = some (before, after)) : after.length < cs.length := by
  induction cs generalizing before with
  | nil => simp [splitOnce] at h
  | cons c cs ih =>
    simp only [splitOnce] at h
    split at h
    · simp at h; simp [h.2]
    · simp only [Option.map_eq_some_iff, Prod.exists, Prod.mk.injEq] at h
      obtain ⟨b, a, hb, _, rfl⟩ := h
      exact Nat.lt_succ_of_lt (ih hb)

theorem length_dropWhile_le (p : Char → Bool) (cs : List Char) :
    (cs.dropWhile p).length ≤ cs.length := by
  induction cs with
  | nil => simp
  | cons c cs ih => simp only [List.dropWhile]; split <;> simp; omega

/-- A dollar sign begins a reference: the longest run of name characters after it, or what stands in
braces. Two dollar signs stand for one, and one that begins no reference stands for itself. After a brace
that nothing closes the others are not closed either, which the first argument records. -/
def ofChars (closable : Bool) : List Char → List Piece
  | [] => []
  | '$' :: '$' :: cs => char '$' :: ofChars closable cs
  | '$' :: '{' :: cs =>
    if closable then
      match h : splitOnce '}' cs with
      | some (inside, after) =>
        have := length_of_splitOnce h
        braced inside :: ofChars closable after
      | none => char '$' :: char '{' :: ofChars false cs
    else char '$' :: char '{' :: ofChars false cs
  | '$' :: cs =>
    have := length_dropWhile_le isNameChar cs
    let name := cs.takeWhile isNameChar
    if name.isEmpty then char '$' :: ofChars closable cs
    else reference ('$' :: name) name none :: ofChars closable (cs.dropWhile isNameChar)
  | c :: cs => char c :: ofChars closable cs
termination_by cs => cs.length
decreasing_by all_goals simp only [List.length_cons]; omega

/-- What a piece stands for, given the values of the variables. A reference to no variable and
without a fallback stays as it is written. -/
def value (vars : String → Option String) : Piece → List Char
  | char c => [c]
  | reference written name fallback =>
    match vars (String.ofList name) with
    | some v => v.toList
    | none => fallback.getD written

end Piece

/-- A text with its references replaced. What is put in is not read again. -/
def expandWith (vars : String → Option String) (s : String) : String :=
  String.ofList ((Piece.ofChars true s.toList).flatMap (Piece.value vars))

end EnvModules
