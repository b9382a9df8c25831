/-!
Patterns in which a star stands for any run of characters without a line feed. All ends of a text are
matched at once, so the work grows only with the pattern times the text.
-/

namespace EnvModules.Text

/-- Given which ends of a text match what follows a star in a pattern, which match from the star on. -/
def starMatches : List Char → List Bool → List Bool
  | c :: cs, b :: later =>
    let row := starMatches cs later
    (b || (c != '\n' && row.headD false)) :: row
  | _, row => row

/-- Given which ends of a text match what follows a character in a pattern, which match from the
character on. -/
def charMatches (p : Char) : List Char → List Bool → List Bool
  | c :: cs, _ :: later => (c == p && later.headD false) :: charMatches p cs later
  | _, _ => [false]

/-- Which ends of a text a pattern matches, beginning with the whole text. -/
def endMatches : List Char → List Char → List Bool
  | [], cs => cs.map (fun _ => false) ++ [true]
  | p :: ps, cs =>
    if p = '*' then starMatches cs (endMatches ps cs) else charMatches p cs (endMatches ps cs)

/-- Every character of the pattern but the star stands for itself. -/
def wildcardMatches (pattern cs : List Char) : Bool := (endMatches pattern cs).headD false

theorem tail_endMatches (pattern : List Char) (c : Char) (cs : List Char) :
    ∃ b, endMatches pattern (c :: cs) = b :: endMatches pattern cs := by
  induction pattern with
  | nil => exact ⟨false, rfl⟩
  | cons p ps ih =>
    obtain ⟨b, h⟩ := ih
    by_cases hp : p = '*'
    · simp only [endMatches, hp, if_true, h, starMatches]; exact ⟨_, rfl⟩
    · simp only [endMatches, hp, if_false, h, charMatches]; exact ⟨_, rfl⟩

@[simp] theorem wildcardMatches_nil (cs : List Char) : wildcardMatches [] cs = cs.isEmpty := by
  cases cs <;> rfl

@[simp] theorem wildcardMatches_star_nil (ps : List Char) :
    wildcardMatches ('*' :: ps) [] = wildcardMatches ps [] := by
  simp [wildcardMatches, endMatches, starMatches]

/-- A star stands for nothing, or for one character more. -/
theorem wildcardMatches_star_cons (ps : List Char) (c : Char) (cs : List Char) :
    wildcardMatches ('*' :: ps) (c :: cs) =
      (wildcardMatches ps (c :: cs) || (c != '\n' && wildcardMatches ('*' :: ps) cs)) := by
  obtain ⟨b, h⟩ := tail_endMatches ps c cs
  simp [wildcardMatches, endMatches, h, starMatches]

theorem wildcardMatches_char_nil {p : Char} (hp : p ≠ '*') (ps : List Char) :
    wildcardMatches (p :: ps) [] = false := by
  simp [wildcardMatches, endMatches, hp, charMatches]

theorem wildcardMatches_char_cons {p : Char} (hp : p ≠ '*') (ps : List Char) (c : Char)
    (cs : List Char) :
    wildcardMatches (p :: ps) (c :: cs) = (c == p && wildcardMatches ps cs) := by
  obtain ⟨b, h⟩ := tail_endMatches ps c cs
  simp [wildcardMatches, endMatches, hp, h, charMatches]

end EnvModules.Text
