/-!
Cutting a text into fields at separators and into lines, and joining fields again.
-/

namespace EnvModules.Text

/-- The fields between the characters that satisfy `sep`. There is always at least one. -/
def fields (sep : Char → Bool) : List Char → List (List Char)
  | [] => [[]]
  | c :: cs =>
    if sep c then [] :: fields sep cs
    else
      match fields sep cs with
      | [] => [[c]]
      | f :: fs => (c :: f) :: fs

theorem fields_ne_nil (sep : Char → Bool) (cs : List Char) : fields sep cs ≠ [] := by
  cases cs with
  | nil => simp [fields]
  | cons c cs =>
    by_cases h : sep c
    · simp [fields, h]
    · simp only [fields, h]
      cases fields sep cs <;> simp

theorem fields_append_cons {sep : Char → Bool} {c : Char} (hc : sep c = true) (l r : List Char) :
    fields sep (l ++ c :: r) = fields sep l ++ fields sep r := by
  induction l with
  | nil => simp [fields, hc]
  | cons d l ih =>
    rw [List.cons_append, fields, fields, ih]
    -- A separator begins a field, and any other character goes to the first field of what follows.
    split
    · rfl
    · rcases h : fields sep l with _ | ⟨f, fs⟩
      · exact absurd h (fields_ne_nil _ _)
      · rfl

theorem fields_of_forall_not {sep : Char → Bool} {cs : List Char} (h : ∀ c ∈ cs, sep c = false) :
    fields sep cs = [cs] := by
  induction cs with
  | nil => rfl
  | cons c cs ih =>
    obtain ⟨hc, hcs⟩ := List.forall_mem_cons.1 h
    simp [fields, hc, ih hcs]

/-- The fields with one separator character between neighbours. -/
def join (sep : Char) : List (List Char) → List Char
  | [] => []
  | [f] => f
  | f :: fs => f ++ sep :: join sep fs

/-- Each line ends at a line feed, and a carriage return right before it belongs to the ending. A
text that ends in a line feed has no further line after it. -/
def lines : List Char → List (List Char)
  | [] => []
  | '\r' :: '\n' :: cs => [] :: lines cs
  | '\n' :: cs => [] :: lines cs
  | c :: cs =>
    match lines cs with
    | [] => [[c]]
    | l :: ls => (c :: l) :: ls

/-- The parts before and after the first character equal to `sep`, if there is one. -/
def splitOnce (sep : Char) : List Char → Option (List Char × List Char)
  | [] => none
  | c :: cs =>
    if c = sep then some ([], cs)
    else (splitOnce sep cs).map fun (before, after) => (c :: before, after)

end EnvModules.Text
