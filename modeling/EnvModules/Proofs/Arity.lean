import EnvModules.Proofs.FaultLines

/-!
How many words stand after a keyword. Main statement: in every descriptor that can be read each line has as many
as its keyword takes, but for the lines that close a choice, after which any words can stand and do not count.
-/

namespace EnvModules

open Text

/-- How many words are to follow a keyword. -/
inductive Arity where
  | exactly (n : Nat)
  | oneOrMore
  /-- The words of one condition. -/
  | condition
  deriving DecidableEq, Repr

namespace Arity

/-- The words that are to follow a keyword, which is given in lower case, if it is one. -/
def ofKeyword? (keyword : String) : Option Arity :=
  if keyword ∈ ["setvar", "setpkgvar", "setpath", "swap"] then some (.exactly 2)
  else if keyword ∈ ["setall", "setbin", "setlib", "setman", "setinclude", "setpython", "setversionmatch"] then
    some (.exactly 1)
  else if keyword ∈ ["prereq", "conflict", "load", "whatis"] then some .oneOrMore
  else if keyword ∈ ["if", "elif"] then some .condition
  else if keyword ∈ ["else", "end", "endif"] then some (.exactly 0)
  else none

/-- Whether there are as many words as are to follow. Any number of negations can stand before a condition, which
takes two words if it compares them, and else one. -/
def Admits : Arity → List String → Prop
  | .exactly n, words => words.length = n
  | .oneOrMore, words => 1 ≤ words.length
  | .condition, words => ∃ negations k arguments, words = negations ++ k :: arguments ∧
      (∀ word ∈ negations, word.toLower ∈ ["not", "!"]) ∧
      (k.toLower ∈ ["defined", "loaded", "mode"] ∧ arguments.length = 1 ∨
        k.toLower = "equal" ∧ arguments.length = 2)

end Arity

theorem Condition.Spelled.admits {words : List String} {test : Condition} (h : test.Spelled words) :
    Arity.condition.Admits words := by
  induction h with
  | @defined k name hk | @loaded k name hk | @mode k name _ hk =>
    exact ⟨[], k, [name], rfl, List.forall_mem_nil _, .inl ⟨by simp [hk], rfl⟩⟩
  | @equal k left right hk => exact ⟨[], k, [left, right], rfl, List.forall_mem_nil _, .inr ⟨hk, rfl⟩⟩
  | @not k words condition hk hc ih =>
    obtain ⟨negations, k', arguments, rfl, hn, ha⟩ := ih
    exact ⟨k :: negations, k', arguments, rfl, List.forall_mem_cons.2 ⟨by simpa using hk, hn⟩, ha⟩

theorem Statement.Spelled.admits {k : String} {words : List String} {st : Statement}
    (h : st.Spelled (k :: words)) : ∃ arity, Arity.ofKeyword? k.toLower = some arity ∧ arity.Admits words := by
  cases h with
  | setVariable _ hk | setPackageVariable _ hk | prependPath _ hk | swap _ _ hk =>
    exact ⟨.exactly 2, by rw [hk]; rfl, rfl⟩
  | installTree _ hk | matchVersions hk => exact ⟨.exactly 1, by rw [hk]; rfl, rfl⟩
  | @install _ location _ hk =>
    refine ⟨.exactly 1, ?_, rfl⟩
    rw [hk]
    cases location <;> decide +kernel
  | require hk hn | conflict hk hn | load hk hn | describe hk hn =>
    exact ⟨.oneOrMore, by rw [hk]; rfl, List.length_pos_of_ne_nil hn⟩

namespace Line

/-- The keywords, in lower case, of the lines that close a choice. -/
def closings : List String := ["end", "endif"]

/-- Whether there are as many words after the keyword as are to follow it. -/
def HasArity (line : Line) : Prop :=
  ∃ arity, Arity.ofKeyword? line.head.toLower = some arity ∧ arity.Admits line.arguments

/-- A line that closes a choice, without the words after its keyword. Any other line stays as it is. -/
def withoutExcess (line : Line) : Line :=
  if line.head.toLower ∈ closings then { line with arguments := [] } else line

theorem hasArity_withoutExcess_of_closing {line : Line} (h : line.head.toLower ∈ closings) :
    line.withoutExcess.HasArity := by
  rw [withoutExcess, if_pos h]
  rcases List.mem_pair.1 h with hk | hk
  all_goals exact ⟨.exactly 0, by simp only [hk]; rfl, rfl⟩

end Line

theorem Clause.Spelled.hasArity_withoutExcess {line : Line} {clause : Clause} (h : clause.Spelled line.words) :
    line.withoutExcess.HasArity := by
  -- A line that closes a choice is spelled with any words, and the others with those they take.
  by_cases hc : line.head.toLower ∈ Line.closings
  · exact Line.hasArity_withoutExcess_of_closing hc
  rw [Line.withoutExcess, if_neg hc]
  obtain ⟨n, k, words⟩ := line
  cases h with
  | statement hs => exact hs.admits
  | opening hk ht | alternative hk ht => exact ⟨.condition, by simp only [hk]; rfl, ht.admits⟩
  | otherwise hk => exact ⟨.exactly 0, by simp only [hk]; rfl, rfl⟩
  | closing _ hk => exact absurd (List.mem_pair.2 hk) hc

namespace Progress

theorem step_withoutExcess (p : Progress) (line : Line) : p.step line.withoutExcess = p.step line := by
  unfold Line.withoutExcess
  split
  · next hc =>
    have hl : Clause.ofLine { line with arguments := [] } = Clause.ofLine line := by
      rcases List.mem_pair.1 hc with hk | hk <;> simp [Clause.ofLine, hk]
    simp only [step, hl]
  · rfl

/-- A line that can be read has the words that are to follow its keyword, apart from the excess. -/
theorem hasArity_of_steps {lines : List Line} {p p' : Progress} (h : lines.foldlM step p = .ok p') :
    ∀ line ∈ lines, line.withoutExcess.HasArity := by
  induction lines generalizing p with
  | nil => exact List.forall_mem_nil _
  | cons line rest ih =>
    rw [List.foldlM_cons] at h
    obtain ⟨next, hs, h⟩ := exists_of_bind_eq_ok h
    obtain ⟨clause, hc, -, -⟩ := step_eq_ok_iff.1 hs
    exact List.forall_mem_cons.2 ⟨hc.hasArity_withoutExcess, ih h⟩

end Progress

namespace Descriptor

theorem ofLines_withoutExcess (lines : List Line) : ofLines (lines.map Line.withoutExcess) = ofLines lines := by
  have hstep : (fun p line => Progress.step p (Line.withoutExcess line)) = Progress.step :=
    funext₂ Progress.step_withoutExcess
  rw [ofLines, List.foldlM_map, hstep, ofLines]

/-- In a descriptor that can be read, each line that does not close a choice has as many words after its keyword as
are to follow it. After the keyword of one that closes a choice none are to follow, but any can: without them each
line has its words, and the statements are the same. -/
theorem arity_of_read {source : String} {t : List Statement} (h : read source = .ok t) :
    ∃ lines, Line.ofText source = .ok lines ∧
      (∀ line ∈ lines, line.head.toLower ∉ Line.closings → line.HasArity) ∧
      (∀ line ∈ lines, line.withoutExcess.HasArity) ∧ ofLines (lines.map Line.withoutExcess) = .ok t := by
  obtain ⟨lines, hl, h⟩ := exists_of_bind_eq_ok h
  obtain ⟨p, hp, -⟩ := exists_of_bind_eq_ok h
  have harity := Progress.hasArity_of_steps hp
  refine ⟨lines, hl, fun line hm hc => ?_, harity, (ofLines_withoutExcess lines).trans h⟩
  have hline := harity line hm
  rwa [Line.withoutExcess, if_neg hc] at hline

/-- Two choices, one in the other, of which the inner one has a word after its end. -/
theorem arity_of_read_of_nested :
    let source := "#%EnvMaster1.0\nIF not ! equal $A b\nif mode load\nprereq a b\nelse\nsetVar '1 2' V\nend if\nendif"
    let lines : List Line := [⟨2, "IF", ["not", "!", "equal", "$A", "b"]⟩, ⟨3, "if", ["mode", "load"]⟩,
      ⟨4, "prereq", ["a", "b"]⟩, ⟨5, "else", []⟩, ⟨6, "setVar", ["1 2", "V"]⟩, ⟨7, "end", ["if"]⟩, ⟨8, "endif", []⟩]
    Line.ofText source = .ok lines ∧
      (∀ line ∈ lines, line.head.toLower ∉ Line.closings → line.HasArity) ∧
      (∀ line ∈ lines, line.withoutExcess.HasArity) ∧
      ∃ t, read source = .ok t ∧ ofLines (lines.map Line.withoutExcess) = .ok t := by
  intro source lines
  have hl : Line.ofText source = .ok lines := by decide +kernel
  obtain ⟨t, ht⟩ := fault?_eq_none_iff.1 (show fault? (read source) = none by decide +kernel)
  obtain ⟨lines', hl', harity, hexcess, hread⟩ := arity_of_read ht
  obtain rfl : lines' = lines := Except.ok.inj (hl'.symm.trans hl)
  exact ⟨hl, harity, hexcess, t, ht, hread⟩

/-- A line that closes a choice is read although a word follows its keyword, after which none is to follow. -/
theorem not_hasArity_of_read :
    let source := "#%EnvMaster1.0\nif defined A\nend if\n"
    let line : Line := ⟨3, "end", ["if"]⟩
    (∃ t, read source = .ok t) ∧ (∃ lines, Line.ofText source = .ok lines ∧ line ∈ lines) ∧ ¬ line.HasArity := by
  intro source line
  have hl : Line.ofText source = .ok [⟨2, "if", ["defined", "A"]⟩, line] := by decide +kernel
  refine ⟨fault?_eq_none_iff.1 (by decide +kernel), ⟨_, hl, by simp⟩, ?_⟩
  rintro ⟨arity, hk, ha⟩
  have hend : Arity.ofKeyword? line.head.toLower = some (.exactly 0) := by decide +kernel
  obtain rfl := Option.some.inj (hk.symm.trans hend)
  contradiction

end Descriptor

end EnvModules
