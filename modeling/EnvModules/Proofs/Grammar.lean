import EnvModules.Descriptor.Reader
import EnvModules.Proofs.Words

/-!
The grammar of descriptors. A descriptor is a block of simple statements and choices. A choice begins with a
condition and a block, goes on with any number of further conditions and their blocks, may have one last block
without a condition, and ends with a line of its own. Main statement: a text is read exactly if its lines are a
block, and as the statements of that block.
-/

namespace EnvModules

open Text

/-! ### Single lines -/

/-- The words of a condition. Case does not matter in its keywords. -/
inductive Condition.Spelled : List String → Condition → Prop where
  | defined {k : String} (name : String) (hk : k.toLower = "defined") : Spelled [k, name] (.defined name)
  | equal {k : String} (left right : String) (hk : k.toLower = "equal") :
      Spelled [k, left, right] (.equal left right)
  | loaded {k : String} (name : String) (hk : k.toLower = "loaded") : Spelled [k, name] (.loaded name)
  | mode {k word : String} {mode : Mode} (hk : k.toLower = "mode") (hm : Mode.parse? word = some mode) :
      Spelled [k, word] (.mode mode)
  | not {k : String} {words : List String} {condition : Condition}
      (hk : k.toLower = "not" ∨ k.toLower = "!") (hc : Spelled words condition) :
      Spelled (k :: words) (.not condition)

/-- The keyword of the statement that records a directory of this kind. -/
def Location.keyword : Location → String
  | .bin => "setBin"
  | .lib => "setLib"
  | .man => "setMan"
  | .headers => "setInclude"
  | .python => "setPython"

/-- The words of a simple statement, its keyword first. -/
inductive Statement.Spelled : List String → Statement → Prop where
  | setVariable {k : String} (value : String) {name : String} (hk : k.toLower = "setvar")
      (hn : isIdentifier name = true) : Spelled [k, value, name] (.setVariable value name)
  | setPackageVariable {k : String} (value : String) {ending : String} (hk : k.toLower = "setpkgvar")
      (he : isEnding ending = true) : Spelled [k, value, ending] (.setPackageVariable value ending)
  | prependPath {k : String} (value : String) {name : String} (hk : k.toLower = "setpath")
      (hn : isIdentifier name = true) : Spelled [k, value, name] (.prependPath value name)
  | installTree {k : String} (root : String) (hk : k.toLower = "setall") : Spelled [k, root] (.installTree root)
  | install {k : String} {location : Location} (directory : String)
      (hk : k.toLower = location.keyword.toLower) : Spelled [k, directory] (.install location directory)
  | require {k : String} {names : List String} (hk : k.toLower = "prereq") (hn : names ≠ []) :
      Spelled (k :: names) (.require names)
  | conflict {k : String} {names : List String} (hk : k.toLower = "conflict") (hn : names ≠ []) :
      Spelled (k :: names) (.conflict names)
  | load {k : String} {names : List String} (hk : k.toLower = "load") (hn : names ≠ []) :
      Spelled (k :: names) (.load names)
  | swap {k : String} (old new : String) (hk : k.toLower = "swap") : Spelled [k, old, new] (.swap old new)
  | describe {k : String} {texts : List String} (hk : k.toLower = "whatis") (ht : texts ≠ []) :
      Spelled (k :: texts) (.describe (" ".intercalate texts))
  | matchVersions {k word : String} {policy : Policy} (hk : k.toLower = "setversionmatch")
      (hp : Policy.parse? word = some policy) : Spelled [k, word] (.matchVersions policy)

/-- The words of a line, by what it does to the choices around it. What follows the word that closes a choice
does not count. -/
inductive Clause.Spelled : List String → Clause → Prop where
  | statement {words : List String} {st : Statement} (h : st.Spelled words) : Spelled words (.statement st)
  | opening {k : String} {words : List String} {test : Condition} (hk : k.toLower = "if")
      (hc : test.Spelled words) : Spelled (k :: words) (.opening test)
  | alternative {k : String} {words : List String} {test : Condition} (hk : k.toLower = "elif")
      (hc : test.Spelled words) : Spelled (k :: words) (.alternative test)
  | otherwise {k : String} (hk : k.toLower = "else") : Spelled [k] .otherwise
  | closing {k : String} (words : List String) (hk : k.toLower = "end" ∨ k.toLower = "endif") :
      Spelled (k :: words) .closing

/-! ### Blocks -/

namespace Descriptor

mutual

/-- The lines of a block, each as its words, and the statements of the block. -/
inductive Block : List (List String) → List Statement → Prop where
  | nil : Block [] []
  | simple {words : List String} {lines : List (List String)} {st : Statement} {rest : List Statement}
      (h : (Clause.statement st).Spelled words) (hr : Block lines rest) : Block (words :: lines) (st :: rest)
  | choose {words : List String} {lines more others : List (List String)} {test : Condition}
      {body otherwise rest : List Statement} {branches : List (Condition × List Statement)}
      (h : (Clause.opening test).Spelled words) (hb : Block lines body)
      (hm : Remainder more branches otherwise) (hr : Block others rest) :
      Block (words :: (lines ++ more ++ others)) (.choose ((test, body) :: branches) otherwise :: rest)

/-- The lines of a choice after its first block: what they add to its branches, and its last block. -/
inductive Remainder : List (List String) → List (Condition × List Statement) → List Statement → Prop where
  | alternative {words : List String} {lines more : List (List String)} {test : Condition}
      {body otherwise : List Statement} {branches : List (Condition × List Statement)}
      (h : (Clause.alternative test).Spelled words) (hb : Block lines body)
      (hm : Remainder more branches otherwise) :
      Remainder (words :: (lines ++ more)) ((test, body) :: branches) otherwise
  | otherwise {words words' : List String} {lines : List (List String)} {body : List Statement}
      (h : Clause.otherwise.Spelled words) (hb : Block lines body) (hc : Clause.closing.Spelled words') :
      Remainder (words :: (lines ++ [words'])) [] body
  | closing {words : List String} (h : Clause.closing.Spelled words) : Remainder [words] [] []

end

/-- The lines after the first that hold statements, cut into words, if each of them can be. -/
def tokens? (source : String) : Option (List (List String)) :=
  (((Text.lines source.toList).drop 1).filterMap Line.statement?).mapM fun cs =>
    (words cs).map (List.map String.ofList)

end Descriptor

/-! ### Reading single lines -/

theorem exists_of_map_eq_ok {α β ε : Type} {f : α → β} {x : Except ε α} {b : β} (h : x.map f = .ok b) :
    ∃ a, x = .ok a ∧ f a = b := by
  cases x with
  | error fault => contradiction
  | ok a => exact ⟨a, rfl, Except.ok.inj h⟩

theorem Condition.ofWords_of_spelled {words : List String} {c : Condition} (h : c.Spelled words) :
    ofWords words = .ok c := by
  induction h with
  | not hk _ ih =>
    rcases hk with hk | hk <;> simp [ofWords, hk, ih, Except.map]
  | mode hk hm => simp [ofWords, hk, hm]
  | defined name hk | equal left right hk | loaded name hk => simp [ofWords, hk]

theorem Condition.spelled_of_ofWords {words : List String} {c : Condition} (h : ofWords words = .ok c) :
    c.Spelled words := by
  induction words generalizing c with
  | nil => exact nomatch h
  | cons k rest ih =>
    unfold ofWords at h
    simp only at h
    split at h
    · next hk =>
      obtain ⟨inner, hr, rfl⟩ := exists_of_map_eq_ok h
      exact .not hk (ih hr)
    split at h
    · next hk =>
      split at h
      · obtain rfl := Except.ok.inj h
        exact .defined _ hk
      · exact nomatch h
    split at h
    · next hk =>
      split at h
      · obtain rfl := Except.ok.inj h
        exact .equal _ _ hk
      · exact nomatch h
    split at h
    · next hk =>
      split at h
      · obtain rfl := Except.ok.inj h
        exact .loaded _ hk
      · exact nomatch h
    split at h
    · next hk =>
      split at h
      · split at h
        · next hm =>
          obtain rfl := Except.ok.inj h
          exact .mode hk hm
        · exact nomatch h
      · exact nomatch h
    · exact nomatch h

theorem Condition.ofWords_eq_ok_iff {words : List String} {c : Condition} :
    ofWords words = .ok c ↔ c.Spelled words :=
  ⟨spelled_of_ofWords, ofWords_of_spelled⟩

namespace Statement

theorem location?_eq_some_iff {k : String} {location : Location} :
    location? k = some location ↔ k = location.keyword.toLower := by
  have keywords : Location.bin.keyword.toLower = "setbin" ∧ Location.lib.keyword.toLower = "setlib" ∧
      Location.man.keyword.toLower = "setman" ∧ Location.headers.keyword.toLower = "setinclude" ∧
      Location.python.keyword.toLower = "setpython" := by
    decide +kernel
  obtain ⟨hbin, hlib, hman, hheaders, hpython⟩ := keywords
  cases location <;> simp only [location?, hbin, hlib, hman, hheaders, hpython] <;> grind

/-- The keyword of a directory is none of those that are looked at before it. -/
theorem keyword_toLower_ne (location : Location) :
    location.keyword.toLower ∉
      ["setvar", "setpkgvar", "setpath", "setall", "swap", "whatis", "setversionmatch"] := by
  cases location <;> decide +kernel

theorem ofWords_of_spelled {k : String} {words : List String} {st : Statement}
    (h : st.Spelled (k :: words)) : ofWords k.toLower words = .ok st := by
  cases h with
  | @install _ location directory hk =>
    have hne := keyword_toLower_ne location
    rw [← hk] at hne
    simp only [List.mem_cons, List.not_mem_nil, or_false, not_or] at hne
    simp [ofWords, hne, location?_eq_some_iff.2 hk]
  | setVariable value hk hn => simp [ofWords, hk, hn]
  | setPackageVariable value hk hn => simp [ofWords, hk, hn]
  | prependPath value hk hn => simp [ofWords, hk, hn]
  | matchVersions hk hp => simp [ofWords, hk, hp]
  | require hk hn => simp [ofWords, hk, hn, location?, ofModules?]
  | conflict hk hn => simp [ofWords, hk, hn, location?, ofModules?]
  | load hk hn => simp [ofWords, hk, hn, location?, ofModules?]
  | describe hk ht => simp [ofWords, hk, ht]
  | installTree root hk => simp [ofWords, hk]
  | swap old new hk => simp [ofWords, hk]

theorem spelled_of_ofModules? {k : String} {names : List String} {ofNames : List String → Statement}
    (h : ofModules? k.toLower = some ofNames) (hn : names ≠ []) : (ofNames names).Spelled (k :: names) := by
  unfold ofModules? at h
  split at h
  · next hk => exact Option.some.inj h ▸ .require hk hn
  split at h
  · next hk => exact Option.some.inj h ▸ .conflict hk hn
  split at h
  · next hk => exact Option.some.inj h ▸ .load hk hn
  · contradiction

theorem spelled_of_ofWords {k keyword : String} {words : List String} {st : Statement}
    (hk : k.toLower = keyword) (h : ofWords keyword words = .ok st) : st.Spelled (k :: words) := by
  revert h
  fun_cases ofWords keyword words
  all_goals intro h
  all_goals try contradiction
  all_goals obtain rfl := Except.ok.inj h
  -- What is left are the cases without a fault, in the order in which the keywords are looked at.
  case case1 hv _ _ hn => exact .setVariable _ (hk.trans hv) hn
  case case4 hv _ _ he => exact .setPackageVariable _ (hk.trans hv) he
  case case7 hv _ _ hn => exact .prependPath _ (hk.trans hv) hn
  case case10 hv _ => exact .installTree _ (hk.trans hv)
  case case12 hv _ _ => exact .swap _ _ (hk.trans hv)
  case case15 hv ht => exact .describe (hk.trans hv) (by simpa using ht)
  case case16 hv _ _ hp => exact .matchVersions (hk.trans hv) hp
  case case19 hl _ => exact .install _ (hk.trans (location?_eq_some_iff.1 hl))
  case case22 ho _ hn =>
    subst hk
    exact spelled_of_ofModules? ho (by simpa using hn)

/-- The keyword of a statement is none of those that belong to choices. -/
theorem Spelled.keyword_ne {k : String} {words : List String} {st : Statement} (h : st.Spelled (k :: words)) :
    k.toLower ∉ ["if", "elif", "else", "end", "endif"] := by
  cases h with
  | @install _ location _ hk =>
    rw [hk]
    cases location <;> decide +kernel
  | setVariable _ hk | setPackageVariable _ hk | prependPath _ hk | installTree _ hk | swap _ _ hk
  | require hk | conflict hk | load hk | describe hk | matchVersions hk =>
    rw [hk]
    decide

theorem ofWords_eq_ok_iff {k : String} {words : List String} {st : Statement} :
    ofWords k.toLower words = .ok st ↔ st.Spelled (k :: words) :=
  ⟨spelled_of_ofWords rfl, ofWords_of_spelled⟩

end Statement

def Line.words (line : Line) : List String := line.head :: line.arguments

namespace Clause

theorem ofLine_of_spelled {line : Line} {clause : Clause} (h : clause.Spelled line.words) :
    ofLine line = .ok clause := by
  generalize hw : line.words = words at h
  cases h with
  | statement hs =>
    subst hw
    have hne := hs.keyword_ne
    simp only [List.mem_cons, List.not_mem_nil, or_false, not_or] at hne
    simp [ofLine, hne, Statement.ofWords_eq_ok_iff.2 hs, Except.map]
  | opening hk hc =>
    obtain ⟨rfl, rfl⟩ := List.cons.inj hw
    simp [ofLine, hk, Condition.ofWords_eq_ok_iff.2 hc, Except.map]
  | alternative hk hc =>
    obtain ⟨rfl, rfl⟩ := List.cons.inj hw
    simp [ofLine, hk, Condition.ofWords_eq_ok_iff.2 hc, Except.map]
  | otherwise hk =>
    obtain ⟨rfl, ha⟩ := List.cons.inj hw
    simp [ofLine, hk, ha]
  | closing words hk =>
    obtain ⟨rfl, rfl⟩ := List.cons.inj hw
    rcases hk with hk | hk <;> simp [ofLine, hk]

theorem spelled_of_ofLine {line : Line} {clause : Clause} (h : ofLine line = .ok clause) :
    clause.Spelled line.words := by
  unfold ofLine at h
  simp only at h
  split at h
  · next hk =>
    obtain ⟨test, hc, rfl⟩ := exists_of_map_eq_ok h
    exact .opening hk (Condition.ofWords_eq_ok_iff.1 hc)
  split at h
  · next hk =>
    obtain ⟨test, hc, rfl⟩ := exists_of_map_eq_ok h
    exact .alternative hk (Condition.ofWords_eq_ok_iff.1 hc)
  split at h
  · next hk =>
    split at h
    · next ha =>
      obtain rfl := Except.ok.inj h
      rw [Line.words, List.isEmpty_iff.1 ha]
      exact .otherwise hk
    · contradiction
  split at h
  · next hk =>
    obtain rfl := Except.ok.inj h
    exact .closing _ hk
  · obtain ⟨st, hs, rfl⟩ := exists_of_map_eq_ok h
    exact .statement (Statement.ofWords_eq_ok_iff.1 hs)

theorem ofLine_eq_ok_iff {line : Line} {clause : Clause} :
    ofLine line = .ok clause ↔ clause.Spelled line.words :=
  ⟨spelled_of_ofLine, ofLine_of_spelled⟩

/-- Whether a clause makes sense only inside a choice. -/
def continues : Clause → Bool
  | .statement _ | .opening _ => false
  | .alternative _ | .otherwise | .closing => true

theorem Spelled.continuesChoice_eq {k : String} {words : List String} {clause : Clause}
    (h : clause.Spelled (k :: words)) : continuesChoice k.toLower = clause.continues := by
  cases h with
  | statement hs =>
    have hne := hs.keyword_ne
    simp only [List.mem_cons, List.not_mem_nil, or_false, not_or] at hne
    simp [continuesChoice, continues, hne]
  | opening hk | alternative hk | otherwise hk => simp [continuesChoice, continues, hk]
  | closing _ hk => rcases hk with hk | hk <;> simp [continuesChoice, continues, hk]

end Clause

/-! ### Reading blocks -/

namespace Progress

theorem step_eq_ok_iff {p p' : Progress} {line : Line} :
    p.step line = .ok p' ↔ ∃ clause : Clause, clause.Spelled line.words ∧
      (p.stack = [] → clause.continues = false) ∧ p.take line.number clause = .ok p' := by
  unfold step
  constructor
  · intro h
    split at h
    · contradiction
    · next hc =>
      split at h
      · next clause hl =>
        have hs := Clause.ofLine_eq_ok_iff.1 hl
        refine ⟨clause, hs, fun hn => ?_, h⟩
        simpa [hn, hs.continuesChoice_eq] using hc
      · contradiction
  · rintro ⟨clause, hs, hn, ht⟩
    have hc : ¬(p.stack.isEmpty && Clause.continuesChoice line.head.toLower) = true := by
      rw [hs.continuesChoice_eq]
      simpa using hn
    rw [if_neg hc, Clause.ofLine_eq_ok_iff.2 hs]
    exact ht

/-- The lines from the end of a block on, with the choices around the block that they close, and the statements
that the outermost block comes to. After each choice its own block goes on. -/
inductive Closes : List Statement → List OpenChoice → List (List String) → List Statement → Prop where
  | nil (body : List Statement) : Closes body [] [] body
  | branch {more own others : List (List String)} {body before next otherwise t : List Statement}
      {branches later : List (Condition × List Statement)} {test : Condition} {outer : List OpenChoice} (n : Nat)
      (hm : Descriptor.Remainder more later otherwise) (hb : Descriptor.Block own next)
      (ho : Closes
        (before.reverse ++ .choose (branches.reverse ++ (test, body) :: later) otherwise :: next) outer others t) :
      Closes body (⟨n, before, branches, .branch test⟩ :: outer) (more ++ (own ++ others)) t
  | otherwise {words : List String} {own others : List (List String)} {body before next t : List Statement}
      {branches : List (Condition × List Statement)} {outer : List OpenChoice} (n m : Nat)
      (hc : Clause.closing.Spelled words) (hb : Descriptor.Block own next)
      (ho : Closes (before.reverse ++ .choose branches.reverse body :: next) outer others t) :
      Closes body (⟨n, before, branches, .otherwise m⟩ :: outer) (words :: (own ++ others)) t

/-- The lines that are still to come, and the statements that the descriptor then has. The innermost block comes
to its end before the choices around it are closed. -/
inductive Completes : Progress → List (List String) → List Statement → Prop where
  | mk {current body t : List Statement} {stack : List OpenChoice} {own others : List (List String)}
      (hb : Descriptor.Block own body) (ho : Closes (current.reverse ++ body) stack others t) :
      Completes ⟨current, stack⟩ (own ++ others) t

theorem Completes.of_closes {current t : List Statement} {stack : List OpenChoice} {lines : List (List String)}
    (h : Closes current.reverse stack lines t) : Completes ⟨current, stack⟩ lines t :=
  .mk .nil (by simpa using h)

theorem completes_nil_iff {p : Progress} {t : List Statement} : p.Completes [] t ↔ p.finish = .ok t := by
  obtain ⟨cur, stack⟩ := p
  constructor
  · intro h
    -- Both case splits need the lines to be a variable.
    generalize hn : ([] : List (List String)) = none at h
    obtain ⟨hb, ho⟩ := h
    obtain ⟨rfl, rfl⟩ := List.append_eq_nil_iff.1 hn.symm
    generalize hn : ([] : List (List String)) = none at ho
    cases ho with
    | nil => cases hb; simp [finish]
    | branch n hm hb ho => cases hm <;> simp at hn
    | otherwise n m hc hb ho => contradiction
  · intro h
    cases stack with
    | nil =>
      obtain rfl := Except.ok.inj h
      exact .of_closes (.nil _)
    | cons choice outer => contradiction

/-- A line that has been read can be put back in front of those that are to come. -/
theorem completes_of_step {p p' : Progress} {line : Line} {lines : List (List String)} {t : List Statement}
    (h : p.step line = .ok p') (hc : p'.Completes lines t) : p.Completes (line.words :: lines) t := by
  obtain ⟨cur, stack⟩ := p
  obtain ⟨clause, hs, hn, ht⟩ := step_eq_ok_iff.1 h
  cases clause with
  | statement st =>
    obtain rfl := Except.ok.inj ht
    obtain ⟨hb, ho⟩ := hc
    exact .mk (.simple hs hb) (by simpa using ho)
  | opening test =>
    -- The choice up to its end is a statement of the block around it.
    obtain rfl := Except.ok.inj ht
    obtain ⟨hb, _ | ⟨n, hm, hb', ho⟩⟩ := hc
    simpa using Completes.mk (.choose hs hb hm hb') (by simpa using ho)
  | alternative test =>
    -- The block before the line is at its end, and the line begins the remainder of its choice.
    obtain _ | ⟨⟨n, before, branches, part⟩, outer⟩ := stack
    · simp [Clause.continues] at hn
    cases part with
    | otherwise m => contradiction
    | branch first =>
      obtain rfl := Except.ok.inj ht
      obtain ⟨hb, _ | ⟨n, hm, hb', ho⟩⟩ := hc
      exact .of_closes (by simpa using Closes.branch n (.alternative hs hb hm) hb' (by simpa using ho))
  | otherwise =>
    obtain _ | ⟨⟨n, before, branches, part⟩, outer⟩ := stack
    · simp [Clause.continues] at hn
    cases part with
    | otherwise m => contradiction
    | branch first =>
      obtain rfl := Except.ok.inj ht
      obtain ⟨hb, _ | _ | ⟨n, m, hc, hb', ho⟩⟩ := hc
      exact .of_closes (by simpa using Closes.branch n (.otherwise hs hb hc) hb' (by simpa using ho))
  | closing =>
    obtain _ | ⟨⟨n, before, branches, part⟩, outer⟩ := stack
    · simp [Clause.continues] at hn
    obtain rfl := Except.ok.inj ht
    obtain ⟨hb, ho⟩ := hc
    cases part with
    | otherwise m => exact .of_closes (by simpa using Closes.otherwise n m hs hb (by simpa using ho))
    | branch test => exact .of_closes (by simpa using Closes.branch n (.closing hs) hb (by simpa using ho))

theorem step_of_spelled {p p' : Progress} {line : Line} {clause : Clause} (hs : clause.Spelled line.words)
    (ht : p.take line.number clause = .ok p') (hn : p.stack = [] → clause.continues = false) :
    p.step line = .ok p' :=
  step_eq_ok_iff.2 ⟨clause, hs, hn, ht⟩

/-- The first of the lines to come can be read. -/
theorem exists_step_of_completes {p : Progress} {line : Line} {lines : List (List String)} {t : List Statement}
    (h : p.Completes (line.words :: lines) t) : ∃ p', p.step line = .ok p' ∧ p'.Completes lines t := by
  generalize hl : line.words :: lines = all at h
  obtain ⟨hb, ho⟩ := h
  cases hb with
  | simple hs hb =>
    obtain ⟨rfl, rfl⟩ := List.cons.inj hl
    exact ⟨_, step_of_spelled hs rfl fun _ => rfl, .mk hb (by simpa using ho)⟩
  | choose hs hb hm hb' =>
    obtain ⟨rfl, rfl⟩ := List.cons.inj hl
    refine ⟨_, step_of_spelled hs rfl fun _ => rfl, ?_⟩
    simpa using Completes.mk hb (.branch line.number hm hb' (by simpa using ho))
  | nil =>
    -- The block is at its end, so that the line belongs to the choice around it.
    simp only [List.append_nil, List.nil_append] at ho hl
    cases ho with
    | nil => contradiction
    | otherwise n m hc hb ho =>
      obtain ⟨rfl, rfl⟩ := List.cons.inj hl
      exact ⟨_, step_of_spelled hc rfl nofun, .mk hb (by simpa using ho)⟩
    | branch n hm hb' ho =>
      cases hm with
      | closing hc =>
        obtain ⟨rfl, rfl⟩ := List.cons.inj hl
        refine ⟨_, step_of_spelled hc rfl nofun, ?_⟩
        simpa using Completes.mk hb' (by simpa using ho)
      | alternative hs hb hm =>
        obtain ⟨rfl, rfl⟩ := List.cons.inj hl
        refine ⟨_, step_of_spelled hs rfl nofun, ?_⟩
        simpa using Completes.mk hb (.branch n hm hb' (by simpa using ho))
      | otherwise hs hb hc =>
        obtain ⟨rfl, rfl⟩ := List.cons.inj hl
        refine ⟨_, step_of_spelled hs rfl nofun, ?_⟩
        simpa using Completes.mk hb (.otherwise n line.number hc hb' (by simpa using ho))

theorem completes_cons_iff {p : Progress} {line : Line} {lines : List (List String)} {t : List Statement} :
    p.Completes (line.words :: lines) t ↔ ∃ p', p.step line = .ok p' ∧ p'.Completes lines t :=
  ⟨exists_step_of_completes, fun ⟨_, h, hc⟩ => completes_of_step h hc⟩

/-- The lines to come complete a descriptor exactly if they are read to its end, by induction on the lines. -/
theorem completes_iff {p : Progress} {lines : List Line} {t : List Statement} :
    p.Completes (lines.map Line.words) t ↔ ((lines.foldlM step p) >>= finish) = .ok t := by
  induction lines generalizing p with
  | nil => exact completes_nil_iff
  | cons line rest ih =>
    rw [List.map_cons, completes_cons_iff, List.foldlM_cons]
    cases p.step line with
    | error fault => simp [bind, Except.bind]
    | ok next => simp [ih, bind, Except.bind]

theorem initial_completes_iff {lines : List (List String)} {t : List Statement} :
    initial.Completes lines t ↔ Descriptor.Block lines t := by
  constructor
  · rintro ⟨hb, _ | _⟩
    simpa using hb
  · intro h
    rw [← List.append_nil lines]
    exact .mk h (.nil _)

end Progress

/-! ### Reading texts -/

theorem Line.words_ne_nil_of_statement? {cs ds : List Char} (h : statement? cs = some ds) :
    Text.words ds ≠ some [] := by
  unfold statement? at h
  split at h
  · contradiction
  · contradiction
  · next c rest hc ht =>
    obtain rfl := Option.some.inj h
    exact words_cons_ne_nil (isBlank_of_trim_eq_cons ht) fun he => hc he

/-- The lines that hold words are those that are neither blank nor comments. -/
theorem Line.words_ofTexts (n : Nat) (texts : List (List Char)) :
    (ofTexts n texts).toOption.map (List.map Line.words) = (texts.filterMap statement?).mapM fun cs =>
      (Text.words cs).map (List.map String.ofList) := by
  induction texts generalizing n with
  | nil => rfl
  | cons cs rest ih =>
    rw [ofTexts]
    cases hs : statement? cs with
    | none => simpa [hs] using ih (n + 1)
    | some ds =>
      simp only [List.filterMap_cons, hs, List.mapM_cons, ← ih (n + 1)]
      rcases hw : Text.words ds with _ | _ | ⟨w, ws⟩
      · rfl
      · exact absurd hw (words_ne_nil_of_statement? hs)
      · cases ofTexts (n + 1) rest <;> rfl

namespace Descriptor

theorem ofLines_eq_ok_iff {lines : List Line} {t : List Statement} :
    ofLines lines = .ok t ↔ Block (lines.map Line.words) t := by
  rw [← Progress.initial_completes_iff, Progress.completes_iff]
  rfl

theorem tokens?_eq_some_iff {source : String} {lines : List (List String)} : tokens? source = some lines ↔
    ∃ ls, Line.ofTexts 2 ((Text.lines source.toList).drop 1) = .ok ls ∧ ls.map Line.words = lines := by
  rw [tokens?, ← Line.words_ofTexts 2]
  cases Line.ofTexts 2 ((Text.lines source.toList).drop 1) <;> simp [Except.toOption]

theorem read_of_block {source : String} {lines : List (List String)} {t : List Statement}
    (hs : sentinel.toList <+: source.toList) (ht : tokens? source = some lines) (hb : Block lines t) :
    read source = .ok t := by
  obtain ⟨ls, hl, rfl⟩ := tokens?_eq_some_iff.1 ht
  rw [read, Line.ofText, if_pos (List.isPrefixOf_iff_prefix.2 hs), hl]
  exact ofLines_eq_ok_iff.2 hb

theorem exists_block_of_read {source : String} {t : List Statement} (h : read source = .ok t) :
    sentinel.toList <+: source.toList ∧ ∃ lines, tokens? source = some lines ∧ Block lines t := by
  unfold read Line.ofText at h
  split at h
  · next hs =>
    cases hl : Line.ofTexts 2 ((Text.lines source.toList).drop 1) with
    | error fault =>
      rw [hl] at h
      contradiction
    | ok ls =>
      rw [hl] at h
      exact ⟨List.isPrefixOf_iff_prefix.1 hs, ls.map Line.words, tokens?_eq_some_iff.2 ⟨ls, hl, rfl⟩,
        ofLines_eq_ok_iff.1 h⟩
  · contradiction

/-- A text is read exactly if it begins with the sentinel, its lines can be cut into words, and these lines are
a block, and then as the statements of the block. -/
theorem read_eq_ok_iff (source : String) (t : List Statement) :
    read source = .ok t ↔
      sentinel.toList <+: source.toList ∧ ∃ lines, tokens? source = some lines ∧ Block lines t :=
  ⟨exists_block_of_read, fun ⟨hs, _, ht, hb⟩ => read_of_block hs ht hb⟩

end Descriptor

end EnvModules
