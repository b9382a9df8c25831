import EnvModules.Proofs.Grammar
import EnvModules.Proofs.Intent

/-!
Writing statements as the text of a descriptor. Every argument is put in single quotes, so that all texts
without line feeds come back as they are. Main statement: the statements that some descriptor has are those that
are well-formed, and these are read back from the text that is written for them.
-/

namespace EnvModules

open Text

/-! ### What a descriptor can hold -/

/-- A text that fits on a line. -/
def FitsLine (s : String) : Prop := '\n' ∉ s.toList

instance (s : String) : Decidable (FitsLine s) := inferInstanceAs (Decidable ('\n' ∉ s.toList))

def Condition.WellFormed : Condition → Prop
  | .defined name | .loaded name => FitsLine name
  | .equal left right => FitsLine left ∧ FitsLine right
  | .mode _ => True
  | .not condition => condition.WellFormed

namespace Statement

mutual

/-- Texts fit on a line, names can be names of variables, and lists of modules and of branches are not empty. -/
def WellFormed : Statement → Prop
  | .setVariable value name | .prependPath value name => FitsLine value ∧ isIdentifier name = true
  | .setPackageVariable value ending => FitsLine value ∧ isEnding ending = true
  | .installTree text | .install _ text | .describe text => FitsLine text
  | .require names | .conflict names | .load names => names ≠ [] ∧ ∀ name ∈ names, FitsLine name
  | .swap old new => FitsLine old ∧ FitsLine new
  | .matchVersions _ => True
  | .choose branches otherwise => branches ≠ [] ∧ BranchesWellFormed branches ∧ BlockWellFormed otherwise

def BranchesWellFormed : List (Condition × List Statement) → Prop
  | [] => True
  | (test, body) :: rest => test.WellFormed ∧ BlockWellFormed body ∧ BranchesWellFormed rest

def BlockWellFormed : List Statement → Prop
  | [] => True
  | st :: rest => st.WellFormed ∧ BlockWellFormed rest

end

theorem branchesWellFormed_iff {branches : List (Condition × List Statement)} :
    BranchesWellFormed branches ↔ ∀ b ∈ branches, b.1.WellFormed ∧ BlockWellFormed b.2 := by
  induction branches with
  | nil => simp [BranchesWellFormed]
  | cons b rest ih => simp [BranchesWellFormed, ih, and_assoc]

end Statement

/-! ### Writing -/

def Mode.word : Mode → String
  | .load => "load"
  | .unload => "unload"
  | .display => "display"

def Policy.word : Policy → String
  | .equal => "equal"
  | .atLeast => "atleast"
  | .atMost => "atmost"

def Condition.words : Condition → List String
  | .defined name => ["defined", name]
  | .equal left right => ["equal", left, right]
  | .loaded name => ["loaded", name]
  | .mode m => ["mode", m.word]
  | .not condition => "not" :: condition.words

namespace Statement

mutual

/-- The lines of a statement, each as its words. A simple statement has one line. -/
def wordLines : Statement → List (List String)
  | .setVariable value name => [["setVar", value, name]]
  | .setPackageVariable value ending => [["setPkgVar", value, ending]]
  | .prependPath value name => [["setPath", value, name]]
  | .installTree root => [["setAll", root]]
  | .install location directory => [[location.keyword, directory]]
  | .require names => ["prereq" :: names]
  | .conflict names => ["conflict" :: names]
  | .load names => ["load" :: names]
  | .swap old new => [["swap", old, new]]
  | .describe text => [["whatis", text]]
  | .matchVersions policy => [["setVersionMatch", policy.word]]
  | .choose branches otherwise => branchWordLines "if" branches ++ closingWordLines otherwise

/-- The lines of branches, of which the first has a keyword of its own. -/
def branchWordLines (keyword : String) : List (Condition × List Statement) → List (List String)
  | [] => []
  | (test, body) :: rest => (keyword :: test.words) :: (blockWordLines body ++ branchWordLines "elif" rest)

/-- The lines of a choice after its branches. -/
def closingWordLines : List Statement → List (List String)
  | [] => [["end"]]
  | st :: rest => ["else"] :: (st.wordLines ++ blockWordLines rest ++ [["end"]])

def blockWordLines : List Statement → List (List String)
  | [] => []
  | st :: rest => st.wordLines ++ blockWordLines rest

end

end Statement

namespace Descriptor

open Statement

/-- A keyword as it is, and every argument after a space and in single quotes. -/
def printLine : List String → List Char
  | [] => []
  | keyword :: arguments =>
    keyword.toList ++ (arguments.map String.toList).flatMap fun cs => ' ' :: singleQuoted cs

/-- The text of a descriptor with these statements. -/
def print (t : List Statement) : String :=
  String.ofList ((sentinel.toList :: (blockWordLines t).map printLine).flatMap (· ++ ['\n']))

end Descriptor

/-! ### The lines that are written form a block -/

theorem Mode.parse?_word (mode : Mode) : parse? mode.word = some mode := by
  cases mode <;> decide +kernel

theorem Policy.parse?_word (policy : Policy) : parse? policy.word = some policy := by
  cases policy <;> decide +kernel

theorem Condition.spelled_words (c : Condition) : c.Spelled c.words := by
  obtain ⟨hdefined, hequal, hloaded, hmode, hnot⟩ : "defined".toLower = "defined" ∧ "equal".toLower = "equal" ∧
      "loaded".toLower = "loaded" ∧ "mode".toLower = "mode" ∧ "not".toLower = "not" := by decide +kernel
  induction c with
  | defined name => exact .defined name hdefined
  | equal left right => exact .equal left right hequal
  | loaded name => exact .loaded name hloaded
  | mode m => exact .mode hmode m.parse?_word
  | not c ih => exact .not (.inl hnot) ih

/-! ### The lines that are written can be read -/

theorem fitsLine_of_isEnding {s : String} (h : isEnding s = true) : FitsLine s := by
  intro hm
  simp only [isEnding, Bool.and_eq_true, List.all_eq_true] at h
  exact absurd (h.2 _ hm) (by decide)

theorem fitsLine_of_isIdentifier {s : String} (h : isIdentifier s = true) : FitsLine s := fun hm =>
  absurd ((toList_of_isIdentifier h).2 _ hm) (by decide)

theorem Condition.fitsLine_of_mem_words {c : Condition} (h : c.WellFormed) :
    ∀ word ∈ c.words, FitsLine word := by
  have keywords : FitsLine "defined" ∧ FitsLine "equal" ∧ FitsLine "loaded" ∧ FitsLine "mode" ∧
      FitsLine "not" := by decide +kernel
  induction c with
  | defined name | loaded name => simp_all [words, WellFormed]
  | equal left right => simp_all [words, WellFormed]
  | mode m =>
    have : FitsLine m.word := by cases m <;> decide +kernel
    simp_all [words]
  | not c ih => simp_all [words, WellFormed]

def isKeyword (s : String) : Bool := !s.isEmpty && s.toList.all Char.isAlpha

/-- The words of a line that can be written: a keyword of letters, and arguments that fit on the line. -/
inductive Printable : List String → Prop where
  | mk {keyword : String} {arguments : List String} (hk : isKeyword keyword = true)
      (ha : ∀ argument ∈ arguments, FitsLine argument) : Printable (keyword :: arguments)

namespace Statement

/-- A simple statement has a line of its own. -/
theorem exists_wordLines_eq {st : Statement} (hc : ∀ branches otherwise, st ≠ .choose branches otherwise)
    (h : st.WellFormed) : ∃ words, st.wordLines = [words] ∧ st.Spelled words ∧ Printable words := by
  have hk : "setVar".toLower = "setvar" ∧ "setPkgVar".toLower = "setpkgvar" ∧ "setPath".toLower = "setpath" ∧
      "setAll".toLower = "setall" ∧ "prereq".toLower = "prereq" ∧ "conflict".toLower = "conflict" ∧
      "load".toLower = "load" ∧ "swap".toLower = "swap" ∧ "whatis".toLower = "whatis" ∧
      "setVersionMatch".toLower = "setversionmatch" := by decide +kernel
  obtain ⟨hsetVar, hsetPkgVar, hsetPath, hsetAll, hprereq, hconflict, hload, hswap, hwhatis, hmatch⟩ := hk
  cases st with
  | choose branches otherwise => exact absurd rfl (hc branches otherwise)
  | setVariable value name =>
    have hn := fitsLine_of_isIdentifier h.2
    exact ⟨_, rfl, .setVariable value hsetVar h.2, .mk (by decide +kernel) (by simp [h.1, hn])⟩
  | setPackageVariable value ending =>
    have he := fitsLine_of_isEnding h.2
    exact ⟨_, rfl, .setPackageVariable value hsetPkgVar h.2, .mk (by decide +kernel) (by simp [h.1, he])⟩
  | prependPath value name =>
    have hn := fitsLine_of_isIdentifier h.2
    exact ⟨_, rfl, .prependPath value hsetPath h.2, .mk (by decide +kernel) (by simp [h.1, hn])⟩
  | installTree root =>
    exact ⟨_, rfl, .installTree root hsetAll, .mk (by decide +kernel) (List.forall_mem_singleton.2 h)⟩
  | install location directory =>
    have hk : isKeyword location.keyword = true := by cases location <;> decide +kernel
    exact ⟨_, rfl, .install directory rfl, .mk hk (List.forall_mem_singleton.2 h)⟩
  | require names => exact ⟨_, rfl, .require hprereq h.1, .mk (by decide +kernel) h.2⟩
  | conflict names => exact ⟨_, rfl, .conflict hconflict h.1, .mk (by decide +kernel) h.2⟩
  | load names => exact ⟨_, rfl, .load hload h.1, .mk (by decide +kernel) h.2⟩
  | swap old new => exact ⟨_, rfl, .swap old new hswap, .mk (by decide +kernel) (by simpa [WellFormed] using h)⟩
  | describe text =>
    exact ⟨_, rfl, .describe hwhatis (List.cons_ne_nil text []),
      .mk (by decide +kernel) (List.forall_mem_singleton.2 h)⟩
  | matchVersions policy =>
    have hp : FitsLine policy.word := by cases policy <;> decide +kernel
    exact ⟨_, rfl, .matchVersions hmatch policy.parse?_word, .mk (by decide +kernel) (by simpa using hp)⟩

end Statement

namespace Descriptor

open Statement

theorem remainder_closingWordLines {otherwise : List Statement}
    (ho : Block (blockWordLines otherwise) otherwise) :
    Remainder (closingWordLines otherwise) [] otherwise := by
  have hend : Clause.closing.Spelled ["end"] := .closing [] (.inl (by decide +kernel))
  cases otherwise with
  | nil => exact .closing hend
  | cons st rest => exact .otherwise (.otherwise (by decide +kernel)) ho hend

theorem remainder_branchWordLines {tail : List (List String)} {otherwise : List Statement}
    {branches : List (Condition × List Statement)} (hb : ∀ b ∈ branches, Block (blockWordLines b.2) b.2)
    (ht : Remainder tail [] otherwise) :
    Remainder (branchWordLines "elif" branches ++ tail) branches otherwise := by
  induction branches with
  | nil => exact ht
  | cons branch rest ih =>
    obtain ⟨test, body⟩ := branch
    obtain ⟨hbody, hrest⟩ := List.forall_mem_cons.1 hb
    have helif : (Clause.alternative test).Spelled ("elif" :: test.words) :=
      .alternative (by decide +kernel) test.spelled_words
    simpa [branchWordLines] using Remainder.alternative helif hbody (ih hrest)

theorem block_blockWordLines {t : List Statement} (h : BlockWellFormed t) : Block (blockWordLines t) t := by
  induction t using block_induction with
  | nil => exact .nil
  | simple st rest hc ih =>
    obtain ⟨words, hw, hs, -⟩ := exists_wordLines_eq hc h.1
    rw [blockWordLines, hw]
    exact .simple (.statement hs) (ih h.2)
  | choose branches otherwise rest hb ho ih =>
    obtain ⟨⟨hne, hbs, hos⟩, hr⟩ := h
    have hblocks : ∀ b ∈ branches, Block (blockWordLines b.2) b.2 := fun b hm =>
      hb b hm (branchesWellFormed_iff.1 hbs b hm).2
    obtain ⟨⟨test, body⟩, branches, rfl⟩ := List.exists_cons_of_ne_nil hne
    obtain ⟨hbody, hlater⟩ := List.forall_mem_cons.1 hblocks
    have hif : (Clause.opening test).Spelled ("if" :: test.words) :=
      .opening (by decide +kernel) test.spelled_words
    have hmore := remainder_branchWordLines hlater (remainder_closingWordLines (ho hos))
    simpa [blockWordLines, wordLines, branchWordLines] using Block.choose hif hbody hmore (ih hr)

theorem printable_branchWordLines {keyword : String} (hk : isKeyword keyword = true)
    {branches : List (Condition × List Statement)} (hc : ∀ b ∈ branches, b.1.WellFormed)
    (hb : ∀ b ∈ branches, ∀ words ∈ blockWordLines b.2, Printable words) :
    ∀ words ∈ branchWordLines keyword branches, Printable words := by
  induction branches generalizing keyword with
  | nil => nofun
  | cons branch rest ih =>
    obtain ⟨test, body⟩ := branch
    obtain ⟨htest, hc⟩ := List.forall_mem_cons.1 hc
    obtain ⟨hbody, hb⟩ := List.forall_mem_cons.1 hb
    rw [branchWordLines, List.forall_mem_cons, List.forall_mem_append]
    exact ⟨.mk hk (Condition.fitsLine_of_mem_words htest), hbody, ih (by decide +kernel) hc hb⟩

theorem printable_closingWordLines {otherwise : List Statement}
    (ho : ∀ words ∈ blockWordLines otherwise, Printable words) :
    ∀ words ∈ closingWordLines otherwise, Printable words := by
  have hend : Printable ["end"] := .mk (by decide +kernel) nofun
  have helse : Printable ["else"] := .mk (by decide +kernel) nofun
  cases otherwise with
  | nil => exact List.forall_mem_singleton.2 hend
  | cons st rest =>
    rw [closingWordLines, List.forall_mem_cons, List.forall_mem_append]
    exact ⟨helse, ho, List.forall_mem_singleton.2 hend⟩

theorem printable_of_mem {t : List Statement} (h : BlockWellFormed t) :
    ∀ words ∈ blockWordLines t, Printable words := by
  induction t using block_induction with
  | nil => nofun
  | simple st rest hc ih =>
    obtain ⟨words, hw, -, hp⟩ := exists_wordLines_eq hc h.1
    rw [blockWordLines, hw]
    exact List.forall_mem_cons.2 ⟨hp, ih h.2⟩
  | choose branches otherwise rest hb ho ih =>
    obtain ⟨⟨-, hbs, hos⟩, hr⟩ := h
    have hbs := branchesWellFormed_iff.1 hbs
    have hif : isKeyword "if" = true := by decide +kernel
    have hbranches := printable_branchWordLines hif (fun b hm => (hbs b hm).1) fun b hm => hb b hm (hbs b hm).2
    rw [blockWordLines, wordLines, List.forall_mem_append, List.forall_mem_append]
    exact ⟨⟨hbranches, printable_closingWordLines (ho hos)⟩, ih hr⟩

/-! ### The text is cut into these lines -/

theorem isKeyword_iff {s : String} :
    isKeyword s = true ↔ s.toList ≠ [] ∧ ∀ c ∈ s.toList, c.isAlpha = true := by
  simp [isKeyword]

theorem words_printLine {words : List String} (h : Printable words) :
    (Text.words (printLine words)).map (List.map String.ofList) = some words := by
  obtain ⟨hk, ha⟩ := h
  obtain ⟨hn, hc⟩ := isKeyword_iff.1 hk
  simp [printLine, words_append_flatMap_singleQuoted hn hc, Function.comp_def]

theorem not_mem_printLine {words : List String} (h : Printable words) : '\n' ∉ printLine words := by
  obtain @⟨keyword, arguments, hk, ha⟩ := h
  have hkeyword : '\n' ∉ keyword.toList := fun hm => absurd ((isKeyword_iff.1 hk).2 _ hm) (by decide)
  have harguments : ∀ argument ∈ arguments, '\n' ∉ singleQuoted argument.toList := fun argument hm =>
    not_mem_singleQuoted (ha argument hm)
  simpa [printLine] using ⟨hkeyword, harguments⟩

theorem exists_printLine_eq_cons {words : List String} (h : Printable words) :
    ∃ c rest, c.isAlpha = true ∧ printLine words = c :: rest := by
  obtain @⟨keyword, arguments, hk, -⟩ := h
  obtain ⟨hn, hc⟩ := isKeyword_iff.1 hk
  obtain ⟨c, rest, hl⟩ := List.exists_cons_of_ne_nil hn
  exact ⟨c, _, hc c (hl ▸ List.mem_cons_self), by rw [printLine, hl, List.cons_append]⟩

/-- The last character of a line that is written is a letter or a quote. -/
theorem isBlank_of_mem_getLast?_printLine {words : List String} (h : Printable words) :
    ∀ c ∈ (printLine words).getLast?, isBlank c = false := by
  obtain @⟨keyword, arguments, hk, -⟩ := h
  intro c hl
  obtain rfl | ⟨first, last, rfl⟩ := arguments.eq_nil_or_concat
  · rw [printLine, List.map_nil, List.flatMap_nil, List.append_nil] at hl
    exact isBlank_of_isAlpha ((isKeyword_iff.1 hk).2 c (List.mem_of_getLast? hl))
  · obtain rfl : '\x27' = c := by simpa [printLine, singleQuoted, List.getLast?_cons] using hl
    decide

theorem statement?_printLine {words : List String} (h : Printable words) :
    Line.statement? (printLine words) = some (printLine words) := by
  obtain ⟨c, rest, hc, hl⟩ := exists_printLine_eq_cons h
  have ht := trim_eq_self (by simpa [hl] using isBlank_of_isAlpha hc) (isBlank_of_mem_getLast?_printLine h)
  have hh : c ≠ '#' := ne_of_isAlpha hc (by decide)
  rw [hl] at ht ⊢
  simp [Line.statement?, ht]

/-- The text is cut into the lines that were written. -/
theorem tokens?_print {t : List Statement} (h : BlockWellFormed t) :
    tokens? (print t) = some (blockWordLines t) := by
  have hp := printable_of_mem h
  have hs : '\n' ∉ sentinel.toList ∧ sentinel.toList.getLast? ≠ some '\r' := by decide +kernel
  have hl : ∀ l ∈ (blockWordLines t).map printLine, '\n' ∉ l ∧ l.getLast? ≠ some '\r' := by
    intro l hm
    obtain ⟨words, hw, rfl⟩ := List.mem_map.1 hm
    refine ⟨not_mem_printLine (hp words hw), fun he => ?_⟩
    exact absurd (isBlank_of_mem_getLast?_printLine (hp words hw) _ he) (by decide)
  rw [tokens?, print, String.toList_ofList, lines_flatMap_append _ (List.forall_mem_cons.2 ⟨hs, hl⟩)]
  have hstatements : ((blockWordLines t).map printLine).filterMap Line.statement? =
      (blockWordLines t).map printLine := by
    rw [List.filterMap_map]
    exact List.filterMap_eq_map_iff_forall_eq_some.2 fun words hw => statement?_printLine (hp words hw)
  rw [List.drop_one, List.tail_cons, hstatements]
  exact mapM_map_eq_some fun words hw => words_printLine (hp words hw)

/-! ### What is read is well-formed -/

theorem exists_of_mapM_eq_some {α β : Type} {f : α → Option β} {l : List α} {r : List β}
    (h : l.mapM f = some r) : ∀ b ∈ r, ∃ a ∈ l, f a = some b := by
  induction l generalizing r with
  | nil =>
    obtain rfl := Option.some.inj h
    nofun
  | cons a l ih =>
    rw [List.mapM_cons] at h
    obtain ⟨b, hb, h⟩ := Option.bind_eq_some_iff.1 h
    obtain ⟨bs, hbs, h⟩ := Option.bind_eq_some_iff.1 h
    obtain rfl := Option.some.inj h
    refine List.forall_mem_cons.2 ⟨⟨a, List.mem_cons_self, hb⟩, fun b hm => ?_⟩
    obtain ⟨a', ha, hf⟩ := ih hbs b hm
    exact ⟨a', List.mem_cons_of_mem _ ha, hf⟩

theorem sublist_of_statement? {cs ds : List Char} (h : Line.statement? cs = some ds) : ds.Sublist cs := by
  have ht : trim cs = ds := by
    unfold Line.statement? at h
    split at h
    · contradiction
    · contradiction
    · next c rest hc ht => exact ht.trans (Option.some.inj h)
  exact ht ▸ trim_sublist cs

theorem fitsLine_of_tokens? {source : String} {lines : List (List String)} (h : tokens? source = some lines) :
    ∀ words ∈ lines, ∀ word ∈ words, FitsLine word := by
  intro words hm word hw
  obtain ⟨ds, hd, hwords⟩ := exists_of_mapM_eq_some h words hm
  obtain ⟨cs, hc, hs⟩ := List.mem_filterMap.1 hd
  obtain ⟨ws, hws, rfl⟩ := Option.map_eq_some_iff.1 hwords
  obtain ⟨w, hmem, rfl⟩ := List.mem_map.1 hw
  have hds : '\n' ∉ ds := fun hn =>
    not_mem_of_mem_lines (List.mem_of_mem_drop hc) ((sublist_of_statement? hs).mem hn)
  simpa [FitsLine] using Reading.not_mem_of_mem_words hds hws w hmem

end Descriptor

theorem Condition.wellFormed_of_spelled {words : List String} {c : Condition} (h : c.Spelled words)
    (hf : ∀ word ∈ words, FitsLine word) : c.WellFormed := by
  induction h with
  | defined name hk | loaded name hk => exact hf name (by simp)
  | equal left right hk => exact ⟨hf left (by simp), hf right (by simp)⟩
  | mode hk hm => trivial
  | not hk hc ih => exact ih fun word hm => hf word (List.mem_cons_of_mem _ hm)

theorem fitsLine_intercalate {texts : List String} (h : ∀ text ∈ texts, FitsLine text) :
    FitsLine (" ".intercalate texts) := by
  induction texts with
  | nil => decide
  | cons first rest ih =>
    obtain ⟨hfirst, hrest⟩ := List.forall_mem_cons.1 h
    cases rest with
    | nil => simpa using hfirst
    | cons second rest =>
      rw [String.intercalate_cons_cons]
      simp only [FitsLine, String.toList_append, List.mem_append, not_or]
      exact ⟨⟨hfirst, by decide⟩, ih hrest⟩

theorem Statement.wellFormed_of_spelled {words : List String} {st : Statement} (h : st.Spelled words)
    (hf : ∀ word ∈ words, FitsLine word) : st.WellFormed := by
  cases h with
  | setVariable value hk hn | prependPath value hk hn | setPackageVariable value hk hn =>
    exact ⟨hf value (by simp), hn⟩
  | installTree text hk | install text hk => exact hf text (by simp)
  | require hk hn | conflict hk hn | load hk hn =>
    exact ⟨hn, fun name hm => hf name (List.mem_cons_of_mem _ hm)⟩
  | swap old new hk => exact ⟨hf old (by simp), hf new (by simp)⟩
  | describe hk ht => exact fitsLine_intercalate fun text hm => hf text (List.mem_cons_of_mem _ hm)
  | matchVersions hk hp => trivial

namespace Descriptor

open Statement

theorem Block.wellFormed {lines : List (List String)} {t : List Statement} (h : Block lines t)
    (hf : ∀ words ∈ lines, ∀ word ∈ words, FitsLine word) : BlockWellFormed t := by
  refine @Block.rec
    (fun lines t _ => (∀ words ∈ lines, ∀ word ∈ words, FitsLine word) → BlockWellFormed t)
    (fun lines branches otherwise _ => (∀ words ∈ lines, ∀ word ∈ words, FitsLine word) →
      BranchesWellFormed branches ∧ BlockWellFormed otherwise) ?_ ?_ ?_ ?_ ?_ ?_ lines t h hf
  -- One case for each way to form a block, and then one for each way in which a choice goes on.
  · intro _
    trivial
  · intro words lines st rest hs _ ih hf
    obtain ⟨hwords, hlines⟩ := List.forall_mem_cons.1 hf
    cases hs with
    | statement hs => exact ⟨Statement.wellFormed_of_spelled hs hwords, ih hlines⟩
  · intro words lines more others test body otherwise rest branches hs _ _ _ ihb ihm ihr hf
    obtain ⟨hwords, hf⟩ := List.forall_mem_cons.1 hf
    obtain ⟨hf, hothers⟩ := List.forall_mem_append.1 hf
    obtain ⟨hlines, hmore⟩ := List.forall_mem_append.1 hf
    cases hs with
    | opening hk hc =>
      have htest := Condition.wellFormed_of_spelled hc (List.forall_mem_cons.1 hwords).2
      exact ⟨⟨List.cons_ne_nil _ _, ⟨htest, ihb hlines, (ihm hmore).1⟩, (ihm hmore).2⟩, ihr hothers⟩
  · intro words lines more test body otherwise branches hs _ _ ihb ihm hf
    obtain ⟨hwords, hf⟩ := List.forall_mem_cons.1 hf
    obtain ⟨hlines, hmore⟩ := List.forall_mem_append.1 hf
    cases hs with
    | alternative hk hc =>
      have htest := Condition.wellFormed_of_spelled hc (List.forall_mem_cons.1 hwords).2
      exact ⟨⟨htest, ihb hlines, (ihm hmore).1⟩, (ihm hmore).2⟩
  · intro words words' lines body _ _ _ ihb hf
    exact ⟨trivial, ihb (List.forall_mem_append.1 (List.forall_mem_cons.1 hf).2).1⟩
  · intro words _ _
    exact ⟨trivial, trivial⟩

/-- The statements that some descriptor has are those that are well-formed, and these are read back from the
text that is written for them. -/
theorem read_print_iff (t : List Statement) :
    (BlockWellFormed t ↔ read (print t) = .ok t) ∧ (BlockWellFormed t ↔ ∃ source, read source = .ok t) := by
  have hread {source : String} (h : read source = .ok t) : BlockWellFormed t := by
    obtain ⟨-, lines, ht, hb⟩ := exists_block_of_read h
    exact hb.wellFormed (fitsLine_of_tokens? ht)
  have hprint (h : BlockWellFormed t) : read (print t) = .ok t := by
    refine read_of_block ?_ (tokens?_print h) (block_blockWordLines h)
    simp [print]
  exact ⟨⟨hprint, hread⟩, fun h => ⟨_, hprint h⟩, fun ⟨_, h⟩ => hread h⟩

end Descriptor

end EnvModules
