import EnvModules.Proofs.FaultLines

/-!
Version pins as they can be written. Main statement: whatever forms the bindings have, and whatever blank lines and
comments stand between them, a pin is read as the value of the last binding. A text that begins with the sentinel
is read as one that binds nothing exactly if all its lines are blank or comments.
-/

namespace EnvModules

open Text

/-! ### Lines without a statement -/

namespace Line

variable {cs : List Char}

/-- A blank line or a comment. -/
def IsIdle (cs : List Char) : Prop := trim cs = [] ∨ (trim cs).head? = some '#'

instance : DecidablePred IsIdle := fun cs =>
  inferInstanceAs (Decidable (trim cs = [] ∨ (trim cs).head? = some '#'))

theorem statement?_eq_none_iff : statement? cs = none ↔ IsIdle cs := by
  rw [← Option.not_isSome_iff_eq_none, isSome_statement?_iff, IsIdle]
  tauto

/-- A line that begins with a hash is a comment, whatever comes after it. -/
theorem isIdle_cons_hash (cs : List Char) : IsIdle ('#' :: cs) := by
  have hleft : trimLeft ('#' :: cs) = '#' :: cs := List.dropWhile_cons_of_neg (by decide)
  obtain ⟨tail, ht⟩ := exists_trimRight_append ('#' :: cs)
  rw [IsIdle, trim, hleft]
  cases hr : trimRight ('#' :: cs) with
  | nil => exact .inl rfl
  | cons c rest =>
    rw [hr] at ht
    obtain ⟨rfl, -⟩ := List.cons.inj ht
    exact .inr rfl

theorem ofTexts_eq_nil_iff (first : Nat) {texts : List (List Char)} :
    ofTexts first texts = .ok [] ↔ ∀ cs ∈ texts, IsIdle cs := by
  induction texts generalizing first with
  | nil => simp [ofTexts]
  | cons cs rest ih =>
    rw [ofTexts, List.forall_mem_cons, ← statement?_eq_none_iff]
    cases hs : statement? cs with
    | none => simpa using ih (first + 1)
    | some ds =>
      -- A statement has words, which make a line or a fault.
      rcases hw : Text.words ds with _ | _ | ⟨w, ws⟩
      · simp [hw]
      · exact absurd hw (words_ne_nil_of_statement? hs)
      · simp only [hw]
        cases ofTexts (first + 1) rest <;> simp [bind, Except.bind]

end Line

/-! ### Lines that are put together -/

namespace Text

variable {l : List Char}

theorem lines_of_not_mem (hn : l ≠ []) (hl : '\n' ∉ l) : lines l = [l] := by
  fun_induction lines l with
  | case1 => contradiction
  | case2 cs ih | case3 cs ih => simp at hl
  | case4 c cs _ _ hr ih => rw [lines_eq_nil_iff.1 hr]
  | case5 c cs _ _ l ls hr ih =>
    have hcs : cs ≠ [] := fun he => by simp [he, lines] at hr
    have h := ih hcs fun hm => hl (List.mem_cons_of_mem _ hm)
    obtain ⟨rfl, rfl⟩ := List.cons.inj (hr.symm.trans h)
    rfl

/-- A line may lose a carriage return to its line feed, and nothing but that. -/
theorem exists_lines_append (hl : '\n' ∉ l) (rest : List Char) :
    ∃ l', trim l' = trim l ∧ lines (l ++ '\n' :: rest) = l' :: lines rest := by
  by_cases hn : l = []
  · subst hn
    exact ⟨[], rfl, rfl⟩
  have hlast : l.getLast? ≠ some '\n' := fun h => hl (List.mem_of_getLast? h)
  have hconcat := lines_concat hn hlast
  rw [lines_of_not_mem hn hl] at hconcat
  have happend : lines (l ++ '\n' :: rest) = lines (l ++ ['\n']) ++ lines rest := by
    rw [← lines_append_of_getLast? (.inr (by simp)), List.append_assoc, List.singleton_append]
  rw [happend]
  generalize lines (l ++ ['\n']) = first at hconcat ⊢
  obtain _ | ⟨hfirst, _ | _⟩ := hconcat
  rcases hfirst with rfl | rfl
  · exact ⟨_, rfl, rfl⟩
  · exact ⟨_, (trim_concat_return _).symm, rfl⟩

/-- Lines that are joined have the same statements, though an empty last line is none. -/
theorem filterMap_statement?_lines_join {ls : List (List Char)} (h : ∀ l ∈ ls, '\n' ∉ l) :
    (lines (join '\n' ls)).filterMap Line.statement? = ls.filterMap Line.statement? := by
  fun_induction join '\n' ls with
  | case1 => rfl
  | case2 l =>
    by_cases hn : l = []
    · subst hn
      rfl
    · rw [lines_of_not_mem hn (h l List.mem_cons_self)]
  | case3 l ls hls ih =>
    obtain ⟨hl, hrest⟩ := List.forall_mem_cons.1 h
    obtain ⟨l', htrim, hlines⟩ := exists_lines_append hl (join '\n' ls)
    rw [hlines, List.filterMap_cons, List.filterMap_cons, Line.statement?_congr htrim, ih hrest]

end Text

/-- The sentinel itself makes the first line a comment. -/
theorem Descriptor.filterMap_statement?_drop_lines {source : String} (hs : sentinel.toList <+: source.toList) :
    ((lines source.toList).drop 1).filterMap Line.statement? =
      (lines source.toList).filterMap Line.statement? := by
  obtain ⟨rest, hr⟩ := hs
  have hfirst : ∃ cs ls, lines source.toList = ('#' :: cs) :: ls := by
    have hlist : source.toList = '#' :: (sentinel.toList.drop 1 ++ rest) := by
      rw [← hr]
      rfl
    rw [hlist, lines]
    · split
      · exact ⟨_, _, rfl⟩
      · exact ⟨_, _, rfl⟩
    · exact fun _ h => absurd h (by decide)
    · decide
  obtain ⟨cs, ls, hl⟩ := hfirst
  rw [hl, List.drop_one, List.tail_cons, List.filterMap_cons,
    Line.statement?_eq_none_iff.2 (Line.isIdle_cons_hash cs)]

/-! ### Bindings -/

namespace Pin

/-- How a binding is written: `version V`, `version = V` or `version=V`. -/
inductive Form where
  | apart
  | spaced
  | joined
  deriving DecidableEq, Repr

namespace Form

/-- What stands between the keyword and the value. -/
def link : Form → List Char
  | apart => " ".toList
  | spaced => " = ".toList
  | joined => "=".toList

/-- The words of a binding. -/
def words (value : String) : Form → List String
  | apart => ["version", value]
  | spaced => ["version", "=", value]
  | joined => ["version=" ++ value]

end Form

/-- A line of a pin, after the first one. -/
inductive Entry where
  /-- A binding, with its value in single quotes. -/
  | binding (form : Form) (value : String)
  /-- A line that binds nothing. -/
  | idle (cs : List Char)
  deriving DecidableEq, Repr

namespace Entry

def line : Entry → List Char
  | binding form value => "version".toList ++ (form.link ++ singleQuoted value.toList)
  | idle cs => cs

@[simp] theorem line_binding (form : Form) (value : String) :
    (binding form value).line = "version".toList ++ (form.link ++ singleQuoted value.toList) := rfl

@[simp] theorem line_idle (cs : List Char) : (idle cs).line = cs := rfl

def value? : Entry → Option String
  | binding _ value => some value
  | idle _ => none

def words? : Entry → Option (List String)
  | binding form value => some (form.words value)
  | idle _ => none

/-- The values that a binding can have, and the lines that bind nothing. -/
def Fits : Entry → Prop
  | binding _ value => '\n' ∉ value.toList ∧ trim value.toList = value.toList
  | idle cs => '\n' ∉ cs ∧ Line.IsIdle cs

instance : DecidablePred Fits
  | binding _ value => inferInstanceAs (Decidable ('\n' ∉ value.toList ∧ trim value.toList = value.toList))
  | idle cs => inferInstanceAs (Decidable ('\n' ∉ cs ∧ Line.IsIdle cs))

end Entry

/-- A pin with something after the sentinel on its first line. An empty line at the end is a line feed at the end. -/
def text (rest : List Char) (entries : List Entry) : String :=
  String.ofList (join '\n' ((sentinel.toList ++ rest) :: entries.map Entry.line))

/-! ### Reading bindings -/

/-- What comes after the keyword ends the first word, or goes on with it, and holds the value as it is. -/
theorem exists_words_link (form : Form) (value : String) :
    ∃ w ws, Reading.bare.words (form.link ++ singleQuoted value.toList) = some (w :: ws) ∧
      (form.words value).map String.toList = ("version".toList ++ w) :: ws := by
  have hend : Reading.bare.words [] = some [[]] := by simp only [Reading.words]
  have hquoted := Reading.words_flatMap_singleQuotedChar hend value.toList
  cases form with
  | apart =>
    refine ⟨[], [value.toList], ?_, by simp [Form.words]⟩
    simp [Form.link, singleQuoted, Reading.words, Reading.inWord, isWordGap, extendFirst, hquoted]
  | spaced =>
    refine ⟨[], ["=".toList, value.toList], ?_, by simp [Form.words]⟩
    simp [Form.link, singleQuoted, Reading.words, Reading.inWord, isWordGap, extendFirst, hquoted]
  | joined =>
    refine ⟨'=' :: value.toList, [], ?_, by simp [Form.words]⟩
    simp [Form.link, singleQuoted, Reading.words, Reading.inWord, isWordGap, extendFirst, hquoted]

theorem words_line (form : Form) (value : String) :
    Text.words (Entry.binding form value).line = some ((form.words value).map String.toList) := by
  obtain ⟨w, ws, hlink, hwords⟩ := exists_words_link form value
  have hversion : ∀ c ∈ "version".toList, c.isAlpha = true := List.all_eq_true.1 (by decide)
  rw [Entry.line_binding, words_append_of_isAlpha (by simp) hversion hlink, hwords]

/-- A binding begins with a letter and ends in a quote, so that nothing of its line is cut off. -/
theorem statement?_line (form : Form) (value : String) :
    Line.statement? (Entry.binding form value).line = some (Entry.binding form value).line := by
  have hfirst : (Entry.binding form value).line.head? = some 'v' := by simp
  have hlast : (Entry.binding form value).line.getLast? = some '\x27' := by
    simp [singleQuoted, List.getLast?_append, List.getLast?_cons]
  have htrim : trim (Entry.binding form value).line = (Entry.binding form value).line := by
    refine trim_eq_self ?_ ?_
    · simp only [hfirst, Option.mem_some, forall_eq']
      decide
    · simp only [hlast, Option.mem_some, forall_eq']
      decide
  rw [Line.statement?, htrim]
  simp

theorem newline_not_mem_line {e : Entry} (he : e.Fits) : '\n' ∉ e.line := by
  cases e with
  | idle cs => exact he.1
  | binding form value =>
    have hversion : '\n' ∉ "version".toList := by decide
    have hlink : '\n' ∉ form.link := by cases form <;> decide
    have hquoted := not_mem_singleQuoted he.1
    rw [Entry.line_binding, List.mem_append, List.mem_append]
    exact not_or.2 ⟨hversion, not_or.2 ⟨hlink, hquoted⟩⟩

/-- Whatever its form, a binding binds its value. In the joined form the value comes after the first equals sign, and
it is trimmed. -/
theorem ofLine_of_words {line : Line} {form : Form} {value : String} (ht : trim value.toList = value.toList)
    (hw : line.words = form.words value) : ofLine line = .ok value := by
  obtain ⟨number, head, arguments⟩ := line
  cases form with
  | apart | spaced =>
    obtain ⟨rfl, rfl⟩ := List.cons.inj hw
    simp [ofLine]
  | joined =>
    obtain ⟨rfl, rfl⟩ := List.cons.inj hw
    have hnone : '=' ∉ "version".toList := by decide
    have hsplit : splitOnce '=' ("version=" ++ value).toList = some ("version".toList, value.toList) := by
      rw [String.toList_append]
      exact splitOnce_append hnone value.toList
    have hkey : trim "version".toList = "version".toList := by decide
    simp only [ofLine, hsplit, hkey, ht, if_true, String.ofList_toList]

/-- The bindings of a pin are read one by one, and the last one counts. -/
theorem ofLines_eq_ok_iff {bound version : Option String} {lines : List Line} :
    ofLines bound lines = .ok version ↔
      ∃ values, List.Forall₂ (fun line value => ofLine line = .ok value) lines values ∧
        version = values.getLast?.or bound := by
  induction lines generalizing bound with
  | nil => simp [ofLines, eq_comm]
  | cons line lines ih =>
    rw [ofLines]
    cases hl : ofLine line with
    | error fault =>
      refine ⟨nofun, ?_⟩
      rintro ⟨_, _ | ⟨h, -⟩, -⟩
      rw [hl] at h
      contradiction
    | ok value =>
      rw [ih]
      constructor
      · rintro ⟨values, hv, rfl⟩
        exact ⟨value :: values, .cons hl hv, by cases h : values.getLast? <;> simp [List.getLast?_cons, h]⟩
      · rintro ⟨_, _ | ⟨h, hv⟩, rfl⟩
        obtain rfl := Except.ok.inj (hl.symm.trans h)
        rename_i values
        exact ⟨values, hv, by cases h : values.getLast? <;> simp [List.getLast?_cons, h]⟩

theorem ofLines_eq_ok_none_iff {lines : List Line} : ofLines none lines = .ok none ↔ lines = [] := by
  rw [ofLines_eq_ok_iff]
  constructor
  · rintro ⟨values, hv, hnone⟩
    rw [Option.or_none, eq_comm, List.getLast?_eq_none_iff] at hnone
    subst hnone
    cases hv
    rfl
  · rintro rfl
    exact ⟨[], .nil, rfl⟩

/-- Words that are those of bindings have the values of the bindings. -/
theorem forall₂_ofLine {entries : List Entry} {ls : List Line} (he : ∀ e ∈ entries, e.Fits)
    (hw : ls.map Line.words = entries.filterMap Entry.words?) :
    List.Forall₂ (fun line value => ofLine line = .ok value) ls (entries.filterMap Entry.value?) := by
  induction entries generalizing ls with
  | nil =>
    obtain rfl := List.map_eq_nil_iff.1 hw
    exact .nil
  | cons e entries ih =>
    obtain ⟨hfits, hrest⟩ := List.forall_mem_cons.1 he
    cases e with
    | idle cs => exact ih hrest hw
    | binding form value =>
      obtain ⟨line, ls, rfl, hline, hw⟩ := List.map_eq_cons_iff.1 hw
      exact .cons (ofLine_of_words hfits.2 hline) (ih hrest hw)

theorem mapM_words_entries {entries : List Entry} (he : ∀ e ∈ entries, e.Fits) :
    ((entries.map Entry.line).filterMap Line.statement?).mapM (fun cs => (Text.words cs).map (List.map String.ofList)) =
      some (entries.filterMap Entry.words?) := by
  induction entries with
  | nil => rfl
  | cons e entries ih =>
    obtain ⟨hfits, hrest⟩ := List.forall_mem_cons.1 he
    cases e with
    | idle cs =>
      rw [List.map_cons, Entry.line_idle, List.filterMap_cons, Line.statement?_eq_none_iff.2 hfits.2]
      exact ih hrest
    | binding form value =>
      have hwords : ((form.words value).map String.toList).map String.ofList = form.words value := by
        simp
      rw [List.map_cons, List.filterMap_cons, statement?_line, List.mapM_cons, words_line, ih hrest,
        Option.map_some, hwords]
      rfl

/-! ### Reading texts -/

theorem sentinel_isPrefix_text (rest : List Char) (entries : List Entry) :
    sentinel.toList <+: (text rest entries).toList := by
  rw [text, String.toList_ofList]
  cases entries with
  | nil => exact List.prefix_append _ rest
  | cons e entries =>
    have hfirst : sentinel.toList ++ rest <+: join '\n' ((sentinel.toList ++ rest) :: (e :: entries).map Entry.line) :=
      List.prefix_append _ _
    exact (List.prefix_append _ rest).trans hfirst

theorem tokens?_text {rest : List Char} {entries : List Entry} (hr : '\n' ∉ rest) (he : ∀ e ∈ entries, e.Fits) :
    Descriptor.tokens? (text rest entries) = some (entries.filterMap Entry.words?) := by
  have hsentinel : '\n' ∉ sentinel.toList := by decide
  have hlines : ∀ l ∈ (sentinel.toList ++ rest) :: entries.map Entry.line, '\n' ∉ l := by
    rw [List.forall_mem_cons, List.forall_mem_map]
    exact ⟨by simpa using ⟨hsentinel, hr⟩, fun e hm => newline_not_mem_line (he e hm)⟩
  have hfirst : Line.statement? (sentinel.toList ++ rest) = none :=
    Line.statement?_eq_none_iff.2 (Line.isIdle_cons_hash _)
  rw [Descriptor.tokens?, Descriptor.filterMap_statement?_drop_lines (sentinel_isPrefix_text rest entries), text,
    String.toList_ofList, filterMap_statement?_lines_join hlines, List.filterMap_cons, hfirst]
  exact mapM_words_entries he

theorem read_eq_ofLines {source : String} (hs : sentinel.toList <+: source.toList) :
    read source = Line.ofTexts 2 ((lines source.toList).drop 1) >>= ofLines none := by
  rw [read, Descriptor.ofText_of_sentinel hs]

theorem read_eq_ok_none_iff {source : String} (hs : sentinel.toList <+: source.toList) :
    read source = .ok none ↔ ∀ cs ∈ lines source.toList, Line.IsIdle cs := by
  have hidle : (∀ cs ∈ lines source.toList, Line.IsIdle cs) ↔
      ∀ cs ∈ (lines source.toList).drop 1, Line.IsIdle cs := by
    simp only [← Line.statement?_eq_none_iff, ← List.filterMap_eq_nil_iff,
      Descriptor.filterMap_statement?_drop_lines hs]
  rw [read_eq_ofLines hs, hidle, ← Line.ofTexts_eq_nil_iff 2]
  constructor
  · intro h
    obtain ⟨ls, hl, h⟩ := exists_of_bind_eq_ok h
    rw [hl, ofLines_eq_ok_none_iff.1 h]
  · intro h
    rw [h]
    rfl

/-- A pin is read as the value of its last binding, whatever the forms of its bindings and whatever stands between
them, and a text that begins with the sentinel is read as one without a binding exactly if it has no statement. -/
theorem read_bindings {rest : List Char} {entries : List Entry} (hr : '\n' ∉ rest) (he : ∀ e ∈ entries, e.Fits) :
    read (text rest entries) = .ok (entries.filterMap Entry.value?).getLast? ∧
      ∀ source : String, sentinel.toList <+: source.toList →
        (read source = .ok none ↔ ∀ cs ∈ lines source.toList, Line.IsIdle cs) := by
  refine ⟨?_, fun source hs => read_eq_ok_none_iff hs⟩
  obtain ⟨ls, hl, hw⟩ := Descriptor.tokens?_eq_some_iff.1 (tokens?_text hr he)
  rw [read_eq_ofLines (sentinel_isPrefix_text rest entries), hl]
  exact ofLines_eq_ok_iff.2 ⟨_, forall₂_ofLine he hw, (Option.or_none).symm⟩

/-- A value that is an equals sign, an empty one, and one with the other characters that a line could be cut at. -/
theorem read_bindings_of_signs :
    let entries : List Entry := [.idle "# 'pins".toList, .binding .apart "=", .binding .spaced "", .idle "\t".toList,
      .binding .joined "it's = #1 \"a\\b\"", .idle []]
    let comments := "#%EnvMaster1.0\r\n \r\n  # version 1"
    '\n' ∉ " 'pins".toList ∧ (∀ e ∈ entries, e.Fits) ∧
      text " 'pins".toList entries = "#%EnvMaster1.0 'pins\n# 'pins\nversion '='\nversion = ''\n\t\n" ++
        "version='it'\\''s = #1 \"a\\b\"'\n" ∧
      read (text " 'pins".toList entries) = .ok (some "it's = #1 \"a\\b\"") ∧
      sentinel.toList <+: comments.toList ∧ (∀ cs ∈ lines comments.toList, Line.IsIdle cs) ∧
      read comments = .ok none := by
  intro entries comments
  have hr : '\n' ∉ " 'pins".toList := by decide
  have he : ∀ e ∈ entries, e.Fits := by decide +kernel
  have hs : sentinel.toList <+: comments.toList := by decide +kernel
  have hidle : ∀ cs ∈ lines comments.toList, Line.IsIdle cs := by decide +kernel
  obtain ⟨hread, hnone⟩ := read_bindings hr he
  exact ⟨hr, he, by decide +kernel, hread, hs, hidle, (hnone comments hs).2 hidle⟩

end Pin

end EnvModules
