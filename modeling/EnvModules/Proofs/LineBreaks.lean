import EnvModules.Proofs.Decoding
import EnvModules.Proofs.Perform

/-!
The lines of what a flush writes. A dialect that writes values as literals escapes a line feed, so that every
command is one line. The other ones put values in quotes, and in csh and in batch files the quotes do not reach
into the next line. Main statement: with quotes a command has a further line for every line feed of its value, and
no other line.
-/

namespace EnvModules

open Text

/-! ### Line feeds -/

theorem length_le_length_flatMap {α β : Type} {f : α → List β} {l : List α} (hf : ∀ a ∈ l, 0 < (f a).length) :
    l.length ≤ (l.flatMap f).length := by
  induction l with
  | nil => exact Nat.zero_le _
  | cons a l ih =>
    obtain ⟨ha, hl⟩ := List.forall_mem_cons.1 hf
    have hle := ih hl
    rw [List.flatMap_cons, List.length_append, List.length_cons]
    omega

theorem length_eq_one_of_length_flatMap {α β : Type} {f : α → List β} {l : List α}
    (hf : ∀ a ∈ l, 0 < (f a).length) (h : (l.flatMap f).length = l.length) : ∀ a ∈ l, (f a).length = 1 := by
  induction l with
  | nil => exact List.forall_mem_nil _
  | cons a l ih =>
    obtain ⟨ha, hl⟩ := List.forall_mem_cons.1 hf
    have hle := length_le_length_flatMap hl
    rw [List.flatMap_cons, List.length_append, List.length_cons] at h
    refine List.forall_mem_cons.2 ⟨by omega, ih hl (by omega)⟩

namespace Text

variable {cs : List Char}

/-- There are as many lines as line feeds if each line has one. -/
theorem length_lines (h : cs = [] ∨ cs.getLast? = some '\n') : (lines cs).length = cs.count '\n' := by
  fun_induction lines cs with
  | case1 => rfl
  | case2 cs ih | case3 cs ih =>
    have hcs : cs = [] ∨ cs.getLast? = some '\n' := by
      cases cs <;> simp_all
    simp [ih hcs]
  | case4 c cs _ hc hl ih =>
    obtain rfl := lines_eq_nil_iff.1 hl
    have h := h.resolve_left (List.cons_ne_nil _ _)
    simp_all
  | case5 c cs _ hc l ls hl ih =>
    have hn : cs ≠ [] := fun hn => by simp [hn, lines] at hl
    obtain ⟨d, ds, rfl⟩ := List.exists_cons_of_ne_nil hn
    have hds : (d :: ds).getLast? = some '\n' := by simpa using h
    have hcount := ih (.inr hds)
    rw [hl] at hcount
    rw [List.count_cons_of_ne (fun he => hc he)]
    exact hcount

theorem length_lines_concat (cs : List Char) : (lines (cs ++ ['\n'])).length = cs.count '\n' + 1 := by
  rw [length_lines (.inr (by simp)), List.count_append]
  rfl

/-- Texts that each get a line feed at their end are cut into lines one by one. -/
theorem lines_flatMap (ls : List (List Char)) :
    lines (ls.flatMap (· ++ ['\n'])) = ls.flatMap fun l => lines (l ++ ['\n']) := by
  induction ls with
  | nil => rfl
  | cons l ls ih =>
    rw [List.flatMap_cons, lines_append_of_getLast? (.inr (by simp)), ih, List.flatMap_cons]

/-- Escaping character by character leaves all line feeds if it adds none and takes none. -/
theorem count_flatMap_escape {f : Char → List Char} (hf : ∀ c, (f c).count '\n' = [c].count '\n') (cs : List Char) :
    (cs.flatMap f).count '\n' = cs.count '\n' := by
  induction cs with
  | nil => rfl
  | cons c cs ih =>
    calc ((c :: cs).flatMap f).count '\n'
      _ = (f c).count '\n' + (cs.flatMap f).count '\n' := by rw [List.flatMap_cons, List.count_append]
      _ = [c].count '\n' + cs.count '\n' := by rw [hf c, ih]
      _ = (c :: cs).count '\n' := by rw [← List.count_append, List.singleton_append]

end Text

/-! ### Commands with values in quotes -/

/-- How many line feeds there are in a value that is assigned. -/
def Change.lineFeeds : Change → Nat
  | assign value => value.toList.count '\n'
  | unset => 0

/-- The parts of the commands of a dialect that puts values in quotes. -/
structure Quotes where
  assignOpening : String
  /-- What stands between a name and a value, with the quote that opens. -/
  assignMiddle : String
  escape : Char → List Char
  /-- What stands after a value, with the quote that closes. -/
  assignEnd : String
  unsetOpening : String
  unsetEnd : String

namespace Quotes

def posix : Quotes := ⟨"export ", "='", singleQuotedChar, "';", "unset ", ";"⟩

def csh : Quotes := ⟨"setenv ", " '", singleQuotedChar, "';", "unsetenv ", ";"⟩

def dos : Quotes := ⟨"set \"", "=", fun c => if c = '%' then ['%', '%'] else [c], "\"", "set ", "="⟩

def line (q : Quotes) (name : String) : Change → List Char
  | .assign value =>
    q.assignOpening.toList ++ (name.toList ++ (q.assignMiddle.toList ++
      (value.toList.flatMap q.escape ++ q.assignEnd.toList)))
  | .unset => q.unsetOpening.toList ++ (name.toList ++ q.unsetEnd.toList)

/-- What the parts have to be like for line feeds to come from values alone. -/
structure Transparent (q : Quotes) : Prop where
  on_line : ∀ part ∈ [q.assignOpening, q.assignMiddle, q.assignEnd, q.unsetOpening, q.unsetEnd],
    part.toList.count '\n' = 0
  escape : ∀ c, (q.escape c).count '\n' = [c].count '\n'
  /-- A command ends in something that does not belong to the ending of its line. -/
  ending : ∀ part ∈ [q.assignEnd, q.unsetEnd], ∃ c, part.toList.getLast? = some c ∧ c ≠ '\r'

theorem count_singleQuotedChar (c : Char) : (singleQuotedChar c).count '\n' = [c].count '\n' := by
  unfold singleQuotedChar
  split_ifs with hc
  · subst hc
    decide
  · rfl

theorem transparent_posix : posix.Transparent where
  on_line := by decide
  escape := count_singleQuotedChar
  ending := by simp [posix]

theorem transparent_csh : csh.Transparent where
  on_line := by decide
  escape := count_singleQuotedChar
  ending := by simp [csh]

theorem transparent_dos : dos.Transparent where
  on_line := by decide
  escape c := by
    show (if c = '%' then ['%', '%'] else [c]).count '\n' = _
    split_ifs with hc
    · subst hc
      decide
    · rfl
  ending := by simp [dos]

variable {q : Quotes} {name : String}

theorem count_line (hq : q.Transparent) (hn : '\n' ∉ name.toList) (change : Change) :
    (q.line name change).count '\n' = change.lineFeeds := by
  have hp := hq.on_line
  simp only [List.forall_mem_cons] at hp
  obtain ⟨h₁, h₂, h₃, h₄, h₅, -⟩ := hp
  have hname : name.toList.count '\n' = 0 := List.count_eq_zero.2 hn
  cases change with
  | assign value =>
    have hvalue := count_flatMap_escape hq.escape value.toList
    simp only [line, List.count_append, h₁, h₂, h₃, hname, hvalue, Change.lineFeeds]
    omega
  | unset => simp only [line, List.count_append, h₄, h₅, hname, Change.lineFeeds]

theorem getLast?_line (hq : q.Transparent) (name : String) (change : Change) :
    (q.line name change).getLast? ≠ some '\r' := by
  have he := hq.ending
  simp only [List.forall_mem_cons] at he
  obtain ⟨⟨c, hc, hcr⟩, ⟨d, hd, hdr⟩, -⟩ := he
  cases change with
  | assign value => simp [line, List.getLast?_append, hc, hcr]
  | unset => simp [line, List.getLast?_append, hd, hdr]

end Quotes

/-! ### Scripts -/

namespace Dialect

variable {d : Dialect} {name : String}

/-- The lines that the command for a change takes. -/
def commandLines (d : Dialect) (name : String) (change : Change) : List (List Char) :=
  lines ((d.command name change).toList ++ ['\n'])

theorem lines_script (hp : d.preamble? = none) (batch : Bindings Change) :
    lines (d.script batch).toList = batch.entries.flatMap fun e => d.commandLines e.1 e.2 := by
  rw [toList_script, hp, Option.toList_none, List.map_nil, ite_self, List.nil_append, lines_flatMap,
    List.flatMap_map]
  rfl

theorem exists_quotes (hd : d ∈ [posix, csh, dos]) :
    d.preamble? = none ∧ ∃ q : Quotes, q.Transparent ∧
      ∀ name change, (d.command name change).toList = q.line name change := by
  simp only [List.mem_cons, List.not_mem_nil, or_false] at hd
  rcases hd with rfl | rfl | rfl
  · refine ⟨rfl, .posix, Quotes.transparent_posix, fun name change => ?_⟩
    cases change with
    | assign value =>
      rw [show posix.command name (.assign value) = "export " ++ name ++ "=" ++ quoted value ++ ";" from rfl]
      simp [Quotes.line, Quotes.posix, quoted, singleQuoted]
    | unset =>
      rw [show posix.command name .unset = "unset " ++ name ++ ";" from rfl]
      simp [Quotes.line, Quotes.posix]
  · refine ⟨rfl, .csh, Quotes.transparent_csh, fun name change => ?_⟩
    cases change with
    | assign value =>
      rw [show csh.command name (.assign value) = "setenv " ++ name ++ " " ++ quoted value ++ ";" from rfl]
      simp [Quotes.line, Quotes.csh, quoted, singleQuoted]
    | unset =>
      rw [show csh.command name .unset = "unsetenv " ++ name ++ ";" from rfl]
      simp [Quotes.line, Quotes.csh]
  · refine ⟨rfl, .dos, Quotes.transparent_dos, fun name change => ?_⟩
    cases change with
    | assign value =>
      rw [show dos.command name (.assign value) = "set \"" ++ name ++ "=" ++ doubledPercent value ++ "\"" from rfl]
      simp [Quotes.line, Quotes.dos, doubledPercent]
    | unset =>
      rw [show dos.command name .unset = "set " ++ name ++ "=" from rfl]
      simp [Quotes.line, Quotes.dos]

theorem count_command (hd : d ∈ [posix, csh, dos]) (hn : isIdentifier name = true) (change : Change) :
    (d.command name change).toList.count '\n' = change.lineFeeds := by
  obtain ⟨-, q, hq, hline⟩ := exists_quotes hd
  have hname : '\n' ∉ name.toList := fun hm => absurd ((toList_of_isIdentifier hn).2 _ hm) (by decide)
  rw [hline, Quotes.count_line hq hname]

theorem length_commandLines (hd : d ∈ [posix, csh, dos]) (hn : isIdentifier name = true) (change : Change) :
    (d.commandLines name change).length = change.lineFeeds + 1 := by
  rw [commandLines, length_lines_concat, count_command hd hn]

/-- A command is a line of its own if its value has no line feed. -/
theorem commandLines_eq_singleton (hd : d ∈ [posix, csh, dos]) (hn : isIdentifier name = true) {change : Change}
    (hc : change.lineFeeds = 0) : d.commandLines name change = [(d.command name change).toList] := by
  have hl : '\n' ∉ (d.command name change).toList :=
    List.count_eq_zero.1 ((count_command hd hn change).trans hc)
  have hr : (d.command name change).toList.getLast? ≠ some '\r' := by
    obtain ⟨-, q, hq, hline⟩ := exists_quotes hd
    rw [hline]
    exact Quotes.getLast?_line hq name change
  rw [commandLines, lines_append hl hr]
  rfl

/-- All lines are commands exactly if no value has a line feed. -/
theorem lines_script_eq_map_iff (hd : d ∈ [posix, csh, dos]) {batch : Bindings Change}
    (hn : ∀ e ∈ batch.entries, isIdentifier e.1 = true) :
    lines (d.script batch).toList = (batch.entries.map fun e => (d.command e.1 e.2).toList) ↔
      ∀ e ∈ batch.entries, e.2.lineFeeds = 0 := by
  have hlength : ∀ e ∈ batch.entries, (d.commandLines e.1 e.2).length = e.2.lineFeeds + 1 :=
    fun e he => length_commandLines hd (hn e he) e.2
  rw [lines_script (exists_quotes hd).1]
  constructor
  · -- Every command has a line, so that none is left for a second line of any.
    intro h e he
    have hpos : ∀ e ∈ batch.entries, 0 < (d.commandLines e.1 e.2).length := by
      intro e he
      rw [hlength e he]
      exact Nat.succ_pos _
    have hall := congrArg List.length h
    rw [List.length_map] at hall
    have hone := length_eq_one_of_length_flatMap hpos hall e he
    rw [hlength e he] at hone
    omega
  · intro h
    rw [List.map_eq_flatMap]
    exact List.flatMap_congr fun e he => commandLines_eq_singleton hd (hn e he) (h e he)

/-- With values in literals all lines are commands, whatever the values are. -/
theorem lines_script_of_literals (hd : d ∈ [python, r]) (batch : Bindings Change) :
    lines (d.script batch).toList = (if batch.entries.isEmpty then [] else d.preamble?.toList.map String.toList) ++
      batch.entries.map fun e => (d.command e.1 e.2).toList := by
  have hcommand : ∀ name change, '\n' ∉ (d.command name change).toList ∧
      (d.command name change).toList.getLast? ≠ some '\r' := by
    intro name change
    simp only [List.mem_cons, List.not_mem_nil, or_false] at hd
    rcases hd with rfl | rfl
    · rw [toList_command_python]
      refine ⟨Calls.not_mem_line Calls.legible_python name change, ?_⟩
      cases change <;> simp [Calls.line, Calls.python, Text.literal, List.getLast?_append, List.getLast?_cons]
    · rw [toList_command_r]
      refine ⟨Calls.not_mem_line Calls.legible_r name change, ?_⟩
      cases change <;> simp [Calls.line, Calls.r, Text.literal, List.getLast?_append, List.getLast?_cons]
  rw [toList_script, lines_flatMap_append]
  rintro l hl
  rcases List.mem_append.1 hl with hl | hl
  · have hpreamble : ∀ l ∈ d.preamble?.toList.map String.toList, '\n' ∉ l ∧ l.getLast? ≠ some '\r' := by
      simp only [List.mem_cons, List.not_mem_nil, or_false] at hd
      rcases hd with rfl | rfl <;> simp [preamble?]
    split at hl
    · contradiction
    · exact hpreamble l hl
  · obtain ⟨e, -, rfl⟩ := List.mem_map.1 hl
    exact hcommand e.1 e.2

theorem head?_command (hd : d ∈ [csh, dos]) (name : String) (change : Change) :
    (d.command name change).toList.head? ∈ [some 's', some 'u'] := by
  simp only [List.mem_cons, List.not_mem_nil, or_false] at hd
  rcases hd with rfl | rfl <;> cases change <;> simp [command, assign, unset]

end Dialect

namespace Backend

/-- A flush in quotes writes the lines of one command after the other. A command takes as many further lines as its
value has line feeds, so that every line is the command of a variable exactly if no value has any. -/
theorem lines_flush {d : Dialect} (hd : d ∈ [Dialect.posix, .csh, .dos]) {batch : Bindings Change}
    (hn : ∀ e ∈ batch.entries, isIdentifier e.1 = true) :
    ∃ text : String,
      lines text.toList = (batch.entries.flatMap fun e => d.commandLines e.1 e.2) ∧
        (∀ e ∈ batch.entries, (d.commandLines e.1 e.2).length = e.2.lineFeeds + 1) ∧
        (lines text.toList = (batch.entries.map fun e => (d.command e.1 e.2).toList) ↔
          ∀ e ∈ batch.entries, e.2.lineFeeds = 0) ∧
        ∀ (env : Environment) (streams : Streams),
          let flushed := (Backend.commands d batch).flush env streams
          (flushed.outcome = .ok () ↔ (streams.commands.write text).1 = true) ∧
            flushed.streams.commands = (streams.commands.write text).2 := by
  have hlines := Dialect.lines_script (Dialect.exists_quotes hd).1 batch
  refine ⟨d.script batch, hlines, fun e he => Dialect.length_commandLines hd (hn e he) e.2,
    Dialect.lines_script_eq_map_iff hd hn, fun env streams => ?_⟩
  by_cases hw : (streams.commands.write (d.script batch)).1 = true <;> simp [flush, hw]

/-- A value of three lines and one with a quote, with the removal of a variable between them. -/
theorem lines_flush_of_three_lines :
    let batch : Bindings Change :=
      ⟨[("A", .assign "1\nrm x\n"), ("B", .unset), ("C", .assign "it's 5%")], by decide⟩
    ∃ text : String,
      (lines text.toList).length = 5 ∧
        lines text.toList ≠ (batch.entries.map fun e => (Dialect.dos.command e.1 e.2).toList) ∧
        ∀ (env : Environment) (streams : Streams),
          ((Backend.commands .dos batch).flush env streams).streams.commands = (streams.commands.write text).2 := by
  intro batch
  have hn : ∀ e ∈ batch.entries, isIdentifier e.1 = true := by decide
  obtain ⟨text, hlines, hlength, hiff, hflush⟩ := lines_flush (d := .dos) (by decide) hn
  refine ⟨text, ?_, mt hiff.1 (by decide), fun env streams => (hflush env streams).2⟩
  simp only [batch, List.forall_mem_cons] at hlength
  obtain ⟨ha, hb, hc, -⟩ := hlength
  rw [hlines, List.length_flatMap]
  simp [batch, ha, hb, hc, Change.lineFeeds]

end Backend

/-- A reference to a variable brings its line feeds along, and then there is a line that is no command of the
dialect, whatever variable it could be about. -/
theorem Session.perform_load_breaks_lines :
    let s : Session := .ofVars [("V", "1\nrm x\n")]
    let done (d : Dialect) :=
      s.perform (.ofDescriptors [("a", ["setVar $V A"])]) (.load ["a"]) (.commands d .empty) .unlimited
    let forCsh := "setenv A '1\nrm x\n';\nsetenv LOADEDENVMASTER 'a';\n"
    let forDos := "set \"A=1\nrm x\n\"\nset \"LOADEDENVMASTER=a\"\n"
    ((done .csh).outcome = .ok () ∧ (done .csh).streams.commands.written = forCsh.toUTF8 ∧
        "rm x".toList ∈ lines forCsh.toList) ∧
      ((done .dos).outcome = .ok () ∧ (done .dos).streams.commands.written = forDos.toUTF8 ∧
        "rm x".toList ∈ lines forDos.toList) ∧
      ∀ d ∈ [Dialect.csh, .dos], ∀ name change, d.command name change ≠ "rm x" := by
  intro s done forCsh forDos
  refine ⟨⟨by decide +kernel, by decide +kernel, by decide⟩, ⟨by decide +kernel, by decide +kernel, by decide⟩, ?_⟩
  intro d hd name change h
  have hfirst := Dialect.head?_command hd name change
  rw [h] at hfirst
  contradiction

end EnvModules
