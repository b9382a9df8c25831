import EnvModules.Backend
import EnvModules.Proofs.Segments
import EnvModules.Proofs.Words
import EnvModules.Toml.Quoted

/-!
Reading the text of a batch as the interpreters do that it is written for. Each reading knows the syntax of
its interpreter as far as quoting goes, and refuses every character that could mean more than itself. Main
statement: what a flush writes is read as the changes of the batch, in the order of names, and as nothing else.
-/

namespace EnvModules

open Text

/-! ### The shells -/

namespace Shell

/-- What the characters read so far leave open. -/
inductive Reading where
  /-- Before the first word of a command. -/
  | start
  /-- Between two words of a command. -/
  | gap
  /-- In a word, outside quotes. -/
  | bare
  /-- In a word, right after a backslash. -/
  | escaped
  /-- Inside single quotes, where every character stands for itself. -/
  | quoted
  deriving DecidableEq, Repr

/-- The characters that stand for themselves outside quotes. -/
def isPlain (c : Char) : Bool := c.isAlphanum || "%+,-./:=@_".toList.contains c

def isSeparator (c : Char) : Bool := c == ' ' || c == '\t'

/-- The characters that end a command. -/
def isTerminator (c : Char) : Bool := c == ';' || c == '\n'

/-- What one character does inside a word: where it leads, and the characters it adds. Whatever could be
expanded, redirect or run something is refused. -/
def Reading.inWord (c : Char) : Option (Reading × List Char) :=
  if c = '\x27' then some (.quoted, [])
  else if c = '\\' then some (.escaped, [])
  else if isPlain c then some (.bare, [c])
  else none

/-- Puts characters in front of the first word of the first command. -/
def extend (cs : List Char) : List (List (List Char)) → List (List (List Char))
  | (w :: ws) :: commands => ((cs ++ w) :: ws) :: commands
  | [] :: commands => [cs] :: commands
  | [] => [[cs]]

/-- Ends a word, so that what follows are further words of the first command. -/
def endWord : List (List (List Char)) → List (List (List Char))
  | ws :: commands => ([] :: ws) :: commands
  | [] => [[[]]]

/-- Reads on from a state, to commands that are lists of words. Inside a command the first element of the result
is the rest of that command, and inside a word its first word is the rest of that word. A semicolon without a
command before it is refused, and so are null characters and what is left open at the end. -/
def Reading.commands : Reading → List Char → Option (List (List (List Char)))
  | .start, [] => some []
  | .gap, [] => some [[]]
  | .bare, [] => some [[[]]]
  | .escaped, [] | .quoted, [] => none
  | .start, c :: cs =>
    if isSeparator c ∨ c = '\n' then Reading.start.commands cs
    else
      match Reading.inWord c with
      | some (next, added) => (next.commands cs).map (extend added)
      | none => none
  | .gap, c :: cs =>
    if isSeparator c then Reading.gap.commands cs
    else if isTerminator c then (Reading.start.commands cs).map ([] :: ·)
    else
      match Reading.inWord c with
      | some (next, added) => (next.commands cs).map (extend added)
      | none => none
  | .bare, c :: cs =>
    if isSeparator c then (Reading.gap.commands cs).map endWord
    else if isTerminator c then (Reading.start.commands cs).map ([[]] :: ·)
    else
      match Reading.inWord c with
      | some (next, added) => (next.commands cs).map (extend added)
      | none => none
  | .escaped, c :: cs =>
    if c = '\n' ∨ c = '\x00' then none else (Reading.bare.commands cs).map (extend [c])
  | .quoted, c :: cs =>
    if c = '\x27' then Reading.bare.commands cs
    else if c = '\x00' then none
    else (Reading.quoted.commands cs).map (extend [c])

/-- The change of a variable that a command is about. -/
def change? : List (List Char) → Option (String × Change)
  | [head, word] =>
    if head = "export".toList then
      match splitOnce '=' word with
      | some (name, value) =>
        if isIdentifier (String.ofList name) then some (String.ofList name, .assign (String.ofList value))
        else none
      | none => none
    else if head = "unset".toList then
      if isIdentifier (String.ofList word) then some (String.ofList word, .unset) else none
    else none
  | _ => none

/-- The changes that a text makes, if that is all it does. -/
def decode? (text : List Char) : Option (List (String × Change)) := do
  (← Reading.start.commands text).mapM change?

end Shell

/-! ### Literals -/

namespace Text

/-- The character that a letter after a backslash stands for. -/
def shortEscape? (c : Char) : Option Char :=
  if c = '"' ∨ c = '\\' then some c
  else if c = 'n' then some '\n'
  else if c = 'r' then some '\r'
  else if c = 't' then some '\t'
  else if c = 'b' then some '\x08'
  else if c = 'f' then some '\x0c'
  else none

/-- The rest of a literal up to its closing quote, and what follows it. Control characters are refused, and so
are the codes of the null character and of surrogates. -/
def literalBody? : List Char → Toml.Read
  | [] => none
  | '"' :: cs => some ([], cs)
  | '\\' :: 'u' :: a :: b :: c :: d :: cs =>
    (literalBody? cs).push ((Toml.codePoint? [a, b, c, d]).filter (· != '\x00'))
  | '\\' :: c :: cs => (literalBody? cs).push (shortEscape? c)
  | c :: cs => if c.toNat < 0x20 || c == '\\' then none else (literalBody? cs).push (some c)

def literal? : List Char → Toml.Read
  | '"' :: cs => literalBody? cs
  | _ => none

end Text

/-! ### Interpreters with literals -/

/-- How an interpreter with literals writes changes: a line that goes before them, and what stands around the
literals. -/
structure Calls where
  preamble : Option String
  assignOpening : String
  assignMiddle : String
  assignEnd : String
  unsetOpening : String
  unsetEnd : String

namespace Calls

def python : Calls := ⟨some "import os", "os.environ[", "] = ", "", "os.environ.pop(", ", None)"⟩

def r : Calls := ⟨none, "Sys.setenv(", " = ", ")", "Sys.unsetenv(", ")"⟩

variable (k : Calls)

/-- The change that a line makes, if that is all it does. -/
def change? (line : List Char) : Option (String × Change) :=
  match line.dropPrefix? k.assignOpening.toList with
  | some rest => do
    let (name, rest) ← literal? rest
    let (value, rest) ← literal? (← rest.dropPrefix? k.assignMiddle.toList)
    if rest = k.assignEnd.toList then some (String.ofList name, .assign (String.ofList value)) else none
  | none => do
    let (name, rest) ← literal? (← line.dropPrefix? k.unsetOpening.toList)
    if rest = k.unsetEnd.toList then some (String.ofList name, .unset) else none

/-- The lines after the one that goes before them. A text without lines need not have it. -/
def afterPreamble? (lines : List (List Char)) : Option (List (List Char)) :=
  match k.preamble, lines with
  | none, lines => some lines
  | some _, [] => some []
  | some preamble, first :: rest => if first = preamble.toList then some rest else none

/-- The changes that a text makes, if that is all it does. Empty lines do nothing. -/
def decode? (text : List Char) : Option (List (String × Change)) := do
  let lines ← k.afterPreamble? ((fields (· == '\n') text).filter (· ≠ []))
  lines.mapM k.change?

end Calls

/-- The changes that an interpreter makes when it runs a text, where its syntax is known. -/
def Dialect.decode? (d : Dialect) (text : String) : Option (List (String × Change)) :=
  match d with
  | .posix => Shell.decode? text.toList
  | .python => Calls.python.decode? text.toList
  | .r => Calls.r.decode? text.toList
  | .csh | .dos => none

-- A value whose own quotes are not escaped either leaves quotes open or brings in a command of its own.
example : Dialect.posix.decode? "export A='it's';\n" = none ∧
    Dialect.posix.decode? "export A='';b '';\n" = none := by
  decide +kernel

/-! ### Reading what is written for the shells -/

namespace Shell

variable {c : Char} {cs w rest : List Char} {ws : List (List Char)} {more : List (List (List Char))}

theorem ne_of_isPlain {d : Char} (hc : isPlain c = true) (hd : isPlain d = false) : c ≠ d := by
  rintro rfl
  simp [hd] at hc

theorem isSeparator_of_isPlain (hc : isPlain c = true) : isSeparator c = false := by
  have hne (d : Char) (hd : isPlain d = false) : (c == d) = false := beq_eq_false_iff_ne.2 (ne_of_isPlain hc hd)
  simp [isSeparator, hne ' ' (by decide), hne '\t' (by decide)]

theorem isTerminator_of_isPlain (hc : isPlain c = true) : isTerminator c = false := by
  have hne (d : Char) (hd : isPlain d = false) : (c == d) = false := beq_eq_false_iff_ne.2 (ne_of_isPlain hc hd)
  simp [isTerminator, hne ';' (by decide), hne '\n' (by decide)]

theorem Reading.inWord_of_isPlain (hc : isPlain c = true) : inWord c = some (.bare, [c]) := by
  rw [inWord, if_neg (ne_of_isPlain hc (by decide)), if_neg (ne_of_isPlain hc (by decide)), if_pos hc]

/-- A character that stands for itself belongs to a word, be it the first of the word or not. -/
theorem Reading.commands_cons_of_isPlain {r : Reading} (hr : r ∈ [.start, .gap, .bare]) (hc : isPlain c = true)
    (cs : List Char) : r.commands (c :: cs) = (Reading.bare.commands cs).map (extend [c]) := by
  have hs := isSeparator_of_isPlain hc
  have ht := isTerminator_of_isPlain hc
  have hl : c ≠ '\n' := ne_of_isPlain hc (by decide)
  simp only [List.mem_cons, List.not_mem_nil, or_false] at hr
  rcases hr with rfl | rfl | rfl <;> simp [Reading.commands, hs, ht, hl, inWord_of_isPlain hc]

theorem Reading.commands_bare_append (hc : ∀ c ∈ cs, isPlain c = true)
    (h : Reading.bare.commands rest = some ((w :: ws) :: more)) :
    Reading.bare.commands (cs ++ rest) = some (((cs ++ w) :: ws) :: more) := by
  induction cs with
  | nil => exact h
  | cons c cs ih =>
    obtain ⟨hc, hcs⟩ := List.forall_mem_cons.1 hc
    rw [List.cons_append, commands_cons_of_isPlain (by decide) hc, ih hcs]
    rfl

/-- Characters that stand for themselves begin a word. -/
theorem Reading.commands_append {r : Reading} (hr : r ∈ [.start, .gap, .bare]) (hn : cs ≠ [])
    (hc : ∀ c ∈ cs, isPlain c = true) (h : Reading.bare.commands rest = some ((w :: ws) :: more)) :
    r.commands (cs ++ rest) = some (((cs ++ w) :: ws) :: more) := by
  obtain ⟨c, cs, rfl⟩ := List.exists_cons_of_ne_nil hn
  obtain ⟨hc, hcs⟩ := List.forall_mem_cons.1 hc
  rw [List.cons_append, commands_cons_of_isPlain hr hc, commands_bare_append hcs h]
  rfl

theorem Reading.commands_bare_quote (cs : List Char) :
    Reading.bare.commands ('\x27' :: cs) = (Reading.quoted.commands cs).map (extend []) := rfl

theorem Reading.commands_bare_escapedQuote (cs : List Char) :
    Reading.bare.commands ('\\' :: '\x27' :: cs) =
      ((Reading.bare.commands cs).map (extend ['\x27'])).map (extend []) := rfl

/-- A value in quotes is a word, or the beginning of one. -/
theorem Reading.commands_bare_singleQuoted (h : Reading.bare.commands rest = some ((w :: ws) :: more))
    (hc : '\x00' ∉ cs) :
    Reading.bare.commands (singleQuoted cs ++ rest) = some (((cs ++ w) :: ws) :: more) := by
  have hq : Reading.quoted.commands (cs.flatMap singleQuotedChar ++ '\x27' :: rest) =
      some (((cs ++ w) :: ws) :: more) := by
    induction cs with
    | nil => exact h
    | cons c cs ih =>
      obtain ⟨hne, hcs⟩ := not_or.1 (mt List.mem_cons.2 hc)
      rw [List.flatMap_cons, List.append_assoc, singleQuotedChar]
      split_ifs with hq
      · -- The run of quoted characters ends, a quote stands escaped, and the next run begins.
        subst hq
        have htail := congrArg (Option.map (extend [])) (ih hcs)
        rw [← commands_bare_quote] at htail
        change Reading.bare.commands ('\\' :: '\x27' :: '\x27' ::
          (cs.flatMap singleQuotedChar ++ '\x27' :: rest)) = _
        rw [commands_bare_escapedQuote, htail]
        rfl
      · rw [List.singleton_append, Reading.commands, if_neg hq, if_neg (Ne.symm hne), ih hcs]
        rfl
  rw [singleQuoted, List.cons_append, List.cons_append, List.append_assoc, commands_bare_quote,
    List.singleton_append, hq]
  rfl

/-- A command ends at its semicolon, so that the end of its line ends nothing. -/
theorem Reading.commands_bare_terminators (h : Reading.start.commands rest = some more) :
    Reading.bare.commands (';' :: '\n' :: rest) = some ([[]] :: more) := by
  simp [Reading.commands, isSeparator, isTerminator, h]

theorem Reading.commands_bare_space (h : Reading.gap.commands rest = some (ws :: more)) :
    Reading.bare.commands (' ' :: rest) = some (([] :: ws) :: more) := by
  simp [Reading.commands, isSeparator, h, endWord]

theorem isPlain_of_isIdentifierChar (hc : isIdentifierChar c = true) : isPlain c = true := by
  simp only [isIdentifierChar, isPlain, Bool.or_eq_true, beq_iff_eq] at hc ⊢
  refine hc.imp_right ?_
  rintro rfl
  decide

/-- The words of the command for a change. -/
def words (name : String) : Change → List (List Char)
  | .assign value => ["export".toList, name.toList ++ '=' :: value.toList]
  | .unset => ["unset".toList, name.toList]

/-- A command is read as its words, whatever follows it. -/
theorem commands_command {name : String} {change : Change} (hn : isIdentifier name = true)
    (hv : ∀ value, change = .assign value → '\x00' ∉ value.toList)
    (h : Reading.start.commands rest = some more) :
    Reading.start.commands ((Dialect.posix.command name change).toList ++ '\n' :: rest) =
      some (words name change :: more) := by
  obtain ⟨hne, hc⟩ := toList_of_isIdentifier hn
  have hplain : ∀ c ∈ name.toList, isPlain c = true := fun c hm => isPlain_of_isIdentifierChar (hc c hm)
  have hend := Reading.commands_bare_terminators h
  cases change with
  | unset =>
    have hname := Reading.commands_append (r := .gap) (by decide) hne hplain hend
    have hword := Reading.commands_bare_space hname
    calc Reading.start.commands ((Dialect.posix.command name .unset).toList ++ '\n' :: rest)
      _ = Reading.start.commands (("unset " ++ name ++ ";").toList ++ '\n' :: rest) := rfl
      _ = Reading.start.commands ("unset".toList ++ ' ' :: (name.toList ++ ';' :: '\n' :: rest)) := by
        simp only [String.toList_append, List.append_assoc]
        rfl
      _ = some ([("unset".toList ++ []), name.toList ++ []] :: more) :=
        Reading.commands_append (by decide) (by decide) (List.all_eq_true.1 (by decide)) hword
      _ = some (words name .unset :: more) := by simp only [words, List.append_nil]
  | assign value =>
    have hquoted := Reading.commands_bare_singleQuoted hend (hv value rfl)
    have hequal : ∀ c ∈ name.toList ++ ['='], isPlain c = true :=
      List.forall_mem_append.2 ⟨hplain, List.forall_mem_singleton.2 (by decide)⟩
    have hname := Reading.commands_append (r := .gap) (by decide) (by simp) hequal hquoted
    have hword := Reading.commands_bare_space hname
    calc Reading.start.commands ((Dialect.posix.command name (.assign value)).toList ++ '\n' :: rest)
      _ = Reading.start.commands
          (("export " ++ name ++ "=" ++ Dialect.quoted value ++ ";").toList ++ '\n' :: rest) := rfl
      _ = Reading.start.commands ("export".toList ++ ' ' ::
          ((name.toList ++ ['=']) ++ (singleQuoted value.toList ++ ';' :: '\n' :: rest))) := by
        simp only [Dialect.quoted, String.toList_append, String.toList_ofList, List.append_assoc]
        rfl
      _ = some (["export".toList ++ [], (name.toList ++ ['=']) ++ (value.toList ++ [])] :: more) :=
        Reading.commands_append (by decide) (by decide) (List.all_eq_true.1 (by decide)) hword
      _ = some (words name (.assign value) :: more) := by
        simp only [words, List.append_nil, List.append_assoc, List.singleton_append]

theorem change?_words {name : String} (hn : isIdentifier name = true) (change : Change) :
    change? (words name change) = some (name, change) := by
  obtain ⟨-, hc⟩ := toList_of_isIdentifier hn
  have heq : '=' ∉ name.toList := fun hm => absurd (hc _ hm) (by decide)
  cases change with
  | unset => simp [words, change?, hn]
  | assign value => simp [words, change?, splitOnce_append heq, hn]

theorem commands_flatMap {entries : List (String × Change)} (hn : ∀ e ∈ entries, isIdentifier e.1 = true)
    (hv : ∀ name value, (name, Change.assign value) ∈ entries → '\x00' ∉ value.toList) :
    Reading.start.commands
        ((entries.map fun e => (Dialect.posix.command e.1 e.2).toList).flatMap (· ++ ['\n'])) =
      some (entries.map fun e => words e.1 e.2) := by
  induction entries with
  | nil => rfl
  | cons e entries ih =>
    obtain ⟨hn, hns⟩ := List.forall_mem_cons.1 hn
    have hrest := ih hns fun name value hm => hv name value (List.mem_cons_of_mem _ hm)
    simpa using commands_command hn (fun value he => hv e.1 value (he ▸ List.mem_cons_self)) hrest

/-- The commands for several changes are read as those changes. -/
theorem decode?_flatMap {entries : List (String × Change)} (hn : ∀ e ∈ entries, isIdentifier e.1 = true)
    (hv : ∀ name value, (name, Change.assign value) ∈ entries → '\x00' ∉ value.toList) :
    decode? ((entries.map fun e => (Dialect.posix.command e.1 e.2).toList).flatMap (· ++ ['\n'])) =
      some entries := by
  rw [decode?, commands_flatMap hn hv]
  exact mapM_map_eq_some fun e he => change?_words (hn e he) e.2

end Shell

/-! ### Reading literals -/

namespace Text

variable {c : Char} {cs : List Char}

theorem codePoint?_hexDigit (h : c.toNat < 0x20) :
    Toml.codePoint? ['0', '0', hexDigit (c.toNat / 16), hexDigit (c.toNat % 16)] = some c := by
  have hall : ∀ n < 0x20,
      Toml.codePoint? ['0', '0', hexDigit (n / 16), hexDigit (n % 16)] = some (Char.ofNat n) := by
    decide
  rw [hall _ h, Char.ofNat_toNat]

/-- A character that is written into a literal is read as itself. -/
theorem literalBody?_literalChar (hc : c ≠ '\x00') (rest : List Char) :
    literalBody? (literalChar c ++ rest) = (literalBody? rest).push (some c) := by
  unfold literalChar
  split_ifs with h₁ h₂ h₃ h₄ h₅ h₆ h₇ h₈
  -- The characters with a short form are read back by computation.
  iterate 7 subst c; rfl
  · have hp : (Toml.codePoint? ['0', '0', hexDigit (c.toNat / 16), hexDigit (c.toNat % 16)]).filter
        (· != '\x00') = some c := by
      simp [codePoint?_hexDigit h₈, hc]
    exact congrArg (literalBody? rest).push hp
  · simp [literalBody?, h₂, h₈]

theorem literal?_literal (hc : '\x00' ∉ cs) (rest : List Char) :
    literal? (literal cs ++ rest) = some (cs, rest) := by
  have hb : literalBody? (cs.flatMap literalChar ++ '"' :: rest) = some (cs, rest) := by
    induction cs with
    | nil => rfl
    | cons c cs ih =>
      obtain ⟨hne, hcs⟩ := not_or.1 (mt List.mem_cons.2 hc)
      rw [List.flatMap_cons, List.append_assoc, literalBody?_literalChar (Ne.symm hne), ih hcs]
      rfl
  simpa [literal, literal?] using hb

theorem not_mem_literal (cs : List Char) : '\n' ∉ literal cs := by
  have hc : ∀ c, '\n' ∉ literalChar c := by
    intro c
    unfold literalChar
    split_ifs with _ _ h₃ _ _ _ _ h₈
    -- A line feed has a short form, so that it stands for itself in no case.
    iterate 7 decide
    · have hall : ∀ n < 0x20, '\n' ∉ ['\\', 'u', '0', '0', hexDigit (n / 16), hexDigit (n % 16)] := by decide
      exact hall _ h₈
    · simpa using fun h => h₃ h.symm
  simp [literal, hc]

end Text

/-! ### Reading what is written with literals -/

namespace Calls

/-- The line for a change. -/
def line (k : Calls) (name : String) : Change → List Char
  | .assign value =>
    k.assignOpening.toList ++ (literal name.toList ++ (k.assignMiddle.toList ++
      (literal value.toList ++ k.assignEnd.toList)))
  | .unset => k.unsetOpening.toList ++ (literal name.toList ++ k.unsetEnd.toList)

/-- What the parts of the lines have to be like for the lines to be told from each other. -/
structure Legible (k : Calls) : Prop where
  /-- No removal begins as an assignment does. -/
  apart : ∀ rest, (k.unsetOpening.toList ++ rest).dropPrefix? k.assignOpening.toList = none
  on_line : ∀ part ∈ [k.assignOpening, k.assignMiddle, k.assignEnd, k.unsetOpening, k.unsetEnd],
    '\n' ∉ part.toList
  opening_ne : k.assignOpening ≠ "" ∧ k.unsetOpening ≠ ""
  preamble : ∀ line ∈ k.preamble, line ≠ "" ∧ '\n' ∉ line.toList

theorem legible_python : python.Legible where
  apart _ := rfl
  on_line := by decide
  opening_ne := by decide
  preamble := by simp [python]

theorem legible_r : r.Legible where
  apart _ := rfl
  on_line := by decide
  opening_ne := by decide
  preamble := nofun

variable {k : Calls}

theorem change?_line (hk : k.Legible) {name : String} {change : Change} (hn : '\x00' ∉ name.toList)
    (hv : ∀ value, change = .assign value → '\x00' ∉ value.toList) :
    k.change? (k.line name change) = some (name, change) := by
  have hd (part rest : List Char) : (part ++ rest).dropPrefix? part = some rest :=
    List.dropPrefix?_append_of_beq rest (beq_self_eq_true part)
  cases change with
  | assign value =>
    simp only [change?, line, hd, literal?_literal hn, literal?_literal (hv value rfl), Option.bind_eq_bind,
      Option.bind_some, if_true, String.ofList_toList]
  | unset =>
    simp only [change?, line, hk.apart, hd, literal?_literal hn, Option.bind_eq_bind, Option.bind_some, if_true,
      String.ofList_toList]

theorem not_mem_line (hk : k.Legible) (name : String) (change : Change) : '\n' ∉ k.line name change := by
  have hp := hk.on_line
  simp only [List.forall_mem_cons] at hp
  obtain ⟨h₁, h₂, h₃, h₄, h₅, -⟩ := hp
  cases change <;> simp [line, not_mem_literal, h₁, h₂, h₃, h₄, h₅]

theorem line_ne_nil (hk : k.Legible) (name : String) (change : Change) : k.line name change ≠ [] := by
  cases change <;> simp [line, hk.opening_ne]

theorem fields_append {l : List Char} (h : '\n' ∉ l) (rest : List Char) :
    fields (· == '\n') (l ++ '\n' :: rest) = l :: fields (· == '\n') rest := by
  have hl : ∀ c ∈ l, (c == '\n') = false := fun c hc => beq_eq_false_iff_ne.2 fun he => h (he ▸ hc)
  have hsep : ('\n' == '\n') = true := beq_self_eq_true _
  rw [fields_eq_splitOnP, fields_eq_splitOnP, List.splitOnP_append_cons_of_forall_mem hl '\n' hsep]

/-- The lines of a text, of which none is empty. -/
theorem filter_fields_flatMap (ls : List (List Char)) (h : ∀ l ∈ ls, '\n' ∉ l ∧ l ≠ []) :
    (fields (· == '\n') (ls.flatMap (· ++ ['\n']))).filter (· ≠ []) = ls := by
  induction ls with
  | nil => rfl
  | cons l ls ih =>
    obtain ⟨⟨hl, hn⟩, hls⟩ := List.forall_mem_cons.1 h
    rw [List.flatMap_cons, List.append_assoc, List.singleton_append, fields_append hl,
      List.filter_cons_of_pos (by simpa using hn), ih hls]

/-- The lines of the text for several changes. -/
def lines (k : Calls) (entries : List (String × Change)) : List (List Char) :=
  (if entries.isEmpty then [] else k.preamble.toList.map String.toList) ++ entries.map fun e => k.line e.1 e.2

theorem afterPreamble?_lines (k : Calls) (entries : List (String × Change)) :
    k.afterPreamble? (k.lines entries) = some (entries.map fun e => k.line e.1 e.2) := by
  unfold afterPreamble? lines
  cases k.preamble with
  | none => simp
  | some preamble => cases entries <;> simp

theorem forall_mem_lines (hk : k.Legible) (entries : List (String × Change)) :
    ∀ l ∈ k.lines entries, '\n' ∉ l ∧ l ≠ [] := by
  refine List.forall_mem_append.2 ⟨fun l hl => ?_, fun l hl => ?_⟩
  · have hl : l ∈ k.preamble.toList.map String.toList := by
      split at hl
      · contradiction
      · exact hl
    obtain ⟨preamble, hp, rfl⟩ := List.mem_map.1 hl
    obtain ⟨hne, hline⟩ := hk.preamble preamble (Option.mem_toList.1 hp)
    exact ⟨hline, by simpa using hne⟩
  · obtain ⟨e, -, rfl⟩ := List.mem_map.1 hl
    exact ⟨not_mem_line hk e.1 e.2, line_ne_nil hk e.1 e.2⟩

/-- The text for several changes is read as those changes. -/
theorem decode?_flatMap (hk : k.Legible) {entries : List (String × Change)}
    (hn : ∀ e ∈ entries, '\x00' ∉ e.1.toList)
    (hv : ∀ name value, (name, Change.assign value) ∈ entries → '\x00' ∉ value.toList) :
    k.decode? ((k.lines entries).flatMap (· ++ ['\n'])) = some entries := by
  rw [decode?, filter_fields_flatMap _ (forall_mem_lines hk entries), afterPreamble?_lines]
  exact mapM_map_eq_some fun e he => change?_line hk (hn e he) fun value hc => hv e.1 value (hc ▸ he)

end Calls

/-! ### Scripts -/

namespace Dialect

theorem toList_script (d : Dialect) (batch : Bindings Change) :
    (d.script batch).toList = ((if batch.entries.isEmpty then [] else d.preamble?.toList.map String.toList) ++
      batch.entries.map fun e => (d.command e.1 e.2).toList).flatMap (· ++ ['\n']) := by
  unfold script Bindings.isEmpty
  split
  · next he => simp [List.isEmpty_iff.1 he]
  · simp [String.toList_join, List.flatMap_map]

theorem toList_command_python (name : String) (change : Change) :
    (python.command name change).toList = Calls.python.line name change := by
  cases change with
  | assign value =>
    rw [show python.command name (.assign value) =
      "os.environ[" ++ literal name ++ "] = " ++ literal value from rfl]
    simp only [Calls.line, Calls.python, literal, String.toList_append, String.toList_ofList,
      String.toList_empty, List.append_assoc, List.append_nil]
  | unset =>
    rw [show python.command name .unset = "os.environ.pop(" ++ literal name ++ ", None)" from rfl]
    simp only [Calls.line, Calls.python, literal, String.toList_append, String.toList_ofList, List.append_assoc]

theorem toList_command_r (name : String) (change : Change) :
    (r.command name change).toList = Calls.r.line name change := by
  cases change with
  | assign value =>
    rw [show r.command name (.assign value) =
      "Sys.setenv(" ++ literal name ++ " = " ++ literal value ++ ")" from rfl]
    simp only [Calls.line, Calls.r, literal, String.toList_append, String.toList_ofList, List.append_assoc]
  | unset =>
    rw [show r.command name .unset = "Sys.unsetenv(" ++ literal name ++ ")" from rfl]
    simp only [Calls.line, Calls.r, literal, String.toList_append, String.toList_ofList, List.append_assoc]

/-- The script of a dialect is read by its calls, if they have the same preamble and the same lines. -/
theorem decode?_script_of_calls {d : Dialect} {k : Calls} (hk : k.Legible) (hp : d.preamble? = k.preamble)
    (hl : ∀ name change, (d.command name change).toList = k.line name change) {batch : Bindings Change}
    (hn : ∀ e ∈ batch.entries, isIdentifier e.1 = true)
    (hv : ∀ name value, (name, Change.assign value) ∈ batch.entries → '\x00' ∉ value.toList) :
    k.decode? (d.script batch).toList = some batch.entries := by
  have hz : ∀ e ∈ batch.entries, '\x00' ∉ e.1.toList := fun e he hm =>
    absurd ((toList_of_isIdentifier (hn e he)).2 _ hm) (by decide)
  simp only [toList_script, hp, hl]
  exact Calls.decode?_flatMap hk hz hv

theorem decode?_script {d : Dialect} (hd : d ∈ [posix, python, r]) {batch : Bindings Change}
    (hn : ∀ e ∈ batch.entries, isIdentifier e.1 = true)
    (hv : ∀ name value, (name, Change.assign value) ∈ batch.entries → '\x00' ∉ value.toList) :
    d.decode? (d.script batch) = some batch.entries := by
  simp only [List.mem_cons, List.not_mem_nil, or_false] at hd
  rcases hd with rfl | rfl | rfl
  · rw [decode?, toList_script]
    simpa [preamble?] using Shell.decode?_flatMap hn hv
  · exact decode?_script_of_calls Calls.legible_python rfl toList_command_python hn hv
  · exact decode?_script_of_calls Calls.legible_r rfl toList_command_r hn hv

end Dialect

namespace Backend

/-- The text that a flush writes is read as the changes of the batch, in the order of names, and as nothing
else. The flush succeeds exactly if the stream takes all of it. -/
theorem decode?_flush {d : Dialect} (hd : d ∈ [Dialect.posix, .python, .r]) {batch : Bindings Change}
    (hn : ∀ e ∈ batch.entries, isIdentifier e.1 = true)
    (hv : ∀ name value, (name, Change.assign value) ∈ batch.entries → '\x00' ∉ value.toList) :
    ∃ text, d.decode? text = some batch.entries ∧ ∀ (env : Environment) (streams : Streams),
      let flushed := (Backend.commands d batch).flush env streams
      (flushed.outcome = .ok () ↔ (streams.commands.write text).1 = true) ∧
        flushed.streams.commands = (streams.commands.write text).2 := by
  refine ⟨d.script batch, Dialect.decode?_script hd hn hv, fun env streams => ?_⟩
  by_cases hw : (streams.commands.write (d.script batch)).1 = true <;> simp [flush, hw]

/-- Quotes of both kinds, expansions, a substitution, a backslash, a line feed, a control character and
semicolons, next to a removal and an empty value. -/
theorem decode?_flush_of_quotes :
    let batch : Bindings Change :=
      ⟨[("A", .assign "it's \"$HOME\"; `ls` \\\n'\x01';"), ("B", .unset), ("C", .assign "")], by decide⟩
    ∃ text, Dialect.posix.decode? text = some batch.entries ∧ ∀ (env : Environment) (streams : Streams),
      let flushed := (Backend.commands .posix batch).flush env streams
      (flushed.outcome = .ok () ↔ (streams.commands.write text).1 = true) ∧
        flushed.streams.commands = (streams.commands.write text).2 := by
  intro batch
  have hn : ∀ e ∈ batch.entries, isIdentifier e.1 = true := by decide
  refine decode?_flush (by decide) hn fun name value hm => ?_
  simp only [batch, List.mem_cons, List.not_mem_nil, or_false, Prod.mk.injEq, Change.assign.injEq] at hm
  rcases hm with ⟨-, rfl⟩ | ⟨-, hc⟩ | ⟨-, rfl⟩
  · decide
  · contradiction
  · decide

end Backend

end EnvModules
