/-!
Texts without the control sequences of a terminal, as they are put into other texts and as a stream shows
them.
-/

namespace EnvModules.Text

/-- How far a control sequence has been read. -/
inductive ControlSequence where
  /-- Its first character, which is an escape. -/
  | opened
  /-- A short sequence, up to a letter, a digit or a sign. -/
  | short
  /-- A sequence with parameters, up to a letter or a sign behind them. -/
  | parameters
  /-- The parameters of a text for the terminal. -/
  | preamble
  /-- A text for the terminal, up to the next sequence. -/
  | message
  /-- A text for the terminal that a bell can end as well. -/
  | title
  deriving DecidableEq, Repr

namespace ControlSequence

/-- What comes after one more ASCII character, or nothing if the sequence ends with it. -/
def next? (s : ControlSequence) (c : Char) : Option ControlSequence :=
  match s with
  | opened =>
    if c = '[' then some parameters
    else if c = ']' then some title
    else if c = 'P' then some preamble
    else if ['X', '^', '_'].contains c then some message
    else if ' ' ≤ c ∧ c ≤ '/' then some short
    else if '0' ≤ c ∧ c ≤ '~' then none
    else some opened
  | short => if '0' ≤ c ∧ c ≤ '~' then none else some short
  | parameters => if '@' ≤ c ∧ c ≤ '~' then none else some parameters
  | preamble => if c = ':' ∨ ('@' ≤ c ∧ c ≤ '~') then some message else some preamble
  | message => some message
  | title => if c = '\x07' then none else some title

/-- Whether a text for the terminal is being read. -/
def isVerbatim (s : ControlSequence) : Bool := s = preamble ∨ s = message ∨ s = title

end ControlSequence

/-- The control characters that move to another place in a text. -/
def isLayoutControl (c : Char) : Bool := ['\t', '\n', '\x0c', '\r'].contains c

/-- Whether a character is shown outside of control sequences. -/
def isPrintable (c : Char) : Bool := isLayoutControl c || (' ' ≤ c && c != '\x7f')

/-- What a text shows when control sequences and other control characters are taken out of it. A character
beyond ASCII breaks off a sequence, and of its encoding only the bytes after the first are left, each of
which shows as a replacement character. -/
def printableFrom : Option ControlSequence → List Char → List Char
  | _, [] => []
  | reading, c :: cs =>
    if c = '\x1b' then printableFrom (some .opened) cs
    else
      match reading with
      | none => if isPrintable c then c :: printableFrom none cs else printableFrom none cs
      | some s =>
        if c = '\x18' ∨ c = '\x1a' then printableFrom none cs
        else if 0x80 ≤ c.toNat then
          List.replicate (c.utf8Size - 1) '\uFFFD' ++ printableFrom none cs
        else if !s.isVerbatim && isLayoutControl c then c :: printableFrom none cs
        else printableFrom (s.next? c) cs

def printable (cs : List Char) : List Char := printableFrom none cs

/-- Where the characters that go to a stream have led. -/
inductive Passage where
  | text
  | within (s : ControlSequence)
  /-- A layout control has broken off a sequence. -/
  | interrupted (s : ControlSequence)
  deriving DecidableEq, Repr

/-- The byte that ends a text for the terminal. -/
def isTerminator (b : UInt8) : Bool := b == 0x9c

/-- What comes after one more character of a sequence. One beyond ASCII is a part of the sequence. -/
def Passage.after (s : ControlSequence) (c : Char) : Passage :=
  if 0x80 ≤ c.toNat then
    if s = .message && c.toString.toUTF8.toList.any isTerminator then .text else .within s
  else
    match s.next? c with
    | some s => .within s
    | none => .text

/-- What a stream shows of a text, which it gets as bytes. A sequence that was broken off goes on at the
next other control character unless a character beyond ASCII comes before it. -/
def shownFrom : Passage → List Char → List Char
  | _, [] => []
  | passage, c :: cs =>
    if c = '\x1b' then shownFrom (.within .opened) cs
    else if c = '\x18' ∨ c = '\x1a' then shownFrom .text cs
    else
      match passage with
      | .text => if isPrintable c then c :: shownFrom .text cs else shownFrom .text cs
      | .within s =>
        if !s.isVerbatim && isLayoutControl c then c :: shownFrom (.interrupted s) cs
        else shownFrom (.after s c) cs
      | .interrupted s =>
        if 0x80 ≤ c.toNat then c :: shownFrom .text cs
        else if isPrintable c then c :: shownFrom (.interrupted s) cs
        else shownFrom (.after s c) cs

def shown (cs : List Char) : List Char := shownFrom .text cs

theorem ne_escape_of_isPrintable {c : Char} (h : isPrintable c = true) :
    c ≠ '\x1b' ∧ c ≠ '\x18' ∧ c ≠ '\x1a' := by
  refine ⟨?_, ?_, ?_⟩ <;> rintro rfl <;> exact absurd h (by decide)

/-- A text that shows as it is written is left as it is. -/
theorem printable_eq_self {cs : List Char} (h : ∀ c ∈ cs, isPrintable c = true) :
    printable cs = cs := by
  unfold printable
  induction cs with
  | nil => rfl
  | cons c cs ih =>
    have hc := ne_escape_of_isPrintable (h c (List.mem_cons_self ..))
    simp [printableFrom, hc.1, h c (List.mem_cons_self ..),
      ih fun d hd => h d (List.mem_cons_of_mem _ hd)]

theorem shown_eq_self {cs : List Char} (h : ∀ c ∈ cs, isPrintable c = true) : shown cs = cs := by
  unfold shown
  induction cs with
  | nil => rfl
  | cons c cs ih =>
    have hc := ne_escape_of_isPrintable (h c (List.mem_cons_self ..))
    simp [shownFrom, hc, h c (List.mem_cons_self ..), ih fun d hd => h d (List.mem_cons_of_mem _ hd)]

end EnvModules.Text
