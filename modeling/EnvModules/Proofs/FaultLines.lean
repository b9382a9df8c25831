import EnvModules.Pin
import EnvModules.Proofs.Grammar

/-!
The lines that faults are with. Main statement: a fault is with a line of the text that is neither blank nor a
comment, and if all that a descriptor lacks is the end of some choices, it is with the line that opens the
innermost of them.
-/

namespace EnvModules

open Text

theorem map_eq_error_iff {α β ε : Type} {f : α → β} {x : Except ε α} {e : ε} :
    x.map f = .error e ↔ x = .error e := by
  cases x with
  | error e' => exact ⟨fun h => congrArg Except.error (Except.error.inj h), fun h => h ▸ rfl⟩
  | ok a => exact ⟨nofun, nofun⟩

theorem exists_of_bind_eq_ok {α β ε : Type} {x : Except ε α} {f : α → Except ε β} {b : β}
    (h : (x >>= f) = .ok b) : ∃ a, x = .ok a ∧ f a = .ok b := by
  cases x with
  | error e => contradiction
  | ok a => exact ⟨a, rfl, h⟩

theorem eq_error_of_bind {α β ε : Type} {x : Except ε α} {f : α → Except ε β} {e : ε}
    (h : (x >>= f) = .error e) : x = .error e ∨ ∃ a, x = .ok a ∧ f a = .error e := by
  cases x with
  | error e' => exact .inl (congrArg Except.error (Except.error.inj h))
  | ok a => exact .inr ⟨a, rfl, h⟩

/-- The fault that a reading ends with. -/
def fault? {α ε : Type} : Except ε α → Option ε
  | .error e => some e
  | .ok _ => none

theorem fault?_eq_some_iff {α ε : Type} {x : Except ε α} {e : ε} : fault? x = some e ↔ x = .error e := by
  cases x with
  | error e' => exact ⟨fun h => congrArg Except.error (Option.some.inj h), fun h => h ▸ rfl⟩
  | ok a => exact ⟨nofun, nofun⟩

theorem fault?_eq_none_iff {α ε : Type} {x : Except ε α} : fault? x = none ↔ ∃ a, x = .ok a := by
  cases x with
  | error e => exact ⟨nofun, nofun⟩
  | ok a => exact ⟨fun _ => ⟨a, rfl⟩, fun _ => rfl⟩

/-! ### Numbered lines -/

namespace Line

theorem isSome_statement?_iff {cs : List Char} :
    (statement? cs).isSome = true ↔ trim cs ≠ [] ∧ (trim cs).head? ≠ some '#' := by
  unfold statement?
  split
  · next h => simp [h]
  · next h => simp [h]
  · next c rest hc h => simpa [h] using hc

/-- Whether a number is that of a line with a statement, if lines are numbered on from another number. -/
def Numbers (first : Nat) (texts : List (List Char)) (n : Nat) : Prop :=
  ∃ i cs, texts[i]? = some cs ∧ (statement? cs).isSome = true ∧ n = first + i

variable {first n : Nat} {texts : List (List Char)} {cs : List Char}

theorem Numbers.cons (h : Numbers (first + 1) texts n) (cs : List Char) : Numbers first (cs :: texts) n := by
  obtain ⟨i, ds, hi, hs, rfl⟩ := h
  exact ⟨i + 1, ds, hi, hs, by omega⟩

theorem numbers_head (h : (statement? cs).isSome = true) : Numbers first (cs :: texts) first :=
  ⟨0, cs, rfl, h, rfl⟩

/-- A line without a statement is passed over, and any other one is cut into words, whatever comes after it. -/
theorem ofTexts_cons_cases (first : Nat) (cs : List Char) :
    (∀ rest, ofTexts first (cs :: rest) = ofTexts (first + 1) rest) ∨
      (statement? cs).isSome = true ∧
        ((∀ rest, ofTexts first (cs :: rest) = .error (.line first .unterminatedQuote)) ∨
          ∃ line : Line, line.number = first ∧
            ∀ rest, ofTexts first (cs :: rest) = (ofTexts (first + 1) rest).map (line :: ·)) := by
  cases hs : statement? cs with
  | none => exact .inl fun rest => by simp [ofTexts, hs]
  | some ds =>
    rcases hw : Text.words ds with _ | _ | ⟨w, ws⟩
    · exact .inr ⟨rfl, .inl fun rest => by simp [ofTexts, hs, hw]⟩
    · exact .inl fun rest => by simp [ofTexts, hs, hw]
    · refine .inr ⟨rfl, .inr ⟨⟨first, String.ofList w, ws.map String.ofList⟩, rfl, fun rest => ?_⟩⟩
      simp only [ofTexts, hs, hw]
      cases ofTexts (first + 1) rest <;> rfl

theorem numbers_of_mem_ofTexts {lines : List Line} (h : ofTexts first texts = .ok lines) :
    ∀ line ∈ lines, Numbers first texts line.number := by
  induction texts generalizing first lines with
  | nil =>
    obtain rfl := Except.ok.inj h
    exact List.forall_mem_nil _
  | cons cs rest ih =>
    rcases ofTexts_cons_cases first cs with hc | ⟨hs, hc | ⟨line, hn, hc⟩⟩
    · exact fun line hm => (ih (hc rest ▸ h) line hm).cons cs
    · rw [hc] at h
      contradiction
    · rw [hc] at h
      obtain ⟨lines, hr, rfl⟩ := exists_of_map_eq_ok h
      exact List.forall_mem_cons.2 ⟨hn ▸ numbers_head hs, fun line hm => (ih hr line hm).cons cs⟩

theorem numbers_of_ofTexts_error {fault : TextFault} (h : ofTexts first texts = .error fault) :
    ∃ n, Numbers first texts n ∧ fault = .line n .unterminatedQuote := by
  induction texts generalizing first with
  | nil => contradiction
  | cons cs rest ih =>
    have hrest (hr : ofTexts (first + 1) rest = .error fault) :
        ∃ n, Numbers first (cs :: rest) n ∧ fault = .line n .unterminatedQuote := by
      obtain ⟨n, hn, hf⟩ := ih hr
      exact ⟨n, hn.cons cs, hf⟩
    rcases ofTexts_cons_cases first cs with hc | ⟨hs, hc | ⟨line, hn, hc⟩⟩
    · exact hrest (hc rest ▸ h)
    · rw [hc] at h
      exact ⟨first, numbers_head hs, (Except.error.inj h).symm⟩
    · rw [hc] at h
      exact hrest (map_eq_error_iff.1 h)

/-- Lines that come after others are numbered on. -/
theorem ofTexts_append {more : List (List Char)} {lines : List Line}
    (h : ofTexts first (texts ++ more) = .ok lines) :
    ∃ ls ls', ofTexts first texts = .ok ls ∧ ofTexts (first + texts.length) more = .ok ls' ∧ lines = ls ++ ls' := by
  induction texts generalizing first lines with
  | nil => exact ⟨[], lines, rfl, h, rfl⟩
  | cons cs rest ih =>
    have hlen : first + (cs :: rest).length = first + 1 + rest.length := by
      rw [List.length_cons]
      omega
    rw [List.cons_append] at h
    rw [hlen]
    rcases ofTexts_cons_cases first cs with hc | ⟨-, hc | ⟨line, -, hc⟩⟩
    · rw [hc] at h ⊢
      exact ih h
    · rw [hc] at h
      contradiction
    · rw [hc] at h ⊢
      obtain ⟨lines, hr, rfl⟩ := exists_of_map_eq_ok h
      obtain ⟨ls, ls', hl, hl', rfl⟩ := ih hr
      exact ⟨line :: ls, ls', by rw [hl]; rfl, hl', rfl⟩

theorem statement?_congr {ds : List Char} (h : trim cs = trim ds) : statement? cs = statement? ds := by
  rw [statement?, statement?, h]

/-- Blanks around lines do not count. -/
theorem ofTexts_congr {texts' : List (List Char)} (h : texts.map trim = texts'.map trim) :
    ofTexts first texts = ofTexts first texts' := by
  induction texts generalizing first texts' with
  | nil =>
    obtain rfl := List.map_eq_nil_iff.1 h.symm
    rfl
  | cons cs rest ih =>
    cases texts' with
    | nil => contradiction
    | cons cs' rest' =>
      obtain ⟨hcs, hrest⟩ := List.cons.inj h
      rw [ofTexts, ofTexts, statement?_congr hcs, ih hrest]

end Line

/-! ### Faults while reading -/

theorem Condition.ofWords_ne_unmatched (words : List String) (k : String) :
    ofWords words ≠ .error (.unmatched k) := by
  fun_induction ofWords words with
  | case2 head rest keyword hk ih => rwa [Ne, map_eq_error_iff]
  | _ => simp

theorem Statement.ofWords_ne_unmatched (keyword : String) (words : List String) (k : String) :
    ofWords keyword words ≠ .error (.unmatched k) := by
  fun_cases ofWords keyword words
  all_goals simp

theorem Clause.ofLine_ne_unmatched (line : Line) (k : String) : ofLine line ≠ .error (.unmatched k) := by
  fun_cases ofLine line
  all_goals simp [map_eq_error_iff, Condition.ofWords_ne_unmatched, Statement.ofWords_ne_unmatched]

namespace Progress

/-- Whether all lines that a later fault can be with have a property. -/
def Keeps (q : Nat → Prop) (p : Progress) : Prop :=
  ∀ choice ∈ p.stack, q choice.line ∧ ∀ m, choice.part = .otherwise m → q m

/-- Whether a fault is with a line that has a property. A word without its choice is one that belongs to choices. -/
def Blames (q : Nat → Prop) (f : TextFault) : Prop :=
  ∃ n fault, f = .line n fault ∧ q n ∧
    ∀ keyword, fault = .unmatched keyword → Clause.continuesChoice keyword.toLower = true

variable {q : Nat → Prop} {p p' : Progress} {line : Line} {n : Nat} {clause : Clause} {f : TextFault}

theorem nextPart_cases (p : Progress) (n : Nat) (part : Part) :
    (p.stack = [] ∧ ∃ f, take.nextPart p n part = .error f) ∨
      ∃ choice outer, p.stack = choice :: outer ∧
        ((∃ test, choice.part = .branch test ∧ take.nextPart p n part = .ok ⟨[],
            { choice with branches := (test, p.current.reverse) :: choice.branches, part := part } :: outer⟩) ∨
          ∃ m, choice.part = .otherwise m ∧ take.nextPart p n part = .error (.line m .elseNotLast)) := by
  obtain ⟨current, _ | ⟨⟨m, before, branches, test | m'⟩, outer⟩⟩ := p
  · exact .inl ⟨rfl, _, rfl⟩
  · exact .inr ⟨_, outer, rfl, .inl ⟨test, rfl, rfl⟩⟩
  · exact .inr ⟨_, outer, rfl, .inr ⟨m', rfl, rfl⟩⟩

theorem nextPart_keeps {part : Part} (hp : p.Keeps q) (hq : ∀ m, part = .otherwise m → q m)
    (h : take.nextPart p n part = .ok p') : p'.Keeps q := by
  rcases nextPart_cases p n part with ⟨-, f, hc⟩ | ⟨choice, outer, hs, ⟨test, -, hc⟩ | ⟨m, -, hc⟩⟩
  · rw [hc] at h
    contradiction
  · rw [hc] at h
    obtain rfl := Except.ok.inj h
    rw [Keeps, hs, List.forall_mem_cons] at hp
    exact List.forall_mem_cons.2 ⟨⟨hp.1.1, hq⟩, hp.2⟩
  · rw [hc] at h
    contradiction

theorem blames_of_nextPart {part : Part} (hp : p.Keeps q) (hn : p.stack ≠ [])
    (h : take.nextPart p n part = .error f) : Blames q f := by
  rcases nextPart_cases p n part with ⟨he, -⟩ | ⟨choice, outer, hs, ⟨test, -, hc⟩ | ⟨m, hm, hc⟩⟩
  · exact absurd he hn
  · rw [hc] at h
    contradiction
  · rw [hc] at h
    obtain rfl := Except.error.inj h
    rw [Keeps, hs, List.forall_mem_cons] at hp
    exact ⟨m, _, rfl, hp.1.2 m hm, by simp⟩

theorem take_keeps (hp : p.Keeps q) (hn : q n) (h : p.take n clause = .ok p') : p'.Keeps q := by
  cases clause with
  | statement st =>
    obtain rfl := Except.ok.inj h
    exact hp
  | opening test =>
    obtain rfl := Except.ok.inj h
    exact List.forall_mem_cons.2 ⟨⟨hn, by simp⟩, hp⟩
  | alternative test => exact nextPart_keeps hp (by simp) h
  | otherwise => exact nextPart_keeps hp (fun m hm => Part.otherwise.inj hm ▸ hn) h
  | closing =>
    obtain ⟨current, _ | ⟨choice, outer⟩⟩ := p
    · contradiction
    · obtain rfl := Except.ok.inj h
      exact (List.forall_mem_cons.1 hp).2

/-- The faults of a clause that continues a choice where none is open are never found. They would be with no line,
or would name no word of one. -/
theorem blames_of_take (hp : p.Keeps q) (hn : p.stack = [] → clause.continues = false)
    (h : p.take n clause = .error f) : Blames q f := by
  have stack_ne_nil (hc : clause.continues = true) : p.stack ≠ [] := by
    intro he
    rw [hn he] at hc
    contradiction
  cases clause with
  | statement st => contradiction
  | opening test => contradiction
  | alternative test => exact blames_of_nextPart hp (stack_ne_nil rfl) h
  | otherwise => exact blames_of_nextPart hp (stack_ne_nil rfl) h
  | closing =>
    obtain ⟨current, _ | ⟨choice, outer⟩⟩ := p
    · exact absurd rfl (stack_ne_nil rfl)
    · contradiction

theorem step_keeps (hp : p.Keeps q) (hn : q line.number) (h : p.step line = .ok p') : p'.Keeps q := by
  obtain ⟨clause, -, -, ht⟩ := step_eq_ok_iff.1 h
  exact take_keeps hp hn ht

theorem blames_of_step (hp : p.Keeps q) (hn : q line.number) (h : p.step line = .error f) : Blames q f := by
  unfold step at h
  split at h
  · next hc =>
    obtain rfl := Except.error.inj h
    have hkeyword := (Bool.and_eq_true_iff.1 hc).2
    exact ⟨_, _, rfl, hn, fun keyword hk => LineFault.unmatched.inj hk ▸ hkeyword⟩
  · next hc =>
    split at h
    · next clause hl =>
      -- A line that continues a choice has been refused above, unless there is a choice around it.
      have hs := Clause.ofLine_eq_ok_iff.1 hl
      refine blames_of_take hp (fun hn => ?_) h
      simpa [hn, hs.continuesChoice_eq] using hc
    · next fault hl =>
      obtain rfl := Except.error.inj h
      exact ⟨_, _, rfl, hn, fun keyword hk => absurd (hk ▸ hl) (Clause.ofLine_ne_unmatched line keyword)⟩

/-- Reading on is at fault with one of the lines that are read, or with one that was kept. -/
theorem Keeps.blames_of_read {lines : List Line} (hp : p.Keeps q) (hl : ∀ line ∈ lines, q line.number)
    (h : (lines.foldlM step p >>= finish) = .error f) : Blames q f := by
  -- Of the lines that were read before, only those of open choices can be blamed, and each step keeps them in `q`.
  induction lines generalizing p with
  | nil =>
    have h : p.finish = .error f := h
    obtain ⟨current, _ | ⟨choice, outer⟩⟩ := p
    · contradiction
    · obtain rfl := Except.error.inj h
      exact ⟨_, _, rfl, (hp choice List.mem_cons_self).1, by simp⟩
  | cons line rest ih =>
    obtain ⟨hn, hl⟩ := List.forall_mem_cons.1 hl
    rw [List.foldlM_cons, bind_assoc] at h
    rcases eq_error_of_bind h with hs | ⟨next, hs, h⟩
    · exact blames_of_step hp hn hs
    · exact ih (step_keeps hp hn hs) hl h

end Progress

namespace Pin

theorem exists_of_ofLines {q : Nat → Prop} {bound : Option String} {lines : List Line} {f : TextFault}
    (hl : ∀ line ∈ lines, q line.number) (h : ofLines bound lines = .error f) :
    ∃ n fault, f = .line n fault ∧ q n := by
  induction lines generalizing bound with
  | nil => contradiction
  | cons line rest ih =>
    obtain ⟨hn, hl⟩ := List.forall_mem_cons.1 hl
    unfold ofLines at h
    split at h
    · exact ih hl h
    · exact ⟨_, _, (Except.error.inj h).symm, hn⟩

end Pin

/-! ### Choices that are left open -/

namespace Line

/-- The lines of the choices that are open after one more line, the innermost first. -/
def nest (opened : List Nat) (line : Line) : List Nat :=
  let keyword := line.head.toLower
  if keyword = "if" then line.number :: opened
  else if keyword = "end" ∨ keyword = "endif" then opened.tail
  else opened

/-- The lines of the choices that lines leave open, the innermost first. -/
def openings (lines : List Line) : List Nat := lines.foldl nest []

end Line

namespace Clause

/-- The lines of the choices that are open after a clause with some line. -/
def nest (n : Nat) (opened : List Nat) : Clause → List Nat
  | .opening _ => n :: opened
  | .closing => opened.tail
  | .statement _ | .alternative _ | .otherwise => opened

theorem Spelled.nest_eq {k : String} {words : List String} {clause : Clause} (h : clause.Spelled (k :: words))
    (n : Nat) (opened : List Nat) : Line.nest opened ⟨n, k, words⟩ = clause.nest n opened := by
  cases h with
  | statement hs =>
    have hne := hs.keyword_ne
    simp only [List.mem_cons, List.not_mem_nil, or_false, not_or] at hne
    simp [Line.nest, nest, hne]
  | opening hk | alternative hk | otherwise hk => simp [Line.nest, nest, hk]
  | closing _ hk => rcases hk with hk | hk <;> simp [Line.nest, nest, hk]

end Clause

namespace Progress

variable {p p' : Progress} {line : Line} {lines : List Line} {n : Nat} {clause : Clause}

/-- The lines of the choices that are open, the innermost first. -/
def openings (p : Progress) : List Nat := p.stack.map OpenChoice.line

theorem openings_of_nextPart {part : Part} (h : take.nextPart p n part = .ok p') : p'.openings = p.openings := by
  rcases nextPart_cases p n part with ⟨-, f, hc⟩ | ⟨choice, outer, hs, ⟨test, -, hc⟩ | ⟨m, -, hc⟩⟩
  · rw [hc] at h
    contradiction
  · rw [hc] at h
    obtain rfl := Except.ok.inj h
    simp [openings, hs]
  · rw [hc] at h
    contradiction

theorem openings_of_take (h : p.take n clause = .ok p') : p'.openings = clause.nest n p.openings := by
  cases clause with
  | statement st =>
    obtain rfl := Except.ok.inj h
    rfl
  | opening test =>
    obtain rfl := Except.ok.inj h
    rfl
  | alternative test => exact openings_of_nextPart h
  | otherwise => exact openings_of_nextPart h
  | closing =>
    obtain ⟨current, _ | ⟨choice, outer⟩⟩ := p
    · contradiction
    · obtain rfl := Except.ok.inj h
      rfl

theorem openings_of_step (h : p.step line = .ok p') : p'.openings = Line.nest p.openings line := by
  obtain ⟨clause, hs, -, ht⟩ := step_eq_ok_iff.1 h
  exact (openings_of_take ht).trans (hs.nest_eq line.number p.openings).symm

/-- Which choices are open can be told by the first words of the lines. -/
theorem openings_of_steps (h : lines.foldlM step p = .ok p') :
    p'.openings = lines.foldl Line.nest p.openings := by
  induction lines generalizing p with
  | nil =>
    obtain rfl := Except.ok.inj h
    rfl
  | cons line rest ih =>
    rw [List.foldlM_cons] at h
    obtain ⟨next, hs, h⟩ := exists_of_bind_eq_ok h
    rw [ih h, openings_of_step hs, List.foldl_cons]

/-- A line that closes a choice needs one. -/
theorem length_openings_of_step (hk : line.head.toLower = "end") (h : p.step line = .ok p') :
    p.openings.length = p'.openings.length + 1 := by
  rw [openings_of_step h]
  obtain ⟨current, _ | ⟨choice, outer⟩⟩ := p
  · -- Without an open choice the line would be at fault.
    simp [step, hk, Clause.continuesChoice] at h
  · simp [openings, Line.nest, hk]

theorem length_openings_of_steps (hk : ∀ line ∈ lines, line.head.toLower = "end")
    (h : lines.foldlM step p = .ok p') : p.openings.length = p'.openings.length + lines.length := by
  induction lines generalizing p with
  | nil =>
    obtain rfl := Except.ok.inj h
    rfl
  | cons line rest ih =>
    obtain ⟨hline, hk⟩ := List.forall_mem_cons.1 hk
    rw [List.foldlM_cons] at h
    obtain ⟨next, hs, h⟩ := exists_of_bind_eq_ok h
    rw [length_openings_of_step hline hs, ih hk h, List.length_cons]
    omega

theorem finish_eq (p : Progress) :
    p.finish = match p.openings with
      | [] => .ok p.current.reverse
      | n :: _ => .error (.line n .neverClosed) := by
  obtain ⟨current, _ | ⟨choice, outer⟩⟩ := p <;> rfl

end Progress

namespace Descriptor

/-- A text with lines `end` after it. A last line without a line feed gets one. -/
def withEnds (source : String) (k : Nat) : String :=
  (if source.toList.getLast? = some '\n' then source else source ++ "\n") ++
    String.join (List.replicate k "end\n")

theorem lines_join_ends (k : Nat) :
    Text.lines (String.join (List.replicate k "end\n")).toList = List.replicate k "end".toList := by
  rw [String.toList_join]
  induction k with
  | zero => rfl
  | succ k ih =>
    have he : (List.replicate (k + 1) "end\n").flatMap String.toList =
        "end".toList ++ '\n' :: (List.replicate k "end\n").flatMap String.toList := rfl
    rw [he, lines_append (by decide) (by decide), ih, List.replicate_succ]

theorem exists_ofTexts_ends (first k : Nat) :
    ∃ ls, Line.ofTexts first (List.replicate k "end".toList) = .ok ls ∧ ls.length = k ∧
      ∀ line ∈ ls, line.head.toLower = "end" := by
  induction k generalizing first with
  | zero => exact ⟨[], rfl, rfl, List.forall_mem_nil _⟩
  | succ k ih =>
    obtain ⟨ls, hl, hlen, hends⟩ := ih (first + 1)
    have hs : Line.statement? "end".toList = some "end".toList := by decide
    have hw : Text.words "end".toList = some ["end".toList] := by decide
    have hk : "end".toLower = "end" := by decide +kernel
    refine ⟨⟨first, "end", []⟩ :: ls, ?_, by rw [List.length_cons, hlen], List.forall_mem_cons.2 ⟨hk, hends⟩⟩
    simp only [List.replicate_succ, Line.ofTexts, hs, hw, hl]
    rfl

theorem map_trim_drop_lines {cs ds : List Char} {more : List (List Char)} (hn : cs ≠ [])
    (h : (Text.lines ds).map trim = (Text.lines cs).map trim ++ more.map trim) :
    ((Text.lines ds).drop 1).map trim = ((Text.lines cs).drop 1 ++ more).map trim := by
  obtain ⟨l, ls, hl⟩ := List.exists_cons_of_ne_nil (mt lines_eq_nil_iff.1 hn)
  rw [List.map_drop, h, hl]
  simp

/-- A text with lines `end` after it is cut into the lines of the text and these lines. -/
theorem exists_of_ofText_withEnds {source : String} {k : Nat} {lines : List Line}
    (hs : sentinel.toList <+: source.toList) (h : Line.ofText (withEnds source k) = .ok lines) :
    ∃ ls ls', Line.ofText source = .ok ls ∧ lines = ls ++ ls' ∧ ls'.length = k ∧
      ∀ line ∈ ls', line.head.toLower = "end" := by
  have hlist : (withEnds source k).toList =
      (if source.toList.getLast? = some '\n' then source.toList else source.toList ++ ['\n']) ++
        (String.join (List.replicate k "end\n")).toList := by
    rw [withEnds, String.toList_append]
    split_ifs
    · rfl
    · rw [String.toList_append]
      rfl
  have hprefix : sentinel.toList <+: (withEnds source k).toList := by
    rw [hlist]
    split_ifs
    · exact hs.trans (List.prefix_append _ _)
    · exact hs.trans ((List.prefix_append _ _).trans (List.prefix_append _ _))
  have hn : source.toList ≠ [] := fun hn => by simp [hn, sentinel] at hs
  -- A line feed that is put after the last line can take a carriage return from it, which is trimmed all the same.
  have htexts := map_trim_lines_append hn (String.join (List.replicate k "end\n")).toList
  rw [← hlist, lines_join_ends] at htexts
  rw [Line.ofText, if_pos (List.isPrefixOf_iff_prefix.2 hprefix),
    Line.ofTexts_congr (map_trim_drop_lines hn htexts)] at h
  obtain ⟨ls, ls', hls, hls', rfl⟩ := Line.ofTexts_append h
  obtain ⟨lsEnds, hends, hlen, hall⟩ := exists_ofTexts_ends (2 + ((Text.lines source.toList).drop 1).length) k
  obtain rfl := Except.ok.inj (hls'.symm.trans hends)
  refine ⟨ls, ls', ?_, rfl, hlen, hall⟩
  rw [Line.ofText, if_pos (List.isPrefixOf_iff_prefix.2 hs), hls]

/-! ### Faults of texts -/

/-- Whether a number is that of a line after the first that is neither blank nor a comment. -/
def HasStatement (source : String) (n : Nat) : Prop :=
  2 ≤ n ∧ n ≤ (Text.lines source.toList).length ∧
    ∃ cs, (Text.lines source.toList)[n - 1]? = some cs ∧ trim cs ≠ [] ∧ (trim cs).head? ≠ some '#'

theorem hasStatement_of_numbers {source : String} {n : Nat}
    (h : Line.Numbers 2 ((Text.lines source.toList).drop 1) n) : HasStatement source n := by
  obtain ⟨i, cs, hi, hcs, rfl⟩ := h
  rw [List.getElem?_drop] at hi
  obtain ⟨hlen, -⟩ := List.getElem?_eq_some_iff.1 hi
  have hn : 2 + i - 1 = 1 + i := by omega
  exact ⟨by omega, by omega, cs, hn ▸ hi, Line.isSome_statement?_iff.1 hcs⟩

theorem ofText_of_sentinel {source : String} (hs : sentinel.toList <+: source.toList) :
    Line.ofText source = Line.ofTexts 2 ((Text.lines source.toList).drop 1) :=
  if_pos (List.isPrefixOf_iff_prefix.2 hs)

theorem blames_of_read {source : String} {f : TextFault} (hs : sentinel.toList <+: source.toList)
    (h : read source = .error f) : Progress.Blames (HasStatement source) f := by
  rw [read, ofText_of_sentinel hs] at h
  rcases eq_error_of_bind h with hl | ⟨lines, hl, h⟩
  · obtain ⟨n, hn, rfl⟩ := Line.numbers_of_ofTexts_error hl
    exact ⟨n, _, rfl, hasStatement_of_numbers hn, by simp⟩
  · have hlines : ∀ line ∈ lines, HasStatement source line.number := fun line hm =>
      hasStatement_of_numbers (Line.numbers_of_mem_ofTexts hl line hm)
    have hinitial : Progress.initial.Keeps (HasStatement source) := List.forall_mem_nil _
    exact hinitial.blames_of_read hlines h

theorem exists_of_read_pin {source : String} {f : TextFault} (hs : sentinel.toList <+: source.toList)
    (h : Pin.read source = .error f) : ∃ n fault, f = .line n fault ∧ HasStatement source n := by
  rw [Pin.read, ofText_of_sentinel hs] at h
  rcases eq_error_of_bind h with hl | ⟨lines, hl, h⟩
  · obtain ⟨n, hn, rfl⟩ := Line.numbers_of_ofTexts_error hl
    exact ⟨n, _, rfl, hasStatement_of_numbers hn⟩
  · have hlines : ∀ line ∈ lines, HasStatement source line.number := fun line hm =>
      hasStatement_of_numbers (Line.numbers_of_mem_ofTexts hl line hm)
    exact Pin.exists_of_ofLines hlines h

/-- What lines `end` make up for is that choices are left open, as many as there are such lines. -/
theorem openings_of_read_withEnds {source : String} {f : TextFault} {k : Nat} {t : List Statement}
    (hs : sentinel.toList <+: source.toList) (hf : read source = .error f)
    (ht : read (withEnds source k) = .ok t) :
    ∃ lines n outer, Line.ofText source = .ok lines ∧ Line.openings lines = n :: outer ∧
      k = outer.length + 1 ∧ f = .line n .neverClosed := by
  obtain ⟨lines, hl, ht⟩ := exists_of_bind_eq_ok ht
  obtain ⟨ls, ls', hls, rfl, hlen, hends⟩ := exists_of_ofText_withEnds hs hl
  -- All lines of the text can be read, so that the fault is found at its end.
  obtain ⟨p', hsteps, ht⟩ := exists_of_bind_eq_ok ht
  rw [List.foldlM_append] at hsteps
  obtain ⟨p, hp, hp'⟩ := exists_of_bind_eq_ok hsteps
  have hf : p.finish = .error f := by
    rw [read, hls] at hf
    have hf : (ls.foldlM Progress.step .initial >>= Progress.finish) = .error f := hf
    rwa [hp] at hf
  have hopenings : p.openings = Line.openings ls := Progress.openings_of_steps hp
  have hlength := Progress.length_openings_of_steps hends hp'
  rw [Progress.finish_eq] at hf ht
  split at ht
  · next hclosed =>
    split at hf
    · contradiction
    · next n outer hopen =>
      refine ⟨ls, n, outer, hls, hopenings ▸ hopen, ?_, (Except.error.inj hf).symm⟩
      simpa [hclosed, hopen, hlen] using hlength.symm
  · contradiction

/-- If a text begins with the sentinel, then a fault of it as a descriptor or as a version pin is with a line after
the first that is neither blank nor a comment, and a word is said to lack its choice only if it belongs to choices.
If lines `end` are all that a descriptor lacks, then as many as it has choices that are left open, and the fault is
with the line that opens the innermost of them. -/
theorem line_of_fault (source : String) (hs : sentinel.toList <+: source.toList) :
    (∀ f, read source = .error f ∨ Pin.read source = .error f →
      ∃ n fault, f = .line n fault ∧ HasStatement source n) ∧
    (∀ n keyword, read source = .error (.line n (.unmatched keyword)) →
      keyword.toLower ∈ ["elif", "else", "end", "endif"]) ∧
    ∀ f k t, read source = .error f → read (withEnds source k) = .ok t →
      ∃ lines n outer, Line.ofText source = .ok lines ∧ Line.openings lines = n :: outer ∧
        k = outer.length + 1 ∧ f = .line n .neverClosed := by
  refine ⟨?_, ?_, fun f k t => openings_of_read_withEnds hs⟩
  · rintro f (h | h)
    · obtain ⟨n, fault, rfl, hn, -⟩ := blames_of_read hs h
      exact ⟨n, fault, rfl, hn⟩
    · exact exists_of_read_pin hs h
  · intro n keyword h
    obtain ⟨n', fault, hf, -, hkeyword⟩ := blames_of_read hs h
    obtain ⟨rfl, rfl⟩ := TextFault.line.inj hf
    simpa [Clause.continuesChoice, or_assoc] using hkeyword keyword rfl

/-- Two choices are left open, of which the inner one has its last block. -/
theorem line_of_fault_of_two_open :
    let source := "#%EnvMaster1.0\nif defined A\n\n# none\n  If loaded b\nelse\nsetVar 1 V"
    let lone := "#%EnvMaster1.0\n\nELIF defined A\n"
    sentinel.toList <+: source.toList ∧ sentinel.toList <+: lone.toList ∧
      read source = .error (.line 5 .neverClosed) ∧ HasStatement source 5 ∧
      read lone = .error (.line 3 (.unmatched "ELIF")) ∧ "ELIF".toLower ∈ ["elif", "else", "end", "endif"] ∧
      (∃ t, read (withEnds source 2) = .ok t) ∧
      ∃ lines outer, Line.ofText source = .ok lines ∧ Line.openings lines = 5 :: outer ∧ 2 = outer.length + 1 := by
  intro source lone
  have hs : sentinel.toList <+: source.toList := by decide +kernel
  have hlone : sentinel.toList <+: lone.toList := by decide +kernel
  have hread : read source = .error (.line 5 .neverClosed) := fault?_eq_some_iff.1 (by decide +kernel)
  have hunmatched : read lone = .error (.line 3 (.unmatched "ELIF")) := fault?_eq_some_iff.1 (by decide +kernel)
  obtain ⟨t, ht⟩ := fault?_eq_none_iff.1 (show fault? (read (withEnds source 2)) = none by decide +kernel)
  obtain ⟨hline, -, hopen⟩ := line_of_fault source hs
  obtain ⟨-, hkeyword, -⟩ := line_of_fault lone hlone
  obtain ⟨n, fault, hf, hn⟩ := hline _ (.inl hread)
  obtain ⟨rfl, rfl⟩ := TextFault.line.inj hf
  obtain ⟨lines, n, outer, hl, ho, hk, hf⟩ := hopen _ 2 t hread ht
  obtain ⟨rfl, -⟩ := TextFault.line.inj hf
  exact ⟨hs, hlone, hread, hn, hunmatched, hkeyword 3 "ELIF" hunmatched, ⟨t, ht⟩, lines, outer, hl, ho, hk⟩

end Descriptor

end EnvModules
