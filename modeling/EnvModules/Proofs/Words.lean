import EnvModules.Descriptor.Reader
import EnvModules.Text.Quoted
import Mathlib.Data.List.DropRight
import Mathlib.Data.List.Forall2

/-!
Cutting a text into lines and a line into words. Neither the lines of a text nor the words of a line hold a line
feed, and a value in single quotes is read back as one word.
-/

namespace EnvModules.Text

variable {c : Char} {cs rest : List Char}

/-! ### Blanks at the ends -/

theorem exists_trimRight_append (cs : List Char) : ∃ tail, trimRight cs ++ tail = cs :=
  List.rdropWhile_prefix isBlank cs

theorem length_trimRight_le (cs : List Char) : (trimRight cs).length ≤ cs.length := by
  obtain ⟨tail, ht⟩ := exists_trimRight_append cs
  rw [← congrArg List.length ht, List.length_append]
  exact Nat.le_add_right _ _

theorem exists_blanks_append (cs : List Char) :
    ∃ blanks, trimRight cs ++ blanks = cs ∧ ∀ c ∈ blanks, isBlank c = true := by
  refine ⟨(cs.reverse.takeWhile isBlank).reverse, ?_, ?_⟩
  · rw [trimRight, dropRightWhile, ← List.reverse_append, List.takeWhile_append_dropWhile, List.reverse_reverse]
  · intro c hc
    exact List.mem_takeWhile_imp (List.mem_reverse.1 hc)

theorem trim_sublist (cs : List Char) : (trim cs).Sublist cs := by
  obtain ⟨tail, ht⟩ := exists_trimRight_append (trimLeft cs)
  have hl : (trim cs).Sublist (trimLeft cs) := ht ▸ List.sublist_append_left _ _
  exact hl.trans (List.dropWhile_sublist isBlank)

theorem isBlank_of_trim_eq_cons (h : trim cs = c :: rest) : isBlank c = false := by
  obtain ⟨tail, ht⟩ := exists_trimRight_append (trimLeft cs)
  have hd : cs.dropWhile isBlank = c :: (rest ++ tail) := by
    rw [← trimLeft, ← ht, ← trim, h, List.cons_append]
  simpa [hd] using List.head?_dropWhile_not isBlank cs

theorem isBlank_of_getLast?_trimRight (h : (trimRight cs).getLast? = some c) : isBlank c = false := by
  have hne : cs.rdropWhile isBlank ≠ [] := by
    intro he
    rw [trimRight, dropRightWhile, ← List.rdropWhile, he] at h
    contradiction
  have hl := List.rdropWhile_last_not isBlank _ hne
  obtain rfl : (cs.rdropWhile isBlank).getLast hne = c := List.getLast_of_mem_getLast? h
  simpa using hl

theorem trimRight_eq_self (h : ∀ c ∈ cs.getLast?, isBlank c = false) : trimRight cs = cs := by
  refine List.rdropWhile_eq_self_iff.2 fun hn => ?_
  simpa using h _ (List.getLast_mem_getLast? hn)

/-- Nothing is cut off when there is a blank at neither end. -/
theorem trim_eq_self (hh : ∀ c ∈ cs.head?, isBlank c = false) (hl : ∀ c ∈ cs.getLast?, isBlank c = false) :
    trim cs = cs := by
  have hd : trimLeft cs = cs := by
    cases cs with
    | nil => rfl
    | cons c rest => exact List.dropWhile_cons_of_neg (by simpa using hh c)
  rw [trim, hd]
  exact trimRight_eq_self hl

/-! ### Lines -/

theorem not_mem_of_mem_lines {l : List Char} (h : l ∈ lines cs) : '\n' ∉ l := by
  fun_induction lines cs generalizing l with
  | case1 => contradiction
  | case2 cs ih | case3 cs ih =>
    rcases List.mem_cons.1 h with rfl | h
    · exact List.not_mem_nil
    · exact ih h
  | case4 c cs _ hc hr ih =>
    obtain rfl := List.mem_singleton.1 h
    simpa using fun he => hc he.symm
  | case5 c cs _ hc l ls hr ih =>
    rw [hr] at ih
    rcases List.mem_cons.1 h with rfl | h
    · simpa using ⟨fun he => hc he.symm, ih List.mem_cons_self⟩
    · exact ih (List.mem_cons_of_mem _ h)

theorem lines_append {l : List Char} (hl : '\n' ∉ l) (hr : l.getLast? ≠ some '\r') (rest : List Char) :
    lines (l ++ '\n' :: rest) = l :: lines rest := by
  induction l with
  | nil => rfl
  | cons c l ih =>
    obtain ⟨hc, hl⟩ := not_or.1 (mt List.mem_cons.2 hl)
    have hr' : l.getLast? ≠ some '\r' := fun h => hr (by simp [List.getLast?_cons, h])
    -- A carriage return would end the line as well, but only right before the line feed.
    have hcr : ∀ tail, c = '\r' → l ++ '\n' :: rest ≠ '\n' :: tail := by
      rintro tail rfl ht
      cases l with
      | nil => exact hr rfl
      | cons d l => exact hl (by simp [(List.cons.inj ht).1])
    rw [List.cons_append, lines, ih hl hr']
    · exact hcr
    · exact fun h => hc h.symm

theorem lines_flatMap_append (ls : List (List Char)) (h : ∀ l ∈ ls, '\n' ∉ l ∧ l.getLast? ≠ some '\r') :
    lines (ls.flatMap (· ++ ['\n'])) = ls := by
  induction ls with
  | nil => rfl
  | cons l ls ih =>
    obtain ⟨⟨hl, hr⟩, hls⟩ := List.forall_mem_cons.1 h
    rw [List.flatMap_cons, List.append_assoc, List.singleton_append, lines_append hl hr, ih hls]

theorem lines_eq_nil_iff : lines cs = [] ↔ cs = [] := by
  constructor
  · intro h
    unfold lines at h
    split at h
    · rfl
    · contradiction
    · contradiction
    · split at h <;> contradiction
  · rintro rfl
    rfl

/-- What comes after a line feed is cut into lines by itself. -/
theorem lines_append_of_getLast? (h : cs = [] ∨ cs.getLast? = some '\n') (rest : List Char) :
    lines (cs ++ rest) = lines cs ++ lines rest := by
  fun_induction lines cs with
  | case1 => rfl
  -- A line ends here, and what comes after it is one of the two again.
  | case2 cs ih | case3 cs ih =>
    have hcs : cs = [] ∨ cs.getLast? = some '\n' := by
      cases cs <;> simp_all
    simp [lines, ih hcs]
  -- The last line would end without a line feed.
  | case4 c cs _ hc hl ih =>
    obtain rfl := lines_eq_nil_iff.1 hl
    have h := h.resolve_left (List.cons_ne_nil _ _)
    simp_all
  | case5 c cs hr hc l ls hl ih =>
    have hn : cs ≠ [] := fun hn => by simp [hn, lines] at hl
    obtain ⟨d, ds, rfl⟩ := List.exists_cons_of_ne_nil hn
    have hds : (d :: ds).getLast? = some '\n' := by simpa using h
    rw [List.cons_append, lines, ih (.inr hds), hl]
    · rfl
    · exact fun tail he ht => hr ds he (by simpa using (List.cons.inj ht).1)
    · exact hc

/-- A line feed at the end ends the last line, and takes a carriage return before it along. -/
theorem lines_concat (hn : cs ≠ []) (h : cs.getLast? ≠ some '\n') :
    List.Forall₂ (fun l l' => l' = l ∨ l' = l ++ ['\r']) (lines (cs ++ ['\n'])) (lines cs) := by
  fun_induction lines cs with
  | case1 => contradiction
  | case2 cs ih | case3 cs ih =>
    have hcs : cs ≠ [] ∧ cs.getLast? ≠ some '\n' := by
      cases cs <;> simp_all
    simpa [lines] using ih hcs.1 hcs.2
  | case4 c cs hr hc hl ih =>
    obtain rfl := lines_eq_nil_iff.1 hl
    by_cases hcr : c = '\r'
    · subst hcr
      exact .cons (.inr rfl) .nil
    · rw [List.singleton_append, lines]
      · exact .cons (.inl rfl) .nil
      · exact fun _ he => absurd he hcr
      · exact hc
  | case5 c cs hr hc l ls hl ih =>
    have hn : cs ≠ [] := fun hn => by simp [hn, lines] at hl
    obtain ⟨d, ds, rfl⟩ := List.exists_cons_of_ne_nil hn
    have hds : (d :: ds).getLast? ≠ some '\n' := by simpa using h
    have ih := ih hn hds
    rw [hl] at ih
    rw [List.cons_append, lines]
    · generalize lines (d :: ds ++ ['\n']) = more at ih ⊢
      obtain _ | ⟨hfirst, hrest⟩ := ih
      exact .cons (hfirst.imp (congrArg (c :: ·)) (congrArg (c :: ·))) hrest
    · exact fun tail he ht => hr ds he (by simpa using (List.cons.inj ht).1)
    · exact hc

theorem trim_concat_return (cs : List Char) : trim (cs ++ ['\r']) = trim cs := by
  rw [trim, trim, trimLeft, trimLeft, List.dropWhile_append]
  split
  · next h =>
    rw [List.isEmpty_iff.1 h]
    rfl
  · exact List.rdropWhile_concat_pos isBlank _ _ (by decide)

/-- A text with a line feed put after it, if it does not end in one, has the same lines but for blanks. -/
theorem map_trim_lines_append (hn : cs ≠ []) (rest : List Char) :
    (lines ((if cs.getLast? = some '\n' then cs else cs ++ ['\n']) ++ rest)).map trim =
      (lines cs).map trim ++ (lines rest).map trim := by
  split_ifs with h
  · rw [lines_append_of_getLast? (.inr h), List.map_append]
  · rw [lines_append_of_getLast? (.inr (by simp)), List.map_append]
    have htrim : List.Forall₂ (fun l l' => trim l = trim l') (lines (cs ++ ['\n'])) (lines cs) := by
      refine (lines_concat hn h).imp fun l l' hl => ?_
      rcases hl with rfl | rfl
      · rfl
      · exact (trim_concat_return l).symm
    rw [← List.forall₂_map_right_iff, ← List.forall₂_map_left_iff, List.forall₂_eq_eq_eq] at htrim
    rw [htrim]

/-! ### Separators -/

theorem splitOnce_append {sep : Char} (h : sep ∉ cs) (rest : List Char) :
    splitOnce sep (cs ++ sep :: rest) = some (cs, rest) := by
  induction cs with
  | nil => simp [splitOnce]
  | cons c cs ih =>
    obtain ⟨hne, hc⟩ := not_or.1 (mt List.mem_cons.2 h)
    simp [splitOnce, Ne.symm hne, ih hc]

/-! ### Words -/

theorem extendFirst_ne_nil (cs : List Char) (ws : List (List Char)) : extendFirst cs ws ≠ [] := by
  cases ws <;> exact List.cons_ne_nil _ _

theorem isWordGap_of_isBlank_eq_false (hb : isBlank c = false) : isWordGap c = false := by
  have hne (d : Char) (hd : isBlank d = true) : c ≠ d := by
    rintro rfl
    simp [hb] at hd
  simp [isWordGap, hne ' ' (by decide), hne '\t' (by decide), hne '\n' (by decide)]

/-- A line that begins with neither a blank nor a hash has a word. -/
theorem words_cons_ne_nil (hb : isBlank c = false) (hc : c ≠ '#') : words (c :: cs) ≠ some [] := by
  have hg := isWordGap_of_isBlank_eq_false hb
  intro h
  simp only [words, Reading.words, hg, Bool.false_eq_true, if_false, if_neg hc, Option.map_eq_some_iff] at h
  obtain ⟨ws, -, h⟩ := h
  exact extendFirst_ne_nil _ _ h

theorem not_mem_extendFirst {ws : List (List Char)} (hc : '\n' ∉ cs) (hs : ∀ w ∈ ws, '\n' ∉ w) :
    ∀ w ∈ extendFirst cs ws, '\n' ∉ w := by
  cases ws with
  | nil => simpa [extendFirst] using hc
  | cons w ws => simp_all [extendFirst]

theorem Reading.not_mem_inWord (hc : c ≠ '\n') : '\n' ∉ (inWord c).2 := by
  unfold inWord
  split_ifs <;> simp [hc.symm]

/-- A character is read by going on from another state, and what that leaves of the words gets no line feed. -/
theorem Reading.exists_words_cons (r : Reading) (hc : c ≠ '\n') :
    ∃ (next : Reading) (f : List (List Char) → List (List Char)),
      (∀ cs, r.words (c :: cs) = (next.words cs).map f) ∧
        ∀ ws, (∀ w ∈ ws, '\n' ∉ w) → ∀ w ∈ f ws, '\n' ∉ w := by
  have hs : '\n' ∉ [c] := by simpa using hc.symm
  cases r with
  | gap =>
    by_cases hg : isWordGap c = true
    · exact ⟨.gap, id, by simp [Reading.words, hg], fun _ => id⟩
    by_cases hh : c = '#'
    · exact ⟨.comment, id, by simp [Reading.words, if_neg hg, if_pos hh], fun _ => id⟩
    · exact ⟨(inWord c).1, _, by simp [Reading.words, hg, hh], fun _ => not_mem_extendFirst (not_mem_inWord hc)⟩
  | comment => exact ⟨.comment, id, by simp [Reading.words, hc], fun _ => id⟩
  | bare =>
    by_cases hg : isWordGap c = true
    · exact ⟨.gap, ([] :: ·), by simp [Reading.words, hg], fun ws h => by simpa using h⟩
    · exact ⟨(inWord c).1, _, by simp [Reading.words, hg], fun _ => not_mem_extendFirst (not_mem_inWord hc)⟩
  | escaped => exact ⟨.bare, _, by simp [Reading.words, hc], fun _ => not_mem_extendFirst hs⟩
  | single =>
    by_cases hq : c = '\x27'
    · exact ⟨.bare, id, by simp [Reading.words, hq], fun _ => id⟩
    · exact ⟨.single, _, by simp [Reading.words, hq], fun _ => not_mem_extendFirst hs⟩
  | double =>
    by_cases hq : c = '"'
    · exact ⟨.bare, id, by simp [Reading.words, hq], fun _ => id⟩
    by_cases hb : c = '\\'
    · exact ⟨.doubleEscaped, id, by simp [Reading.words, hb], fun _ => id⟩
    · exact ⟨.double, _, by simp [Reading.words, hq, hb], fun _ => not_mem_extendFirst hs⟩
  | doubleEscaped =>
    exact ⟨.double, _, fun _ => rfl, fun _ => not_mem_extendFirst (by split_ifs <;> simpa using hc.symm)⟩

/-- The words hold no line feed if the characters that are left do not, whatever was read before them. -/
theorem Reading.not_mem_of_mem_words {r : Reading} {ws : List (List Char)} (hc : '\n' ∉ cs)
    (h : r.words cs = some ws) : ∀ w ∈ ws, '\n' ∉ w := by
  induction cs generalizing r ws with
  | nil =>
    cases r with
    | escaped | single | double | doubleEscaped => contradiction
    | gap | comment | bare =>
      obtain rfl := Option.some.inj h
      simp
  | cons c cs ih =>
    obtain ⟨hne, hc⟩ := not_or.1 (mt List.mem_cons.2 hc)
    obtain ⟨next, f, hw, hf⟩ := r.exists_words_cons (Ne.symm hne)
    rw [hw, Option.map_eq_some_iff] at h
    obtain ⟨ws, hn, rfl⟩ := h
    exact hf ws (ih hc hn)

/-! ### Quoted words -/

theorem not_mem_singleQuoted (h : '\n' ∉ cs) : '\n' ∉ singleQuoted cs := by
  have hq : ∀ d ∈ cs, '\n' ∉ singleQuotedChar d := by
    intro d hd
    unfold singleQuotedChar
    split_ifs
    · decide
    · exact fun hm => h (List.mem_singleton.1 hm ▸ hd)
  simpa [singleQuoted] using hq

/-- Inside its quotes a value is read up to their end, here at the end of the word. -/
theorem Reading.words_flatMap_singleQuotedChar {ws : List (List Char)}
    (h : Reading.bare.words rest = some ([] :: ws)) (cs : List Char) :
    Reading.single.words (cs.flatMap singleQuotedChar ++ '\x27' :: rest) = some (cs :: ws) := by
  induction cs with
  | nil => simpa [Reading.words] using h
  | cons c cs ih =>
    rw [List.flatMap_cons, List.append_assoc, singleQuotedChar]
    split_ifs with hq
    · -- The quotes end, a quote stands escaped, and the next quotes begin, all within one word.
      simp [Reading.words, inWord, isWordGap, ih, extendFirst, hq]
    · simp [Reading.words, hq, ih, extendFirst]

theorem Reading.words_flatMap_singleQuoted (values : List (List Char)) :
    Reading.bare.words (values.flatMap fun cs => ' ' :: singleQuoted cs) = some ([] :: values) := by
  induction values with
  | nil => rfl
  | cons cs values ih =>
    have hq := Reading.words_flatMap_singleQuotedChar ih cs
    have hs (tail : List Char) : (' ' :: singleQuoted cs) ++ tail =
        ' ' :: '\x27' :: (cs.flatMap singleQuotedChar ++ '\x27' :: tail) := by simp [singleQuoted]
    rw [List.flatMap_cons, hs]
    simp [Reading.words, inWord, isWordGap, hq, extendFirst]

theorem ne_of_isAlpha {d : Char} (hc : c.isAlpha = true) (hd : d.isAlpha = false) : c ≠ d := by
  rintro rfl
  simp [hd] at hc

theorem isBlank_of_isAlpha (hc : c.isAlpha = true) : isBlank c = false := by
  have hv : (decide ('A'.val ≤ c.val ∧ c.val ≤ 'Z'.val) ||
      (decide ('a'.val ≤ c.val) && decide (c.val ≤ 'z'.val))) = true := hc
  have hr : (0x41 ≤ c.toNat ∧ c.toNat ≤ 0x5A) ∨ (0x61 ≤ c.toNat ∧ c.toNat ≤ 0x7A) := by
    simpa [UInt32.le_iff_toNat_le] using hv
  simp only [isBlank, Bool.or_eq_false_iff, Bool.and_eq_false_iff, beq_eq_false_iff_ne, decide_eq_false_iff_not]
  omega

theorem isWordGap_of_isAlpha (hc : c.isAlpha = true) : isWordGap c = false :=
  isWordGap_of_isBlank_eq_false (isBlank_of_isAlpha hc)

theorem Reading.inWord_of_isAlpha (hc : c.isAlpha = true) : inWord c = (.bare, [c]) := by
  rw [inWord, if_neg (ne_of_isAlpha hc (by decide)), if_neg (ne_of_isAlpha hc (by decide)),
    if_neg (ne_of_isAlpha hc (by decide))]

theorem Reading.words_append_of_isAlpha {w : List Char} {ws : List (List Char)} (hc : ∀ c ∈ cs, c.isAlpha = true)
    (h : Reading.bare.words rest = some (w :: ws)) :
    Reading.bare.words (cs ++ rest) = some ((cs ++ w) :: ws) := by
  induction cs with
  | nil => exact h
  | cons c cs ih =>
    obtain ⟨hc, hcs⟩ := List.forall_mem_cons.1 hc
    simp [Reading.words, isWordGap_of_isAlpha hc, inWord_of_isAlpha hc, ih hcs, extendFirst]

/-- A word that begins with a letter is read up to its end. -/
theorem words_append_of_isAlpha {w : List Char} {ws : List (List Char)} (hn : cs ≠ [])
    (hc : ∀ c ∈ cs, c.isAlpha = true) (h : Reading.bare.words rest = some (w :: ws)) :
    words (cs ++ rest) = some ((cs ++ w) :: ws) := by
  obtain ⟨c, cs, rfl⟩ := List.exists_cons_of_ne_nil hn
  obtain ⟨hc, hcs⟩ := List.forall_mem_cons.1 hc
  have hw := Reading.words_append_of_isAlpha hcs h
  simp [words, Reading.words, isWordGap_of_isAlpha hc, Reading.inWord_of_isAlpha hc, hw, extendFirst,
    ne_of_isAlpha hc (show '#'.isAlpha = false by decide)]

/-- A word of letters and quoted values after it are read back as they are. -/
theorem words_append_flatMap_singleQuoted (hn : cs ≠ []) (hc : ∀ c ∈ cs, c.isAlpha = true)
    (values : List (List Char)) :
    words (cs ++ values.flatMap fun cs => ' ' :: singleQuoted cs) = some (cs :: values) := by
  simpa using words_append_of_isAlpha hn hc (Reading.words_flatMap_singleQuoted values)

/-! ### Reading element by element -/

/-- A reader that undoes a writer on every element of a list undoes it on the list. -/
theorem mapM_map_eq_some {α β : Type} {f : β → Option α} {g : α → β} {l : List α}
    (h : ∀ a ∈ l, f (g a) = some a) : (l.map g).mapM f = some l := by
  induction l with
  | nil => rfl
  | cons a l ih =>
    obtain ⟨ha, hl⟩ := List.forall_mem_cons.1 h
    rw [List.map_cons, List.mapM_cons, ha, ih hl]
    rfl

/-! ### Names -/

theorem toList_of_isIdentifier {name : String} (h : isIdentifier name = true) :
    name.toList ≠ [] ∧ ∀ c ∈ name.toList, isIdentifierChar c = true := by
  unfold isIdentifier at h
  split at h
  · contradiction
  · next c cs hs =>
    rw [hs]
    simp only [Bool.and_eq_true, List.all_eq_true] at h
    refine ⟨List.cons_ne_nil c cs, List.forall_mem_cons.2 ⟨?_, h.2⟩⟩
    have hc := h.1
    simp only [isIdentifierChar, Char.isAlphanum, Bool.or_eq_true] at hc ⊢
    exact hc.imp_left .inl

end EnvModules.Text
