import EnvModules.Proofs.Segments
import EnvModules.Proofs.Words
import Mathlib.Data.List.DropRight
import Mathlib.Data.List.InsertIdx

/-!
How names are spelled in the record of loaded modules. A name is read without the blanks around it and without
the slashes that are then at its end, but it is looked for, taken out and written again as it is. Main
statements: a record is read again as it was written if no name in it ends in a blank, and a module is taken
out of the record if its first entry is spelled the way its name is written.
-/

namespace EnvModules

open Text

theorem Text.splitOnce_cases (sep : Char) (cs : List Char) :
    splitOnce sep cs = none ∨
      ∃ front back, splitOnce sep cs = some (front, back) ∧ cs = front ++ sep :: back := by
  induction cs with
  | nil => exact .inl rfl
  | cons c cs ih =>
    rw [splitOnce]
    split
    · next hc => exact .inr ⟨[], cs, rfl, by rw [hc]; rfl⟩
    · rcases ih with h | ⟨front, back, h, hcs⟩
      · exact .inl (by rw [h]; rfl)
      · exact .inr ⟨c :: front, back, by rw [h]; rfl, by rw [hcs]; rfl⟩

namespace Name

/-- What is left of a text when a name is read from it. -/
def core (s : String) : List Char := dropRightWhile (· == '/') (trim s.toList)

theorem parse_eq (s : String) : parse s = match splitOnce '/' (core s) with
    | some (package, version) => ⟨String.ofList package, some (String.ofList version)⟩
    | none => ⟨String.ofList (core s), none⟩ := by
  unfold parse core
  rfl

theorem parse_congr {s s' : String} (h : core s = core s') : parse s = parse s' := by
  rw [parse_eq, parse_eq, h]

/-- The slash that a name is cut at is written again. -/
theorem toList_text_parse (s : String) : (parse s).text.toList = core s := by
  rw [parse_eq]
  rcases splitOnce_cases '/' (core s) with h | ⟨front, back, h, hc⟩
  · rw [h]
    exact String.toList_ofList
  · rw [h, hc]
    simp [text]

theorem core_sublist (s : String) : (core s).Sublist s.toList :=
  (List.rdropWhile_prefix _ _).sublist.trans (trim_sublist s.toList)

theorem not_mem_text_parse {c : Char} {s : String} (h : c ∉ s.toList) : c ∉ (parse s).text.toList := by
  rw [toList_text_parse]
  exact fun hc => h ((core_sublist s).subset hc)

theorem version_parse_eq_none {s : String} (h : '/' ∉ s.toList) : (parse s).version = none := by
  rw [parse_eq]
  rcases splitOnce_cases '/' (core s) with hs | ⟨front, back, -, hc⟩
  · rw [hs]
  · exact absurd ((core_sublist s).subset (by simp [hc])) h

/-- Whether a name is written with something at its end that is no blank. -/
def endsSolid (n : Name) : Bool := n.text.toList.getLast?.any (!isBlank ·)

theorem core_text_of_endsSolid {s : String} (h : (parse s).endsSolid = true) :
    core (parse s).text = (parse s).text.toList := by
  rw [endsSolid, toList_text_parse] at h
  rw [core, toList_text_parse]
  -- The name begins where the trimmed text does.
  have hhead : ∀ c ∈ (core s).head?, isBlank c = false := by
    intro c hc
    obtain ⟨rest, hcore⟩ : ∃ rest, core s = c :: rest := List.head?_eq_some_iff.1 hc
    obtain ⟨tail, ht⟩ : core s <+: trim s.toList := List.rdropWhile_prefix _ _
    rw [hcore, List.cons_append] at ht
    exact isBlank_of_trim_eq_cons ht.symm
  have hlast : ∀ c ∈ (core s).getLast?, isBlank c = false := by
    intro c hc
    rw [Option.mem_def.1 hc] at h
    simpa using h
  rw [trim_eq_self hhead hlast]
  exact List.rdropWhile_idempotent _ _

theorem endsSolid_of_core_text {n : Name} (hne : n.text ≠ "") (h : core n.text = n.text.toList) :
    n.endsSolid = true := by
  -- No character can go missing in between, and so none goes at the end.
  have htrim : trim n.text.toList = n.text.toList := by
    have hs : (core n.text).Sublist (trim n.text.toList) := (List.rdropWhile_prefix _ _).sublist
    rw [h] at hs
    exact (trim_sublist _).eq_of_length_le hs.length_le
  rcases hl : n.text.toList.getLast? with _ | c
  · exact absurd (String.toList_eq_nil_iff.1 (List.getLast?_eq_none_iff.1 hl)) hne
  · rw [← htrim] at hl
    have hc := isBlank_of_getLast?_trimRight hl
    rw [htrim] at hl
    simp [endsSolid, hl, hc]

/-- A name comes back from what is written for it if it does not end in a blank. An empty one does not, since
nothing is written for it. -/
theorem parse_text_iff (s : String) :
    (parse s).text ≠ "" ∧ parse (parse s).text = parse s ↔ (parse s).endsSolid = true := by
  constructor
  · rintro ⟨hne, h⟩
    apply endsSolid_of_core_text hne
    rw [← toList_text_parse, h]
  · intro h
    have hc := core_text_of_endsSolid h
    constructor
    · intro he
      rw [endsSolid, he] at h
      exact nomatch h
    · apply parse_congr
      rw [hc, toList_text_parse]

end Name

theorem map_filter_eq_self_iff {α : Type} {p : α → Bool} {f : α → α} {l : List α} :
    (l.filter p).map f = l ↔ ∀ a ∈ l, p a = true ∧ f a = a := by
  induction l with
  | nil => simp
  | cons a rest ih =>
    by_cases ha : p a = true
    · simp [ha, ih]
    · -- Without the first element the list is too short.
      have hne : (rest.filter p).map f ≠ a :: rest := by
        intro he
        have hl := congrArg List.length he
        have hle := List.length_filter_le p rest
        rw [List.length_map, List.length_cons] at hl
        omega
      simp [hne, ha]

namespace Environment

/-- A list variable has the entries that it was put together from, apart from empty ones. -/
theorem filter_segments_of_get? {env : Environment} {name : String} {entries : List String}
    (hf : ∀ s ∈ entries, ':' ∉ s.toList) (hg : env.get? name = some (":".intercalate entries)) :
    (env.segments name).filter (!·.isEmpty) = entries.filter (!·.isEmpty) := by
  by_cases he : entries = [] ∨ entries = [""]
  · -- The value is empty either way, and there is no entry in it.
    have hn : env.getNonEmpty? name = none := by
      rcases he with rfl | rfl <;> simp [getNonEmpty?, hg]
    rw [segments_of_getNonEmpty?_eq_none hn]
    rcases he with rfl | rfl <;> rfl
  · obtain ⟨hnil, hone⟩ := not_or.1 he
    have hi : IsEntries entries := ⟨hf, hone⟩
    have hv := mt hi.intercalate_eq_empty.1 hnil
    have hn : env.getNonEmpty? name = some (":".intercalate entries) := by
      simpa [getNonEmpty?, hg] using hv
    rw [segments, hn]
    exact congrArg _ (hi.fields_intercalate hnil)

end Environment

namespace Loaded

theorem not_mem_text_of_mem_entries {env : Environment} {n : Name} (h : n ∈ (ofEnvironment env).entries) :
    ':' ∉ n.text.toList := by
  obtain ⟨s, hs, rfl⟩ := List.mem_map.1 h
  exact Name.not_mem_text_parse ((env.isEntries_segments loadedVariable).free s (List.mem_of_mem_filter hs))

/-- What is read from the record that is written for some entries. Empty ones are gone, and of the others it is
what their names are read as. The entries are the same again exactly if all of them end in something that is
no blank. -/
theorem reread_eq_iff (env : Environment) (text : String) :
    let l := Loaded.ofEnvironment (env.set loadedVariable text)
    let again := Loaded.ofEnvironment (env.set loadedVariable l.value)
    again.entries = (l.entries.filter fun n => !n.text.isEmpty).map (fun n => Name.parse n.text) ∧
      (again = l ↔ ∀ n ∈ l.entries, n.endsSolid = true) := by
  intro l again
  have hagain : again.entries = (l.entries.filter fun n => !n.text.isEmpty).map fun n => Name.parse n.text := by
    have hf : ∀ s ∈ l.entries.map Name.text, ':' ∉ s.toList := by
      intro s hs
      obtain ⟨n, hn, rfl⟩ := List.mem_map.1 hs
      exact not_mem_text_of_mem_entries hn
    have hg : (env.set loadedVariable l.value).get? loadedVariable =
        some (":".intercalate (l.entries.map Name.text)) := by
      rw [Environment.get?_set, if_pos rfl, value]
    show ((Environment.segments _ _).filter _).map _ = _
    rw [Environment.filter_segments_of_get? hf hg, List.filter_map, List.map_map]
    rfl
  refine ⟨hagain, ?_⟩
  have hext : again = l ↔ again.entries = l.entries := ⟨congrArg entries, congrArg Loaded.mk⟩
  rw [hext, hagain, map_filter_eq_self_iff]
  -- Every entry has been read from some segment, so that what holds of names that were read holds of it.
  apply forall₂_congr
  intro n hn
  obtain ⟨s, -, rfl⟩ := List.mem_map.1 hn
  rw [← Name.parse_text_iff]
  simp

/-- A blank before the last slash is lost when the name is read again, and a name of blanks alone is lost. -/
theorem reread_ne_of_blanks :
    let l := Loaded.ofEnvironment (.ofVars (.ofList [(loadedVariable, "gcc /: ")]))
    l.entries = [⟨"gcc ", none⟩, ⟨"", none⟩] ∧ l.value = "gcc :" ∧
      (Loaded.ofEnvironment (.ofVars (.ofList [(loadedVariable, l.value)]))).entries = [⟨"gcc", none⟩] := by
  decide +kernel

end Loaded

section Erase

variable {α β : Type}

/-- Taking out one of two elements comes to the same if and only if there is nothing else between them. -/
theorem eraseIdx_eq_eraseIdx_iff {l : List α} {i j : ℕ} (h : i ≤ j) :
    l.eraseIdx i = l.eraseIdx j ↔ ∀ k, i ≤ k → k ≤ j → l[k]? = l[i]? := by
  constructor
  · intro he k hik
    induction k, hik using Nat.le_induction with
    | base => exact fun _ => rfl
    | succ k hik ih =>
      intro hkj
      have hk : (l.eraseIdx i)[k]? = (l.eraseIdx j)[k]? := by rw [he]
      rw [List.getElem?_eraseIdx, List.getElem?_eraseIdx, if_neg (Nat.not_lt.2 hik),
        if_pos (Nat.lt_of_succ_le hkj)] at hk
      rw [hk]
      exact ih (Nat.le_of_succ_le hkj)
  · intro hsame
    apply List.ext_getElem?
    intro k
    rw [List.getElem?_eraseIdx, List.getElem?_eraseIdx]
    by_cases hi : k < i
    · rw [if_pos hi, if_pos (hi.trans_le h)]
    by_cases hj : k < j
    · have hik : i ≤ k := Nat.not_lt.1 hi
      rw [if_neg hi, if_pos hj, hsame k hik hj.le, hsame (k + 1) (Nat.le_succ_of_le hik) hj]
    · rw [if_neg hi, if_neg hj]

theorem idxOf_le_of_getElem? [BEq α] [LawfulBEq α] {l : List α} {a : α} {i : ℕ} (h : l[i]? = some a) :
    l.idxOf a ≤ i := by
  by_contra hlt
  obtain ⟨hi, rfl⟩ := List.getElem?_eq_some_iff.1 h
  have hne := List.not_of_lt_findIdx (Nat.not_le.1 hlt)
  simp at hne

/-- The images of what is left without an element are what is left of the images without one of them, if and
only if all images are the same from the first of them up to that of the element. -/
theorem map_erase_eq_iff [BEq α] [LawfulBEq α] [BEq β] [LawfulBEq β] {f : α → β} {l : List α} {a : α} {b : β}
    (hb : b ∈ l.map f) :
    (l.erase a).map f = (l.map f).erase b ↔
      (l.map f).idxOf b ≤ l.idxOf a ∧
        ∀ k, (l.map f).idxOf b ≤ k → k ≤ l.idxOf a → (l.map f)[k]? = some b := by
  rw [List.erase_eq_eraseIdx_of_idxOf (l := l) (a := a) rfl,
    List.erase_eq_eraseIdx_of_idxOf (l := l.map f) (a := b) rfl, ← List.eraseIdx_map]
  have hfirst : (l.map f)[(l.map f).idxOf b]? = some b := List.getElem?_idxOf hb
  rcases Nat.le_total ((l.map f).idxOf b) (l.idxOf a) with hle | hle
  · rw [eq_comm, eraseIdx_eq_eraseIdx_iff hle, hfirst]
    exact ⟨fun h => ⟨hle, h⟩, And.right⟩
  · rw [eraseIdx_eq_eraseIdx_iff hle]
    constructor
    · intro h
      -- No image before the first of them is the same, and so the two places are one.
      have hlast : (l.map f)[l.idxOf a]? = some b := by
        rw [← hfirst]
        exact (h _ hle le_rfl).symm
      have hge := idxOf_le_of_getElem? hlast
      refine ⟨hge, fun k hk hk' => ?_⟩
      rw [Nat.le_antisymm (hk'.trans hle) hk]
      exact hfirst
    · rintro ⟨hge, h⟩ k hk hk'
      rw [Nat.le_antisymm (hk'.trans hge) hk]

end Erase

namespace Backend

/-- Whether a module is taken out of the record depends on how its entry is spelled. It is the first segment
with the very text of the name that goes. This is the first entry of the module, or one that cannot be told
from it, if and only if from the first entry up to this segment there are only entries of the module. -/
theorem entries_unregister (b : Backend) (env : Environment) (n : Name) (hd : b.isDisplay = false)
    (hn : n ∈ (Loaded.ofEnvironment env).entries) :
    let before := (Loaded.ofEnvironment env).entries
    let after := (Loaded.ofEnvironment (b.unregister env n).2).entries
    let spelled := (env.segments loadedVariable).filter (!·.isEmpty)
    after = (spelled.erase n.text).map Name.parse ∧
      (after = before.erase n ↔ before.idxOf n ≤ spelled.idxOf n.text ∧
        ∀ i, before.idxOf n ≤ i → i ≤ spelled.idxOf n.text → before[i]? = some n) := by
  intro before after spelled
  have hafter : after = (spelled.erase n.text).map Name.parse := by
    have henv : (b.unregister env n).2 = (env.changePath false n.text loadedVariable).1 := by
      simp [unregister, setPath, hd]
    have hg : (b.unregister env n).2.get? loadedVariable =
        some (":".intercalate ((env.segments loadedVariable).erase n.text)) := by
      rw [henv, Environment.get?_changePath, if_pos rfl]
      rfl
    have hf : ∀ s ∈ (env.segments loadedVariable).erase n.text, ':' ∉ s.toList := fun s hs =>
      (env.isEntries_segments loadedVariable).free s (List.mem_of_mem_erase hs)
    show ((Environment.segments _ _).filter _).map _ = _
    rw [Environment.filter_segments_of_get? hf hg, List.erase_filter]
  refine ⟨hafter, ?_⟩
  rw [hafter]
  exact map_erase_eq_iff hn

/-- The second of three entries of a module is the one that is spelled as its name is written. -/
theorem entries_unregister_of_slash :
    let env : Environment := .ofVars (.ofList [(loadedVariable, "icc::gcc/5/ :gcc/5: gcc/5")])
    let n : Name := ⟨"gcc", some "5"⟩
    let before := (Loaded.ofEnvironment env).entries
    let after := (Loaded.ofEnvironment (Backend.unregister .silent env n).2).entries
    let spelled := (env.segments loadedVariable).filter (!·.isEmpty)
    after = (spelled.erase n.text).map Name.parse ∧
      (after = before.erase n ↔ before.idxOf n ≤ spelled.idxOf n.text ∧
        ∀ i, before.idxOf n ≤ i → i ≤ spelled.idxOf n.text → before[i]? = some n) := by
  intro env n
  apply entries_unregister .silent env n
  · rfl
  · decide +kernel

/-- A module whose only entry has a slash at its end stays in the record. -/
theorem mem_entries_unregister_of_slash :
    let env : Environment := .ofVars (.ofList [(loadedVariable, "gcc/:icc")])
    let n : Name := ⟨"gcc", none⟩
    (Loaded.ofEnvironment env).entries = [n, ⟨"icc", none⟩] ∧
      (Loaded.ofEnvironment (Backend.unregister .silent env n).2).entries = [n, ⟨"icc", none⟩] := by
  decide +kernel

end Backend

end EnvModules
