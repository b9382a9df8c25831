import EnvModules.FileTree

/-!
Paths that are put together, and walks along them. What lies below a path can be reached only if the path
itself leads to a directory.
-/

namespace EnvModules

/-- A text that can be the name of a file. -/
structure IsFileName (s : String) : Prop where
  ne_empty : s ≠ ""
  ne_here : s ≠ "."
  ne_above : s ≠ ".."
  free : '/' ∉ s.toList

instance : DecidablePred IsFileName := fun s =>
  decidable_of_iff (s ≠ "" ∧ s ≠ "." ∧ s ≠ ".." ∧ '/' ∉ s.toList)
    ⟨fun h => ⟨h.1, h.2.1, h.2.2.1, h.2.2.2⟩, fun h => ⟨h.1, h.2, h.3, h.4⟩⟩

namespace Path

variable {p q r : Path}

/-- The names in a path, without the last step that a slash at the end asks for. -/
def steps (p : Path) : List String :=
  ((Text.fields (· == '/') p.text.toList).filter (!·.isEmpty)).map String.ofList

/-- What goes between a path and one that is put after it. -/
def slash (p : Path) : String := if p.text.toList.getLast? = some '/' then "" else "/"

theorem components_eq (p : Path) :
    p.components = if p.text.toList.getLast? = some '/' then p.steps ++ ["."] else p.steps := rfl

theorem steps_append_slash (l r : String) : steps ⟨l ++ "/" ++ r⟩ = steps ⟨l⟩ ++ steps ⟨r⟩ := by
  have hs : (l ++ "/" ++ r).toList = l.toList ++ '/' :: r.toList := by simp
  have hf : Text.fields (· == '/') (l.toList ++ '/' :: r.toList) =
      Text.fields (· == '/') l.toList ++ Text.fields (· == '/') r.toList :=
    Text.fields_append_cons rfl l.toList r.toList
  simp only [steps, hs, hf, List.filter_append, List.map_append]

theorem text_ne_empty_of_isAbsolute (h : p.isAbsolute = true) : p.text ≠ "" := by
  intro he
  rw [isAbsolute, he] at h
  exact absurd h (by decide)

theorem join_of_isAbsolute (h : q.isAbsolute = true) : p.join q = q := if_pos h

theorem join_of_text_eq_empty (h : p.text = "") : p.join q = q := by
  rw [join, h]
  exact ite_self q

theorem join_eq (hp : p.text ≠ "") (hq : q.isAbsolute = false) :
    p.join q = ⟨p.text ++ p.slash ++ q.text⟩ := by
  rw [join, if_neg (by simp [hq]), slash]
  cases hl : p.text.toList.getLast? with
  | none => exact absurd (String.toList_eq_nil_iff.1 (List.getLast?_eq_none_iff.1 hl)) hp
  | some c =>
    by_cases hc : c = '/'
    · simp [hc]
    · simp [hc]

theorem text_join_ne_empty (h : p.text ≠ "" ∨ q.text ≠ "") : (p.join q).text ≠ "" := by
  cases hq : q.isAbsolute with
  | true =>
    rw [join_of_isAbsolute hq]
    exact text_ne_empty_of_isAbsolute hq
  | false =>
    by_cases hp : p.text = ""
    · rw [join_of_text_eq_empty hp]
      exact h.resolve_left (not_not_intro hp)
    · rw [join_eq hp hq]
      simp [hp]

theorem isAbsolute_append {s : String} (hp : p.text ≠ "") :
    isAbsolute ⟨p.text ++ s⟩ = p.isAbsolute := by
  rcases hs : p.text.toList with _ | ⟨c, cs⟩
  · exact absurd (String.toList_eq_nil_iff.1 hs) hp
  · simp [isAbsolute, hs]

theorem slash_append {s : String} (hp : p.text ≠ "") : slash ⟨s ++ p.text⟩ = p.slash := by
  cases hl : p.text.toList.getLast? with
  | none => exact absurd (String.toList_eq_nil_iff.1 (List.getLast?_eq_none_iff.1 hl)) hp
  | some c => simp [slash, hl]

theorem getLast?_append_slash (p : Path) : (p.text ++ p.slash).toList.getLast? = some '/' := by
  by_cases h : p.text.toList.getLast? = some '/'
  · simp [slash, h]
  · simp [slash, h]

/-- After what goes in between, nothing more goes there. -/
theorem slash_append_slash (p : Path) : slash ⟨p.text ++ p.slash⟩ = "" :=
  if_pos p.getLast?_append_slash

theorem join_assoc (p q r : Path) : (p.join q).join r = p.join (q.join r) := by
  -- An absolute path takes the place of all that it is put after.
  by_cases hr : r.isAbsolute = true
  · simp only [join_of_isAbsolute hr]
  by_cases hp : p.text = ""
  · simp only [join_of_text_eq_empty hp]
  rw [Bool.not_eq_true] at hr
  by_cases hq : q.text = ""
  · -- Only a slash comes between the first and the last.
    have hqa : q.isAbsolute = false := by
      cases h : q.isAbsolute with
      | false => rfl
      | true => exact absurd hq (text_ne_empty_of_isAbsolute h)
    have hne : p.text ++ p.slash ≠ "" := by simp [hp]
    rw [join_of_text_eq_empty hq, join_eq hp hqa, join_eq hp hr, hq, String.append_empty,
      join_eq (p := ⟨p.text ++ p.slash⟩) hne hr, slash_append_slash, String.append_empty]
  have hqr : (q.join r).isAbsolute = q.isAbsolute := by
    rw [join_eq hq hr, String.append_assoc]
    exact isAbsolute_append hq
  by_cases hqa : q.isAbsolute = true
  · rw [join_of_isAbsolute hqa, join_of_isAbsolute (hqr.trans hqa)]
  · rw [Bool.not_eq_true] at hqa
    have hne : p.text ++ p.slash ++ q.text ≠ "" := by simp [hp]
    rw [join_eq hp (hqr.trans hqa), join_eq hq hr, join_eq hp hqa,
      join_eq (p := ⟨p.text ++ p.slash ++ q.text⟩) hne hr, slash_append hq]
    simp only [String.append_assoc]

theorem steps_join (hp : p.text ≠ "") (hq : q.isAbsolute = false) :
    (p.join q).steps = p.steps ++ q.steps := by
  rw [join_eq hp hq]
  by_cases h : p.text.toList.getLast? = some '/'
  · -- The slash at the end is the one in between.
    obtain ⟨l, hl⟩ := List.getLast?_eq_some_iff.1 h
    have ht : p.text = String.ofList l ++ "/" ++ "" := by
      rw [← String.toList_inj, hl]
      simp
    have hs : p.steps = steps ⟨String.ofList l⟩ := by
      have hp : p = ⟨String.ofList l ++ "/" ++ ""⟩ := congrArg Path.mk ht
      rw [hp, steps_append_slash]
      exact List.append_nil _
    rw [slash, if_pos h, hs, ← steps_append_slash, String.append_empty, ht, String.append_empty]
  · rw [slash, if_neg h]
    exact steps_append_slash p.text q.text

theorem steps_ne_nil (hq : q.isAbsolute = false) (hne : q.text ≠ "") : q.steps ≠ [] := by
  intro h
  rcases hs : q.text.toList with _ | ⟨c, cs⟩
  · exact hne (String.toList_eq_nil_iff.1 hs)
  · -- The first character is no slash, so that the first field has something in it.
    have hc : c ≠ '/' := by simpa [isAbsolute, hs] using hq
    rw [steps, hs, Text.fields, if_neg (by simpa using hc)] at h
    rcases hf : Text.fields (· == '/') cs with _ | ⟨f, fs⟩
    · exact Text.fields_ne_nil _ _ hf
    · simp [hf] at h

/-- A walk along a path that was put together goes through the names of the first part, and further. -/
theorem components_join (hp : p.text ≠ "") (hq : q.isAbsolute = false) :
    ∃ more, more ≠ [] ∧ (p.join q).components = p.steps ++ more := by
  rw [components_eq, steps_join hp hq]
  -- A slash at the end asks for one more step. If there is none, then there is a name after the first part.
  split
  · exact ⟨q.steps ++ ["."], by simp, List.append_assoc _ _ _⟩
  · next hl =>
    refine ⟨q.steps, steps_ne_nil hq fun he => hl ?_, rfl⟩
    rw [join_eq hp hq, he, String.append_empty]
    exact p.getLast?_append_slash

theorem isAbsolute_of_not_mem {s : String} (hs : '/' ∉ s.toList) : isAbsolute ⟨s⟩ = false := by
  rw [isAbsolute, beq_eq_false_iff_ne]
  exact fun h => hs (List.mem_of_mem_head? h)

theorem isAbsolute_of_isFileName {s : String} (hs : IsFileName s) : isAbsolute ⟨s⟩ = false :=
  isAbsolute_of_not_mem hs.free

theorem steps_of_not_mem {s : String} (hne : s ≠ "") (hs : '/' ∉ s.toList) : steps ⟨s⟩ = [s] := by
  have hf : Text.fields (· == '/') s.toList = [s.toList] :=
    Text.fields_of_forall_not fun c hc => beq_eq_false_iff_ne.2 fun he => hs (he ▸ hc)
  simp [steps, hf, hne]

theorem steps_join_of_not_mem {s : String} (hne : s ≠ "") (hs : '/' ∉ s.toList) :
    (p.join ⟨s⟩).steps = p.steps ++ [s] := by
  by_cases hp : p.text = ""
  · have hsteps : p.steps = [] := by
      rw [steps, hp]
      rfl
    rw [join_of_text_eq_empty hp, steps_of_not_mem hne hs, hsteps, List.nil_append]
  · rw [steps_join hp (isAbsolute_of_not_mem hs), steps_of_not_mem hne hs]

/-- A file name is one more name for a walk to go through. -/
theorem components_join_of_isFileName {s : String} (hp : p.text ≠ "") (hs : IsFileName s) :
    (p.join ⟨s⟩).components = p.steps ++ [s] := by
  have ha := isAbsolute_of_isFileName hs
  have hlast : (p.join ⟨s⟩).text.toList.getLast? ≠ some '/' := by
    rw [join_eq hp ha, String.toList_append, List.getLast?_append]
    cases hl : s.toList.getLast? with
    | none => exact absurd (String.toList_eq_nil_iff.1 (List.getLast?_eq_none_iff.1 hl)) hs.ne_empty
    | some c =>
      rintro ⟨⟩
      exact hs.free (List.mem_of_getLast? hl)
  rw [components_eq, if_neg hlast, steps_join hp ha, steps_of_not_mem hs.ne_empty hs.free]

end Path

namespace FileTree

variable {t : FileTree}

/-- A step of a walk fails, or it starts in a directory and the walk goes on from another place or along a
link, whatever names are still to go. -/
theorem walk_cons_cases (t : FileTree) (dir : Place) (name : String) :
    (∃ fault, ∀ follow names, t.walk follow dir (name :: names) = .error fault) ∨
      ∃ entries, t.root.descend? dir = some (.directory entries) ∧
        ((∃ next, ∀ follow names, t.walk follow dir (name :: names) = t.walk follow next names) ∨
          ∃ target, ∀ follow names, t.walk follow dir (name :: names) = follow dir target names) := by
  simp only [walk]
  split
  · next entries hd =>
    by_cases hh : name = "."
    · exact .inr ⟨entries, hd, .inl ⟨dir, fun _ _ => if_pos hh⟩⟩
    by_cases hu : name = ".."
    · exact .inr ⟨entries, hd, .inl ⟨dir.dropLast, fun _ _ => by rw [if_neg hh, if_pos hu]⟩⟩
    by_cases hl : nameLimit < name.utf8ByteSize
    · exact .inl ⟨_, fun _ _ => by rw [if_neg hh, if_neg hu, if_pos hl]⟩
    simp only [if_neg hh, if_neg hu, if_neg hl]
    split
    · exact .inl ⟨_, fun _ _ => rfl⟩
    · next target _ => exact .inr ⟨entries, hd, .inr ⟨target, fun _ _ => rfl⟩⟩
    · exact .inr ⟨entries, hd, .inl ⟨dir ++ [name], fun _ _ => rfl⟩⟩
  · exact .inl ⟨_, fun _ _ => rfl⟩
  · exact .inl ⟨_, fun _ _ => rfl⟩

/-- A walk that goes on after some names has come to a directory by then, and might as well have ended on the
spot. The rest of the way starts from there. -/
theorem walk_append {follow : Place → Path → List String → Except FileFault Place} {more : List String}
    (hm : more ≠ []) {place : Place} {Rest : Place → Prop}
    (hr : ∀ mid, t.walk follow mid more = .ok place → Rest mid)
    (hf : ∀ dir target names, follow dir target (names ++ more) = .ok place →
      ∃ mid entries, follow dir target names = .ok mid ∧ follow dir target (names ++ ["."]) = .ok mid ∧
        t.root.descend? mid = some (.directory entries) ∧ Rest mid)
    {dir : Place} {names : List String} (h : t.walk follow dir (names ++ more) = .ok place) :
    ∃ mid entries, t.walk follow dir names = .ok mid ∧ t.walk follow dir (names ++ ["."]) = .ok mid ∧
      t.root.descend? mid = some (.directory entries) ∧ Rest mid := by
  -- Every step starts in a directory, and so does the first one of those that come after the names.
  induction names generalizing dir with
  | nil =>
    have hrest := hr dir h
    obtain ⟨name, more, rfl⟩ := List.exists_cons_of_ne_nil hm
    rw [List.nil_append] at h
    rcases t.walk_cons_cases dir name with ⟨fault, he⟩ | ⟨entries, hd, -⟩
    · rw [he] at h
      exact nomatch h
    · refine ⟨dir, entries, rfl, ?_, hd, hrest⟩
      rw [List.nil_append, walk, hd]
      rfl
  | cons name names ih =>
    rw [List.cons_append] at h ⊢
    rcases t.walk_cons_cases dir name with ⟨fault, he⟩ | ⟨_, -, ⟨next, he⟩ | ⟨target, he⟩⟩
    · rw [he] at h
      exact nomatch h
    · rw [he] at h
      rw [he, he]
      exact ih h
    · -- The names of a link are put before those that are still to go.
      rw [he] at h
      rw [he, he]
      exact hf dir target names h

theorem walkLinks_append (links : Nat) {dir place : Place} {names more : List String} (hm : more ≠ [])
    (h : t.walkLinks links dir (names ++ more) = .ok place) :
    ∃ mid entries, t.walkLinks links dir names = .ok mid ∧
      t.walkLinks links dir (names ++ ["."]) = .ok mid ∧
      t.root.descend? mid = some (.directory entries) ∧
      ∃ left ≤ links, t.walkLinks left mid more = .ok place := by
  -- The induction is on the links that may still be followed, since each of them starts a walk of its own.
  -- Fewer of them are left for the rest of the way if some had to be followed by then.
  induction links generalizing dir names with
  | zero => exact walk_append hm (fun mid hw => ⟨0, Nat.le_refl 0, hw⟩) (fun _ _ _ hw => by cases hw) h
  | succ links ih =>
    refine walk_append hm (fun mid hw => ⟨links + 1, Nat.le_refl _, hw⟩) ?_ h
    intro dir target names hw
    rw [← List.append_assoc] at hw ⊢
    obtain ⟨mid, entries, hmid, hmid', hd, left, hl, hrest⟩ := ih hw
    exact ⟨mid, entries, hmid, hmid', hd, left, Nat.le_succ_of_le hl, hrest⟩

theorem walk_mono {follow follow' : Place → Path → List String → Except FileFault Place} {place : Place}
    (hf : ∀ dir target names, follow dir target names = .ok place → follow' dir target names = .ok place)
    {dir : Place} {names : List String} (h : t.walk follow dir names = .ok place) :
    t.walk follow' dir names = .ok place := by
  induction names generalizing dir with
  | nil => exact h
  | cons name names ih =>
    rcases t.walk_cons_cases dir name with ⟨fault, he⟩ | ⟨_, -, ⟨next, he⟩ | ⟨target, he⟩⟩
    · rw [he] at h
      exact nomatch h
    · rw [he] at h ⊢
      exact ih h
    · rw [he] at h ⊢
      exact hf dir target names h

/-- What is reached with some links is reached with more of them. -/
theorem walkLinks_mono {links links' : Nat} (hl : links ≤ links') {dir place : Place} {names : List String}
    (h : t.walkLinks links dir names = .ok place) : t.walkLinks links' dir names = .ok place := by
  induction links generalizing links' dir names with
  | zero =>
    cases links' with
    | zero => exact h
    | succ links' => exact walk_mono (fun _ _ _ hw => by cases hw) h
  | succ links ih =>
    obtain ⟨more, rfl⟩ := Nat.exists_eq_add_of_le' hl
    exact walk_mono (fun _ _ _ hw => ih (Nat.le_add_left links more) hw) h

/-- A file name leads to an entry of the directory that the walk is in, or further along it if it is a link. -/
theorem walkLinks_singleton {links : Nat} {dir place : Place} {name : String} (hn : IsFileName name)
    (h : t.walkLinks links dir [name] = .ok place) :
    ∃ entries child, t.root.descend? dir = some (.directory entries) ∧ entries.lookup name = some child ∧
      ((∃ target, child = .link target) ∨ place = dir ++ [name]) := by
  obtain ⟨follow, hw⟩ : ∃ follow, t.walk follow dir [name] = .ok place := by
    cases links with
    | zero => exact ⟨_, h⟩
    | succ links => exact ⟨_, h⟩
  rw [walk] at hw
  split at hw
  · next entries hd =>
    rw [if_neg hn.ne_here, if_neg hn.ne_above] at hw
    split at hw
    · exact nomatch hw
    · split at hw
      · exact nomatch hw
      · next target hl => exact ⟨entries, _, hd, hl, .inl ⟨target, rfl⟩⟩
      · next child _ hl =>
        obtain rfl := Except.ok.inj hw
        exact ⟨entries, _, hd, hl, .inr rfl⟩
  · exact nomatch hw
  · exact nomatch hw

theorem locate_eq_ok_iff {p : Path} {place : Place} :
    t.locate p = .ok place ↔
      ('\x00' ∉ p.text.toList ∧ p.text ≠ "" ∧ p.text.utf8ByteSize ≤ pathLimit) ∧
        t.walkLinks linkLimit (t.start p) p.components = .ok place := by
  rw [locate]
  by_cases hz : '\x00' ∈ p.text.toList
  · simp [hz]
  by_cases he : p.text = ""
  · simp [he]
  by_cases hl : pathLimit < p.text.utf8ByteSize
  · simp [hz, he, hl, Nat.not_le.2 hl]
  · simp [hz, he, hl, Nat.not_lt.1 hl, start]

theorem node_eq_ok_iff {p : Path} {n : Node} :
    t.node p = .ok n ↔ ∃ place, t.locate p = .ok place ∧ t.root.descend? place = some n := by
  rw [node]
  cases t.locate p with
  | error fault => simp [Except.bind]
  | ok place => cases hd : t.root.descend? place <;> simp [Except.bind, hd]

theorem pathExists_iff {p : Path} : t.pathExists p = true ↔ ∃ n, t.node p = .ok n := by
  rw [pathExists]
  cases t.node p <;> simp [Except.isOk, Except.toBool]

theorem text_ne_empty_of_pathExists {p : Path} (h : t.pathExists p = true) : p.text ≠ "" := by
  obtain ⟨n, hn⟩ := pathExists_iff.1 h
  obtain ⟨place, hl, -⟩ := node_eq_ok_iff.1 hn
  exact (locate_eq_ok_iff.1 hl).1.2.1

theorem isDirectory_iff {p : Path} :
    t.isDirectory p = true ↔ ∃ entries, t.node p = .ok (.directory entries) := by
  rw [isDirectory]
  rcases t.node p with _ | _ | _ | _ <;> simp

theorem pathExists_of_isDirectory {p : Path} (h : t.isDirectory p = true) : t.pathExists p = true := by
  obtain ⟨entries, hn⟩ := isDirectory_iff.1 h
  exact pathExists_iff.2 ⟨_, hn⟩

theorem text_ne_empty_of_isDirectory {p : Path} (h : t.isDirectory p = true) : p.text ≠ "" :=
  text_ne_empty_of_pathExists (pathExists_of_isDirectory h)

/-- A path with a slash at its end leads to a directory, if it leads anywhere. -/
theorem isDirectory_of_pathExists {p : Path} (hs : p.text.toList.getLast? = some '/')
    (h : t.pathExists p = true) : t.isDirectory p = true := by
  obtain ⟨n, hn⟩ := pathExists_iff.1 h
  obtain ⟨place, hl, -⟩ := node_eq_ok_iff.1 hn
  obtain ⟨-, hw⟩ := locate_eq_ok_iff.1 hl
  rw [Path.components_eq, if_pos hs] at hw
  obtain ⟨mid, entries, -, hmid, hd, -⟩ := walkLinks_append linkLimit (by simp) hw
  obtain rfl : mid = place := Except.ok.inj (hmid.symm.trans hw)
  exact isDirectory_iff.2 ⟨entries, node_eq_ok_iff.2 ⟨mid, hl, hd⟩⟩

/-- On the way to what lies below a path one comes to the directory that the path itself leads to. -/
theorem exists_of_locate_join {p q : Path} (hp : p.text ≠ "") (hq : q.isAbsolute = false)
    {more : List String} (hm : more ≠ []) (hc : (p.join q).components = p.steps ++ more) {place : Place}
    (h : t.locate (p.join q) = .ok place) :
    ∃ mid entries, t.locate p = .ok mid ∧ t.root.descend? mid = some (.directory entries) ∧
      ∃ left ≤ linkLimit, t.walkLinks left mid more = .ok place := by
  obtain ⟨⟨hz, -, hs⟩, hw⟩ := locate_eq_ok_iff.1 h
  have hstart : t.start (p.join q) = t.start p := by
    rw [start, start, Path.join_eq hp hq, String.append_assoc, Path.isAbsolute_append hp]
  rw [hc, hstart] at hw
  obtain ⟨mid, entries, hmid, hmid', hd, hrest⟩ := walkLinks_append linkLimit hm hw
  rw [Path.join_eq hp hq] at hz hs
  -- What keeps a path within the limits keeps its first part within them.
  refine ⟨mid, entries, locate_eq_ok_iff.2 ⟨⟨?_, hp, ?_⟩, ?_⟩, hd, hrest⟩
  · intro hn
    exact hz (by simp [hn])
  · simp only [String.utf8ByteSize_append] at hs
    omega
  · rw [Path.components_eq]
    split
    · exact hmid'
    · exact hmid

/-- A path has to lead somewhere for anything to lie below it. -/
theorem pathExists_of_join {p q : Path} (hp : p.text ≠ "") (hq : q.isAbsolute = false)
    (h : t.pathExists (p.join q) = true) : t.pathExists p = true := by
  obtain ⟨n, hn⟩ := pathExists_iff.1 h
  obtain ⟨place, hl, -⟩ := node_eq_ok_iff.1 hn
  obtain ⟨more, hm, hc⟩ := Path.components_join hp hq
  obtain ⟨mid, entries, hlp, hd, -⟩ := exists_of_locate_join hp hq hm hc hl
  exact pathExists_iff.2 ⟨_, node_eq_ok_iff.2 ⟨mid, hlp, hd⟩⟩

end FileTree

end EnvModules
