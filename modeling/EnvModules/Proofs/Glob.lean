import EnvModules.Installation
import EnvModules.Proofs.Listing
import EnvModules.Proofs.Segments

/-!
What a pattern with stars stands for. Main statement: the paths that it is expanded to are those that lead from the
root along a chain of names, one for each segment, of which a name for a segment with stars is an entry of the
directory reached by then, with a text that holds no line feed in the place of every star. They come in the order
of these chains, and none of them comes twice.
-/

namespace EnvModules

/-! ### Stars -/

namespace Text

variable {Run : List Char → Prop} {ps cs : List Char} {p : Char}

/-- A pattern with texts in the place of its stars, the first text for the first star. -/
def filled : List Char → List (List Char) → List Char
  | [], _ => []
  | p :: ps, runs => if p = '*' then runs.headD [] ++ filled ps runs.tail else p :: filled ps runs

/-- Whether a text is a pattern with a run in the place of every star. -/
def Fills (Run : List Char → Prop) (pattern cs : List Char) : Prop :=
  ∃ runs : List (List Char), runs.length = pattern.count '*' ∧ (∀ run ∈ runs, Run run) ∧ filled pattern runs = cs

theorem fills_nil : Fills Run [] cs ↔ cs = [] := by
  constructor
  · rintro ⟨runs, -, -, rfl⟩
    rfl
  · rintro rfl
    exact ⟨[], rfl, by simp, rfl⟩

theorem fills_char (hp : p ≠ '*') : Fills Run (p :: ps) cs ↔ ∃ rest, cs = p :: rest ∧ Fills Run ps rest := by
  have hcount : (p :: ps).count '*' = ps.count '*' := List.count_cons_of_ne hp
  constructor
  · rintro ⟨runs, hlen, hruns, rfl⟩
    exact ⟨filled ps runs, if_neg hp, runs, hlen.trans hcount, hruns, rfl⟩
  · rintro ⟨_, rfl, runs, hlen, hruns, rfl⟩
    exact ⟨runs, hlen.trans hcount.symm, hruns, if_neg hp⟩

theorem fills_star :
    Fills Run ('*' :: ps) cs ↔ ∃ run rest, Run run ∧ cs = run ++ rest ∧ Fills Run ps rest := by
  have hcount : ('*' :: ps).count '*' = ps.count '*' + 1 := List.count_cons_self
  constructor
  · rintro ⟨runs, hlen, hruns, rfl⟩
    cases runs with
    | nil => simp [hcount] at hlen
    | cons run runs =>
      obtain ⟨hrun, hruns⟩ := List.forall_mem_cons.1 hruns
      exact ⟨run, filled ps runs, hrun, rfl, runs, Nat.succ.inj (hlen.trans hcount), hruns, rfl⟩
  · rintro ⟨run, _, hrun, rfl, runs, hlen, hruns, rfl⟩
    exact ⟨run :: runs, (congrArg (· + 1) hlen).trans hcount.symm, List.forall_mem_cons.2 ⟨hrun, hruns⟩, rfl⟩

theorem Fills.mono {Run' : List Char → Prop} (hr : ∀ run, Run run → Run' run) (h : Fills Run ps cs) :
    Fills Run' ps cs := by
  obtain ⟨runs, hlen, hruns, hf⟩ := h
  exact ⟨runs, hlen, fun run hm => hr run (hruns run hm), hf⟩

/-- The runs are parts of the text, and hold no line feed if the text does not. -/
theorem Fills.of_not_mem (hc : '\n' ∉ cs) (h : Fills Run ps cs) : Fills ('\n' ∉ ·) ps cs := by
  induction ps generalizing cs with
  | nil => exact fills_nil.2 (fills_nil.1 h)
  | cons p ps ih =>
    by_cases hp : p = '*'
    · subst hp
      obtain ⟨run, rest, -, rfl, hrest⟩ := fills_star.1 h
      obtain ⟨hrun, hc⟩ := not_or.1 (mt List.mem_append.2 hc)
      exact fills_star.2 ⟨run, rest, hrun, rfl, ih hc hrest⟩
    · obtain ⟨rest, rfl, hrest⟩ := (fills_char hp).1 h
      obtain ⟨-, hc⟩ := not_or.1 (mt List.mem_cons.2 hc)
      exact (fills_char hp).2 ⟨rest, rfl, ih hc hrest⟩

/-- Matching is by runs without line feeds. The induction is on the pattern, and for a star on the text as well. -/
theorem wildcardMatches_iff : wildcardMatches ps cs = true ↔ Fills ('\n' ∉ ·) ps cs := by
  induction ps generalizing cs with
  | nil => rw [wildcardMatches_nil, List.isEmpty_iff, fills_nil]
  | cons p ps ih =>
    by_cases hp : p = '*'
    · subst hp
      rw [fills_star]
      induction cs with
      | nil =>
        rw [wildcardMatches_star_nil, ih]
        constructor
        · exact fun h => ⟨[], [], List.not_mem_nil, rfl, h⟩
        · rintro ⟨run, rest, -, hcs, h⟩
          obtain ⟨rfl, rfl⟩ := List.append_eq_nil_iff.1 hcs.symm
          exact h
      | cons c cs ihc =>
        rw [wildcardMatches_star_cons, Bool.or_eq_true, Bool.and_eq_true, ih, ihc, bne_iff_ne]
        constructor
        · rintro (h | ⟨hc, run, rest, hrun, rfl, h⟩)
          · exact ⟨[], c :: cs, List.not_mem_nil, rfl, h⟩
          · exact ⟨c :: run, rest, mt List.mem_cons.1 (not_or.2 ⟨Ne.symm hc, hrun⟩), rfl, h⟩
        · rintro ⟨run, rest, hrun, hcs, h⟩
          -- Either the star stands for nothing, or its run begins with the first character.
          cases run with
          | nil => exact .inl (hcs ▸ h)
          | cons d run =>
            obtain ⟨rfl, rfl⟩ := List.cons.inj hcs
            obtain ⟨hd, hrun⟩ := not_or.1 (mt List.mem_cons.2 hrun)
            exact .inr ⟨Ne.symm hd, run, rest, hrun, rfl, h⟩
    · rw [fills_char hp]
      cases cs with
      | nil => simp [wildcardMatches_char_nil hp]
      | cons c cs =>
        rw [wildcardMatches_char_cons hp, Bool.and_eq_true, beq_iff_eq, ih]
        simp [and_assoc, eq_comm]

end Text

/-! ### Chains of names -/

/-- The path from a path along some names. -/
def Path.along (p : Path) (names : List String) : Path := names.foldl (fun p name => p.join ⟨name⟩) p

namespace FileTree

variable {t : FileTree} {p : Path} {segment : List Char} {segments : List (List Char)} {names : List String}

/-- A chain of names that the segments of a pattern stand for: a segment without a star for itself, and one with
stars for an entry of the directory that the names before it lead to, with runs in the place of the stars. -/
inductive Globs (t : FileTree) (Run : List Char → Prop) : Path → List (List Char) → List String → Prop where
  | nil (p : Path) : Globs t Run p [] []
  | literal {p : Path} {segment : List Char} {segments : List (List Char)} {names : List String}
      (hs : '*' ∉ segment) (h : Globs t Run (p.join ⟨String.ofList segment⟩) segments names) :
      Globs t Run p (segment :: segments) (String.ofList segment :: names)
  | wild {p : Path} {segment : List Char} {segments : List (List Char)} {name : String} {names : List String}
      {listed : List (String × Node)} (hs : '*' ∈ segment) (hl : t.list p = .ok listed)
      (hn : name ∈ listed.map Prod.fst) (hf : Text.Fills Run segment name.toList)
      (h : Globs t Run (p.join ⟨name⟩) segments names) : Globs t Run p (segment :: segments) (name :: names)

/-- The names of the entries of a directory that match, in their order. -/
def matchingNames (t : FileTree) (p : Path) (segment : List Char) : List String :=
  match t.list p with
  | .error _ => []
  | .ok entries =>
    ((entries.map Prod.fst).filter fun name => Text.wildcardMatches segment name.toList).mergeSort
      fun a b => decide (a ≤ b)

theorem matching_eq (t : FileTree) (p : Path) (segment : List Char) :
    t.matching p segment = (t.matchingNames p segment).map fun name => p.join ⟨name⟩ := by
  rw [matching, matchingNames]
  cases t.list p <;> rfl

theorem mem_matchingNames {name : String} :
    name ∈ t.matchingNames p segment ↔
      ∃ listed, t.list p = .ok listed ∧ name ∈ listed.map Prod.fst ∧ Text.Fills ('\n' ∉ ·) segment name.toList := by
  rw [matchingNames]
  cases hl : t.list p with
  | error fault => simp
  | ok listed => simp [List.mem_mergeSort, Text.wildcardMatches_iff]

theorem pairwise_matchingNames (t : FileTree) (p : Path) (segment : List Char) :
    (t.matchingNames p segment).Pairwise (· < ·) := by
  rw [matchingNames]
  cases hl : t.list p with
  | error fault => exact List.Pairwise.nil
  | ok listed =>
    obtain ⟨entries, -, rfl⟩ := list_eq_ok_iff.1 hl
    let matched := ((Node.distinct entries).map Prod.fst).filter fun name =>
      Text.wildcardMatches segment name.toList
    have hsorted : (matched.mergeSort fun a b => decide (a ≤ b)).Pairwise fun a b => decide (a ≤ b) = true :=
      List.pairwise_mergeSort (by simpa using fun a b c => String.le_trans) (by simpa using String.le_total) _
    have hnodup : (matched.mergeSort fun a b => decide (a ≤ b)).Nodup :=
      (List.mergeSort_perm _ _).nodup_iff.2 ((Node.nodup_map_fst_distinct entries).filter _)
    refine (hsorted.and hnodup).imp fun ⟨hle, hne⟩ => ?_
    exact String.not_le.1 fun hge => hne (String.le_antisymm (of_decide_eq_true hle) hge)

/-- The names that can follow a path for a segment. -/
def nextNames (t : FileTree) (p : Path) (segment : List Char) : List String :=
  if segment.contains '*' then t.matchingNames p segment else [String.ofList segment]

theorem pairwise_nextNames (t : FileTree) (p : Path) (segment : List Char) :
    (t.nextNames p segment).Pairwise (· < ·) := by
  unfold nextNames
  split
  · exact t.pairwise_matchingNames p segment
  · exact List.pairwise_singleton _ _

/-- The chains of names that segments stand for, those with the same first name next to each other. -/
def chains (t : FileTree) (p : Path) : List (List Char) → List (List String)
  | [] => [[]]
  | segment :: segments =>
    (t.nextNames p segment).flatMap fun name => (t.chains (p.join ⟨name⟩) segments).map (name :: ·)

theorem followPattern_eq (t : FileTree) (reached : List Path) (segments : List (List Char)) :
    t.followPattern reached segments = reached.flatMap fun p => (t.chains p segments).map p.along := by
  induction segments generalizing reached with
  | nil => simp [followPattern, chains, Path.along]
  | cons segment segments ih =>
    have hnext : (if segment.contains '*' then reached.flatMap (t.matching · segment)
        else reached.map (·.join ⟨String.ofList segment⟩)) =
        reached.flatMap fun p => (t.nextNames p segment).map fun name => p.join ⟨name⟩ := by
      unfold nextNames
      split
      · simp only [matching_eq]
      · exact List.map_eq_flatMap
    rw [followPattern, hnext, ih]
    simp only [chains, List.flatMap_assoc, List.flatMap_map, List.map_flatMap, List.map_map]
    rfl

/-- The chains come in the order of names, by induction on the segments. -/
theorem pairwise_chains (t : FileTree) (p : Path) (segments : List (List Char)) :
    (t.chains p segments).Pairwise (· < ·) := by
  induction segments generalizing p with
  | nil => exact List.pairwise_singleton _ _
  | cons segment segments ih =>
    rw [chains, List.pairwise_flatMap]
    constructor
    · intro name _
      refine List.pairwise_map.2 ((ih (p.join ⟨name⟩)).imp fun h => ?_)
      exact List.cons_lt_cons_iff.2 (.inr ⟨rfl, h⟩)
    · refine (t.pairwise_nextNames p segment).imp fun {name name'} hlt chain hc chain' hc' => ?_
      obtain ⟨rest, -, rfl⟩ := List.mem_map.1 hc
      obtain ⟨rest', -, rfl⟩ := List.mem_map.1 hc'
      exact List.cons_lt_cons_iff.2 (.inl hlt)

theorem mem_chains_iff : names ∈ t.chains p segments ↔ t.Globs ('\n' ∉ ·) p segments names := by
  induction segments generalizing p names with
  | nil =>
    rw [chains, List.mem_singleton]
    constructor
    · rintro rfl
      exact .nil p
    · rintro ⟨⟩
      rfl
  | cons segment segments ih =>
    rw [chains, List.mem_flatMap]
    constructor
    · rintro ⟨name, hn, hc⟩
      obtain ⟨names, hnames, rfl⟩ := List.mem_map.1 hc
      unfold nextNames at hn
      split at hn
      · next hs =>
        obtain ⟨listed, hl, hmem, hf⟩ := mem_matchingNames.1 hn
        exact .wild (List.contains_iff_mem.1 hs) hl hmem hf (ih.1 hnames)
      · next hs =>
        obtain rfl := List.mem_singleton.1 hn
        exact .literal (mt List.contains_iff_mem.2 hs) (ih.1 hnames)
    · intro h
      cases h with
      | literal hs h =>
        refine ⟨_, ?_, List.mem_map_of_mem (ih.2 h)⟩
        rw [nextNames, if_neg (mt List.contains_iff_mem.1 hs)]
        exact List.mem_singleton_self _
      | wild hs hl hn hf h =>
        refine ⟨_, ?_, List.mem_map_of_mem (ih.2 h)⟩
        rw [nextNames, if_pos (List.contains_iff_mem.2 hs)]
        exact mem_matchingNames.2 ⟨_, hl, hn, hf⟩

theorem Globs.mono {Run Run' : List Char → Prop} (h : t.Globs Run p segments names)
    (hr : ∀ {p : Path} {segment : List Char} {listed : List (String × Node)} {name : String},
      t.list p = .ok listed → name ∈ listed.map Prod.fst → Text.Fills Run segment name.toList →
        Text.Fills Run' segment name.toList) :
    t.Globs Run' p segments names := by
  induction h with
  | nil p => exact .nil p
  | literal hs _ ih => exact .literal hs ih
  | wild hs hl hn hf _ ih => exact .wild hs hl hn (hr hl hn hf) ih

theorem exists_of_mem_globs {Run : List Char → Prop} (h : t.Globs Run p segments names) :
    ∀ name ∈ names, (∃ segment ∈ segments, String.ofList segment = name) ∨
      ∃ e ∈ t.root.entriesUnder [], e.2.1 = name := by
  induction h with
  | nil p => exact List.forall_mem_nil _
  | @literal p segment segments names hs h ih =>
    refine List.forall_mem_cons.2 ⟨.inl ⟨segment, List.mem_cons_self, rfl⟩, fun name hn => ?_⟩
    exact (ih name hn).imp_left fun ⟨s, hs, he⟩ => ⟨s, List.mem_cons_of_mem _ hs, he⟩
  | wild hs hl hn hf h ih =>
    refine List.forall_mem_cons.2 ⟨.inr (exists_of_mem_list hl hn), fun name hn => ?_⟩
    exact (ih name hn).imp_left fun ⟨s, hs, he⟩ => ⟨s, List.mem_cons_of_mem _ hs, he⟩

/-! ### Paths -/

/-- Along names that are single steps one path leads, and along other names another. -/
theorem Path.steps_along (hn : ∀ name ∈ names, name ≠ "" ∧ '/' ∉ name.toList) :
    (p.along names).steps = p.steps ++ names := by
  induction names generalizing p with
  | nil => exact (List.append_nil _).symm
  | cons name names ih =>
    obtain ⟨⟨hne, hfree⟩, hnames⟩ := List.forall_mem_cons.1 hn
    have hcons : p.along (name :: names) = (p.join ⟨name⟩).along names := rfl
    rw [hcons, ih hnames, Path.steps_join_of_not_mem hne hfree, List.append_assoc]
    rfl

/-- The segments of a pattern, between its slashes. -/
def segmentsOf (pattern : String) : List (List Char) :=
  (Text.fields (· == '/') pattern.toList).filter (!·.isEmpty)

theorem expandPattern_eq (t : FileTree) (root : Path) (pattern : String) :
    t.expandPattern root pattern = (t.chains root (segmentsOf pattern)).map root.along := by
  rw [expandPattern, followPattern_eq]
  exact List.flatMap_singleton _ _

theorem segmentsOf_spec {pattern : String} {segment : List Char} (h : segment ∈ segmentsOf pattern) :
    segment ≠ [] ∧ '/' ∉ segment := by
  obtain ⟨hmem, hne⟩ := List.mem_filter.1 h
  exact ⟨by simpa using hne, Text.not_mem_of_mem_fields hmem⟩

/-- A pattern is expanded to the paths along the chains of names that it stands for, if runs without line feeds go
in the place of stars. The paths come in the order of the chains, and none of them comes twice. If no name in the
tree holds a line feed, then no run can, and the chains are all that the pattern stands for. -/
theorem expandPattern_globs (ht : ∀ e ∈ t.root.entriesUnder [], IsFileName e.2.1) (root : Path) (pattern : String) :
    (t.expandPattern root pattern).Nodup ∧
      ∃ found : List (List String), t.expandPattern root pattern = found.map root.along ∧
        found.Pairwise (· < ·) ∧
        (∀ names, names ∈ found ↔ t.Globs ('\n' ∉ ·) root (segmentsOf pattern) names) ∧
        ((∀ e ∈ t.root.entriesUnder [], '\n' ∉ e.2.1.toList) →
          ∀ names, names ∈ found ↔ t.Globs (fun _ => True) root (segmentsOf pattern) names) := by
  have hsorted := t.pairwise_chains root (segmentsOf pattern)
  have hsteps : ∀ names ∈ t.chains root (segmentsOf pattern), (root.along names).steps = root.steps ++ names := by
    intro names hc
    refine Path.steps_along fun name hn => ?_
    rcases exists_of_mem_globs (mem_chains_iff.1 hc) name hn with ⟨segment, hs, rfl⟩ | ⟨e, he, rfl⟩
    · obtain ⟨hne, hfree⟩ := segmentsOf_spec hs
      exact ⟨by simpa using hne, by simpa using hfree⟩
    · exact ⟨(ht e he).ne_empty, (ht e he).free⟩
  refine ⟨?_, t.chains root (segmentsOf pattern), t.expandPattern_eq root pattern, hsorted,
    fun names => mem_chains_iff, fun hfeed names => ?_⟩
  · have hne : ∀ {names names' : List String}, names < names' → names ≠ names' := fun hlt he =>
      List.lt_irrefl _ (he ▸ hlt)
    have hnodup : (t.chains root (segmentsOf pattern)).Nodup := hsorted.imp hne
    rw [expandPattern_eq]
    refine hnodup.map_on fun names hc names' hc' he => ?_
    have he := congrArg Path.steps he
    rw [hsteps names hc, hsteps names' hc'] at he
    exact List.append_cancel_left he
  · rw [mem_chains_iff]
    constructor
    · exact fun h => h.mono fun _ _ hf => hf.mono fun _ _ => trivial
    · refine fun h => h.mono fun hl hn hf => hf.of_not_mem ?_
      obtain ⟨e, he, rfl⟩ := exists_of_mem_list hl hn
      exact hfeed e he

/-- Two names match the first segment and two the second. A dot in a pattern is no other character, and an empty
segment is none. -/
theorem expandPattern_globs_of_dots :
    let python (name : String) : String × Node := (name, .directory [("site-packages", .directory [])])
    let t : FileTree := ⟨.directory [("lib64", .file .empty),
      ("lib", .directory [python "python3.9", python "perl5", python "python3.11", python "python3x9"])], []⟩
    let root : Path := ⟨"."⟩
    let pattern := "lib*//py*3.*/site-packages"
    (∀ e ∈ t.root.entriesUnder [], IsFileName e.2.1) ∧ (∀ e ∈ t.root.entriesUnder [], '\n' ∉ e.2.1.toList) ∧
      (t.expandPattern root pattern).Nodup ∧
      ∃ found : List (List String), t.expandPattern root pattern = found.map root.along ∧
        found.Pairwise (· < ·) ∧ ["lib", "python3.11", "site-packages"] ∈ found ∧
        ∀ names, names ∈ found ↔ t.Globs (fun _ => True) root (segmentsOf pattern) names := by
  intro python t root pattern
  have ht : ∀ e ∈ t.root.entriesUnder [], IsFileName e.2.1 := by decide +kernel
  have hfeed : ∀ e ∈ t.root.entriesUnder [], '\n' ∉ e.2.1.toList := by decide +kernel
  obtain ⟨hnodup, found, hfound, hsorted, -, hglobs⟩ := expandPattern_globs ht root pattern
  have hsegments : segmentsOf pattern = ["lib*".toList, "py*3.*".toList, "site-packages".toList] := by
    decide +kernel
  have hfirst : Text.Fills (fun _ => True) "lib*".toList "lib".toList :=
    ⟨[[]], by decide +kernel, fun _ _ => trivial, by decide +kernel⟩
  have hsecond : Text.Fills (fun _ => True) "py*3.*".toList "python3.11".toList :=
    ⟨["thon".toList, "11".toList], by decide +kernel, fun _ _ => trivial, by decide +kernel⟩
  have hchain : t.Globs (fun _ => True) root (segmentsOf pattern) ["lib", "python3.11", "site-packages"] := by
    have hlist (p : Path) (name : String) (h : (t.list p).toOption.any (name ∈ ·.map Prod.fst) = true) :
        ∃ listed, t.list p = .ok listed ∧ name ∈ listed.map Prod.fst := by
      cases hl : t.list p with
      | error fault => simp [hl, Except.toOption] at h
      | ok listed => exact ⟨listed, rfl, by simpa [hl, Except.toOption] using h⟩
    obtain ⟨top, htop, hlib⟩ := hlist root "lib" (by decide +kernel)
    obtain ⟨inner, hinner, hpython⟩ := hlist (root.join ⟨"lib"⟩) "python3.11" (by decide +kernel)
    rw [hsegments]
    exact .wild (by decide) htop hlib hfirst
      (.wild (by decide) hinner hpython hsecond (.literal (by decide) (.nil _)))
  exact ⟨ht, hfeed, hnodup, found, hfound, hsorted, (hglobs hfeed _).2 hchain, hglobs hfeed⟩

/-- The line feed at the end of a name keeps a star from standing for the rest of it. -/
theorem expandPattern_ne_of_lineFeed :
    let t : FileTree := ⟨.directory [("opt", .directory [("x", .directory [("lib", .directory
      [("python3\n", .directory [("site-packages", .directory [("m.py", .file .empty)])])])])])], []⟩
    let names := ["lib", "python3\n", "site-packages"]
    (∀ e ∈ t.root.entriesUnder [], IsFileName e.2.1) ∧
      t.Globs (fun _ => True) ⟨"opt/x"⟩ (segmentsOf "lib/python*/site-packages") names ∧
      t.holdsEntry (Path.along ⟨"opt/x"⟩ names) = true ∧
      t.expandPattern ⟨"opt/x"⟩ "lib/python*/site-packages" = [] := by
  intro t names
  refine ⟨by decide +kernel, ?_, by decide +kernel, by decide +kernel⟩
  have hsegments : segmentsOf "lib/python*/site-packages" =
      ["lib".toList, "python*".toList, "site-packages".toList] := by decide +kernel
  have hfills : Text.Fills (fun _ => True) "python*".toList "python3\n".toList :=
    ⟨["3\n".toList], by decide +kernel, fun _ _ => trivial, by decide +kernel⟩
  rw [hsegments]
  exact .literal (by decide) (.wild (by decide) rfl (by decide +kernel) hfills (.literal (by decide) (.nil _)))

end FileTree

end EnvModules
