import EnvModules.Proofs.Extent
import EnvModules.Proofs.Printing

/-!
The names of the variables that commands are about. A name is an identifier if a descriptor spells it out, and
also if it is put together from a package and an ending, unless the package begins with a digit. Main statement:
among all names that an operation stages a change for, those that are no identifiers belong to such packages.
-/

namespace EnvModules

open Statement

/-! ### Names that are put together -/

namespace Name

/-- Whether the package begins with a digit, which its stem then does as well. -/
def beginsWithDigit (n : Name) : Bool := n.package.toList.head?.any Char.isDigit

/-- The character that a stem has for one of the package. -/
def stemChar (c : Char) : Char := if c.isAlphanum then c.toUpper else '_'

theorem toList_stem (n : Name) : n.stem.toList = n.package.toList.map stemChar := String.toList_map

theorem lt_of_isAlphanum {c : Char} (h : c.isAlphanum = true) : c.toNat < 128 := by
  have hv : (decide ('A'.val ≤ c.val ∧ c.val ≤ 'Z'.val) ||
      (decide ('a'.val ≤ c.val) && decide (c.val ≤ 'z'.val)) ||
      (decide ('0'.val ≤ c.val) && decide (c.val ≤ '9'.val))) = true := h
  have hr : ((0x41 ≤ c.toNat ∧ c.toNat ≤ 0x5A) ∨ (0x61 ≤ c.toNat ∧ c.toNat ≤ 0x7A)) ∨
      (0x30 ≤ c.toNat ∧ c.toNat ≤ 0x39) := by
    simpa [UInt32.le_iff_toNat_le] using hv
  omega

/-- Every character becomes one of an identifier, and only a digit one that no identifier begins with. -/
theorem stemChar_spec (c : Char) :
    isIdentifierChar (stemChar c) = true ∧ ((stemChar c).isAlpha || stemChar c == '_') = !c.isDigit := by
  by_cases h : c.isAlphanum = true
  · have hall : ∀ n < 128, isIdentifierChar (stemChar (Char.ofNat n)) = true ∧
        ((stemChar (Char.ofNat n)).isAlpha || stemChar (Char.ofNat n) == '_') = !(Char.ofNat n).isDigit := by
      decide +kernel
    have hc := hall c.toNat (lt_of_isAlphanum h)
    rwa [Char.ofNat_toNat] at hc
  · have hd : c.isDigit = false := by
      rw [Char.isAlphanum, Bool.or_eq_true, not_or] at h
      simpa using h.2
    rw [stemChar, if_neg h, hd]
    decide

theorem isIdentifier_varName (n : Name) {ending : String} (h : isEnding ending = true) :
    isIdentifier (n.varName ending) = !n.beginsWithDigit := by
  have hstem : ∀ c ∈ n.stem.toList, isIdentifierChar c = true := by
    intro c hc
    rw [toList_stem] at hc
    obtain ⟨d, -, rfl⟩ := List.mem_map.1 hc
    exact (stemChar_spec d).1
  have hending : ∀ c ∈ ending.toList, isIdentifierChar c = true := by
    rw [isEnding, Bool.and_eq_true, List.all_eq_true] at h
    exact h.2
  have hall : ∀ c ∈ (n.varName ending).toList, isIdentifierChar c = true := by
    intro c hc
    simp only [varName, String.toList_append, List.mem_append] at hc
    rcases hc with (hc | hc) | hc
    · exact hstem c hc
    · rw [List.mem_singleton.1 hc]
      decide
    · exact hending c hc
  have htext : (n.varName ending).toList = n.package.toList.map stemChar ++ '_' :: ending.toList := by
    simp [varName, toList_stem]
  -- What is left to see is the first character. An empty package leaves the underscore in front.
  rw [isIdentifier, beginsWithDigit]
  rw [htext] at hall ⊢
  rcases hp : n.package.toList with _ | ⟨c, cs⟩ <;> rw [hp] at hall
  · have hrest := (List.forall_mem_cons.1 hall).2
    simpa [List.all_eq_true] using hrest
  · rw [List.map_cons, List.cons_append] at hall ⊢
    have hrest := (List.forall_mem_cons.1 hall).2
    simp only [List.all_eq_true.2 hrest, (stemChar_spec c).2, Bool.and_true, List.head?_cons, Option.any_some]

end Name

/-! ### Names in descriptors -/

theorem Statement.exists_of_mem_branchParts {branches : List (Condition × List Statement)} {st : Statement}
    (h : st ∈ branchParts branches) : ∃ branch ∈ branches, st ∈ blockParts branch.2 := by
  induction branches with
  | nil => exact absurd h List.not_mem_nil
  | cons first rest ih =>
    rw [branchParts] at h
    rcases List.mem_append.1 h with h | h
    · exact ⟨first, List.mem_cons_self, h⟩
    · obtain ⟨branch, hb, h⟩ := ih h
      exact ⟨branch, List.mem_cons_of_mem _ hb, h⟩

theorem Statement.wellFormed_of_mem_blockParts {block : List Statement} (h : BlockWellFormed block)
    {st : Statement} (hst : st ∈ blockParts block) : st.WellFormed := by
  induction block using Statement.block_induction with
  | nil => exact absurd hst List.not_mem_nil
  | simple first rest hf ih =>
    have hparts : first.parts = [first] := by
      cases first with
      | choose branches otherwise => exact absurd rfl (hf branches otherwise)
      | _ => rfl
    rw [blockParts, hparts] at hst
    rcases List.mem_cons.1 hst with rfl | hr
    · exact h.1
    · exact ih h.2 hr
  | choose branches otherwise rest hb ho ih =>
    obtain ⟨⟨hne, hbranches, hotherwise⟩, hrest⟩ := h
    rw [blockParts, parts, List.cons_append] at hst
    rcases List.mem_cons.1 hst with rfl | hst
    · exact ⟨hne, hbranches, hotherwise⟩
    · rcases List.mem_append.1 hst with hst | hr
      · rcases List.mem_append.1 hst with hst | hst
        · obtain ⟨branch, hbr, hst⟩ := exists_of_mem_branchParts hst
          exact hb branch hbr (branchesWellFormed_iff.1 hbranches branch hbr).2 hst
        · exact ho hotherwise hst
      · exact ih hrest hr

theorem Descriptor.wellFormed_of_read {source : String} {block : List Statement}
    (h : read source = .ok block) : BlockWellFormed block := by
  obtain ⟨-, lines, ht, hb⟩ := exists_block_of_read h
  exact hb.wellFormed (fitsLine_of_tokens? ht)

theorem Site.wellFormed_body (s : Site) (path : Path) : BlockWellFormed (s.body path) := by
  rw [body, statements]
  cases s.tree.readText path with
  | error fault => trivial
  | ok source =>
    cases hr : Descriptor.read source with
    | error fault =>
      simp only [hr]
      trivial
    | ok block =>
      simp only [hr]
      exact Descriptor.wellFormed_of_read hr

/-- A statement is about identifiers, and about names that are put together from its module and an ending. -/
theorem Config.isIdentifier_of_mem_targets {c : Config} {n : Name} {st : Statement} (hst : st.WellFormed)
    (hc : isIdentifier c.libraryVariable = true) {k : String} (hk : k ∈ c.targets n st) :
    isIdentifier k = true ∨ ∃ ending, isEnding ending = true ∧ k = n.varName ending := by
  have installed {location : Location} (hk : k ∈ c.installTargets n location) :
      isIdentifier k = true ∨ ∃ ending, isEnding ending = true ∧ k = n.varName ending := by
    rcases List.mem_cons.1 hk with rfl | hk
    · exact .inr ⟨location.ending, by cases location <;> decide, rfl⟩
    · left
      cases location with
      | lib => rwa [List.mem_singleton.1 hk]
      | headers => exact absurd hk List.not_mem_nil
      | _ =>
        rw [List.mem_singleton.1 hk]
        decide
  cases st with
  | setVariable value name | prependPath value name =>
    rw [List.mem_singleton.1 hk]
    exact .inl hst.2
  | setPackageVariable value ending => exact .inr ⟨ending, hst.2, List.mem_singleton.1 hk⟩
  | installTree root =>
    rcases List.mem_cons.1 hk with rfl | hk
    · exact .inr ⟨"ROOT", by decide, rfl⟩
    · obtain ⟨location, -, hk⟩ := List.mem_flatMap.1 hk
      exact installed hk
  | install location directory => exact installed hk
  | _ => exact absurd hk List.not_mem_nil

/-! ### Names in commands -/

/-- A flush takes up all commands, whether the stream takes all of their text or not. -/
theorem TransitionM.flush_of_commands {m : Machine} {dialect : Dialect} {batch : Bindings Change}
    (hb : m.backend = .commands dialect batch) :
    (flush m).2.backend = .commands dialect .empty ∧
      (flush m).2.streams.commands = (m.streams.commands.write (dialect.script batch)).2 := by
  simp only [flush, Backend.flush, hb]
  split <;> exact ⟨rfl, rfl⟩

namespace Session

variable {s : Session} {tree : FileTree} {op : Operation} {dialect : Dialect} {batch : Bindings Change}
variable {t : Streams}

/-- All that is staged, on top of an earlier batch, by the time when an operation writes or fails. -/
def stagedUpon (s : Session) (tree : FileTree) (op : Operation) (dialect : Dialect)
    (batch : Bindings Change) (t : Streams) : Bindings Change :=
  (op.staging (s.site tree) (s.machine (.commands dialect batch) t)).2.backend.staged

/-- What is staged in the end is staged before the flush, and what is written comes from there as well. -/
theorem commands_perform_upon (s : Session) (tree : FileTree) (op : Operation) (dialect : Dialect)
    (batch : Bindings Change) (t : Streams) :
    let done := s.perform tree op (.commands dialect batch) t
    let staged := s.stagedUpon tree op dialect batch t
    (done.backend.staged = .empty ∨ done.backend.staged = staged) ∧
      (done.streams.commands = t.commands ∨
        done.streams.commands = (t.commands.write (dialect.script staged)).2) := by
  intro done staged
  by_cases hop : ∃ names, op = .display names
  · obtain ⟨names, rfl⟩ := hop
    exact ⟨.inr rfl, .inl (commands_perform_display names)⟩
  have hop' (names : List String) : op ≠ .display names := fun he => hop ⟨names, he⟩
  let start := s.machine (.commands dialect batch) t
  have hd := TransitionM.maintains_iff_snd.1
    ((Machine.kept_dialect (some dialect)).staging (s.site tree) op) start rfl
  have hs := TransitionM.maintains_iff_snd.1
    ((Machine.kept_streams t).staging (s.site tree) op) start rfl
  have hb : done.backend = (op.transition (s.site tree) start).2.backend := rfl
  have ht : done.streams = (op.transition (s.site tree) start).2.streams := rfl
  have hstaged : staged = (op.staging (s.site tree) start).2.backend.staged := rfl
  rw [op.transition_eq _ hop', bind_apply] at hb ht
  rcases hm : op.staging (s.site tree) start with ⟨fault | _, m⟩ <;> rw [hm] at hd hs hb ht hstaged
  · -- Nothing is written, and all that was staged stays so.
    rw [hb, ht, hstaged]
    exact ⟨.inr rfl, .inl (congrArg Streams.commands hs)⟩
  · obtain ⟨written, hw⟩ := Backend.eq_commands_of_dialect? hd
    obtain ⟨hbackend, hcommands⟩ := TransitionM.flush_of_commands hw
    rw [hb, ht, hstaged, proceed_ok, hbackend, hcommands, hs, hw]
    exact ⟨.inl rfl, .inr rfl⟩

/-- A name for which a change is staged is an identifier, or put together for a module that is visited. -/
theorem isIdentifier_or_varName (hc : isIdentifier s.config.libraryVariable = true) {k : String}
    (hk : (s.stagedUpon tree op dialect batch t).get? k ≠ none) (hb : batch.get? k = none) :
    isIdentifier k = true ∨ ∃ visit ∈ (s.perform tree op (.commands dialect batch) t).visits,
      ∃ ending, isEnding ending = true ∧ k = visit.subject.varName ending := by
  -- A display stages nothing, so that all has been staged before it.
  have hop (names : List String) : op ≠ .display names := by
    rintro rfl
    exact hk hb
  by_cases hl : k = loadedVariable
  · rw [hl]
    exact .inl (by decide)
  let m := s.machine (.commands dialect batch) t
  obtain ⟨x, hx, ht⟩ : ∃ x ∈ op.trace (s.site tree) m, k ∈ x.targets := by
    by_contra hno
    have hspares := op.spares_staging (s.site tree) hl fun x hx ht => hno ⟨x, hx, ht⟩
    exact hk (hspares.staged.trans hb)
  obtain ⟨events, ha⟩ := (op.covers_staging (s.site tree)).accounts m
  obtain ⟨found, ho⟩ := ha.origin x hx
  rw [Step.targets, ho.site, ho.name] at ht
  have hst := wellFormed_of_mem_blockParts (Site.wellFormed_body _ _) ho.statement
  rcases Config.isIdentifier_of_mem_targets hst hc ht with hi | hv
  · exact .inl hi
  · obtain ⟨depth, hvisit⟩ := ho.visited
    rw [visits_perform op hop]
    exact .inr ⟨_, hvisit, hv⟩

/-- Whatever an operation leaves staged or has written as commands, it has staged by then. Of the names that
it stages a change for, those that are no identifiers are exactly those that are put together from an ending
and the package of a module that has been visited and whose package begins with a digit. -/
theorem perform_identifiers (s : Session) (tree : FileTree) (op : Operation) (dialect : Dialect)
    (batch : Bindings Change) (t : Streams) (hc : isIdentifier s.config.libraryVariable = true) :
    let done := s.perform tree op (.commands dialect batch) t
    let staged := s.stagedUpon tree op dialect batch t
    (done.backend.staged = .empty ∨ done.backend.staged = staged) ∧
      (done.streams.commands = t.commands ∨
        done.streams.commands = (t.commands.write (dialect.script staged)).2) ∧
      ∀ k, staged.get? k ≠ none → batch.get? k = none →
        (isIdentifier k = false ↔ ∃ visit ∈ done.visits, visit.subject.beginsWithDigit = true ∧
          ∃ ending, isEnding ending = true ∧ k = visit.subject.varName ending) := by
  intro done staged
  obtain ⟨hb, hw⟩ := s.commands_perform_upon tree op dialect batch t
  refine ⟨hb, hw, fun k hk hnew => ⟨?_, ?_⟩⟩
  · intro hi
    rcases isIdentifier_or_varName hc hk hnew with h | ⟨visit, hv, ending, he, rfl⟩
    · rw [h] at hi
      exact nomatch hi
    · rw [Name.isIdentifier_varName _ he, Bool.not_eq_false'] at hi
      exact ⟨visit, hv, hi, ending, he, rfl⟩
  · rintro ⟨visit, -, hd, ending, he, rfl⟩
    rw [Name.isIdentifier_varName _ he, hd]
    rfl

/-- A module brings in one whose package begins with a digit, on top of what an earlier one has staged. -/
theorem perform_identifiers_of_nested_digit :
    let s : Session := .ofVars [("P", "/usr")]
    let tree := FileTree.ofDescriptors [("a-b", ["setPkgVar 1 7", "load 7zip"]),
      ("7zip", ["setAll /mods", "setPath /7 P"])]
    let batch : Bindings Change := .ofList [("P", .unset)]
    let done := s.perform tree (.load ["a-b"]) (.commands .csh batch) .unlimited
    let staged := s.stagedUpon tree (.load ["a-b"]) .csh batch .unlimited
    (done.backend.staged = .empty ∨ done.backend.staged = staged) ∧
      (done.streams.commands = Streams.unlimited.commands ∨
        done.streams.commands = (Streams.unlimited.commands.write (Dialect.csh.script staged)).2) ∧
      ∀ k, staged.get? k ≠ none → batch.get? k = none →
        (isIdentifier k = false ↔ ∃ visit ∈ done.visits, visit.subject.beginsWithDigit = true ∧
          ∃ ending, isEnding ending = true ∧ k = visit.subject.varName ending) := by
  intro s tree batch
  apply perform_identifiers s tree (.load ["a-b"]) .csh batch .unlimited
  decide

/-- The command for a variable of such a package is no assignment to a shell. -/
theorem not_isIdentifier_of_digit :
    let s : Session := .ofVars []
    let tree := FileTree.ofDescriptors [("7zip", ["setPkgVar 1 ROOT"])]
    isIdentifier s.config.libraryVariable = true ∧
      (s.stagedUpon tree (.load ["7zip"]) .posix .empty .unlimited).get? "7ZIP_ROOT" ≠ none ∧
      (s.perform tree (.load ["7zip"]) (.commands .posix .empty) .unlimited).streams.commands.written =
        "export 7ZIP_ROOT='1';\nexport LOADEDENVMASTER='7zip';\n".toUTF8 ∧
      isIdentifier "7ZIP_ROOT" = false := by
  decide +kernel

end Session

end EnvModules
