import EnvModules.Proofs.DryRun
import EnvModules.Proofs.Spelling
import EnvModules.Proofs.Unload

/-!
Modules that are unloaded or displayed. No guard is enforced on them and they bring in no other module, so that
nothing can go wrong in a descriptor but that a root is no directory. Main statement: whatever a module asks for,
its unload takes at most one entry out of the record, which is its own unless its name ends in a blank.
-/

namespace EnvModules

open Statement

namespace Subject

variable {s : Subject} {e e' : Evaluation} {st : Statement} {block : List Statement} {fault : Fault}

/-- The fault of an installation whose root is no directory. -/
def MissesRoot (s : Subject) (e : Evaluation) (root : String) (fault : Fault) : Prop :=
  s.site.tree.isDirectory ⟨e.machine.env.expand root⟩ = false ∧
    fault = .missingRoot ⟨e.machine.env.expand root⟩

theorem verdict_eq_error (hm : s.mode ≠ .load) (h : s.verdict e st = .error fault) :
    ∃ root, st = .installTree root ∧ s.MissesRoot e root fault := by
  cases st with
  | installTree root =>
    rw [verdict] at h
    split at h
    · cases h
    · next hd => exact ⟨root, rfl, by simpa using hd, (Except.error.inj h).symm⟩
  | require names =>
    rw [verdict, if_neg fun hr => hm hr.1] at h
    cases h
  | conflict names =>
    rw [verdict] at h
    split at h
    · rw [if_neg hm] at h
      cases h
    · cases h
  | _ => cases h

/-- An installation that is refused has not begun. -/
theorem runStatement_eq_error (hm : s.mode ≠ .load) (hp : s.IsPlain st)
    (h : s.runStatement st e = (.error fault, e')) :
    ∃ root, st = .installTree root ∧ s.MissesRoot e' root fault := by
  rw [s.runStatement_of_isPlain hp] at h
  obtain ⟨hv, he⟩ := Prod.ext_iff.1 h
  obtain ⟨root, rfl, hd, rfl⟩ := verdict_eq_error hm hv
  have hi : s.intents e.machine.env (.installTree root) = [] := by
    rw [intents, installingTree, hd, if_neg Bool.false_ne_true]
  obtain rfl : e = e' := by
    rw [hi] at he
    exact he
  exact ⟨root, rfl, hd, rfl⟩

theorem runBlock_eq_error (hm : s.mode ≠ .load) (h : s.runBlock block e = (.error fault, e')) :
    ∃ root, .installTree root ∈ blockLeaves block ∧ s.MissesRoot e' root fault := by
  induction block using Statement.block_induction generalizing e with
  | nil =>
    rw [s.runBlock_nil_apply] at h
    exact absurd h.symm error_ne_ok
  | simple st rest hst ih =>
    rw [s.runBlock_cons_apply] at h
    rw [blockLeaves, leaves_of_ne_choose hst]
    rcases proceed_eq_error h with h | ⟨_, e₁, -, h⟩
    · obtain ⟨root, rfl, hroot⟩ := runStatement_eq_error hm (s.isPlain_of_mode_ne hm hst) h
      exact ⟨root, List.mem_cons_self, hroot⟩
    · obtain ⟨root, hmem, hroot⟩ := ih h
      exact ⟨root, List.mem_cons_of_mem _ hmem, hroot⟩
  | choose branches otherwise rest hb ho ih =>
    rw [s.runBlock_cons_apply] at h
    rw [blockLeaves, leaves]
    rcases proceed_eq_error h with h | ⟨_, e₁, -, h⟩
    · -- The block that is chosen is one of those inside the choice.
      rw [s.runStatement_choose_apply] at h
      let Inside (chosen : List Statement) : Prop := s.runBlock chosen e = (.error fault, e') →
        ∃ root, .installTree root ∈ branchLeaves branches ++ blockLeaves otherwise ∧ s.MissesRoot e' root fault
      have hchosen : Inside (s.chosen e otherwise branches) := by
        apply s.chosen_induction (P := Inside) e
        · intro b hmem hrun
          obtain ⟨root, hin, hroot⟩ := hb b hmem hrun
          exact ⟨root, List.mem_append_left _ (blockLeaves_subset_branchLeaves hmem hin), hroot⟩
        · intro hrun
          obtain ⟨root, hin, hroot⟩ := ho hrun
          exact ⟨root, List.mem_append_right _ hin, hroot⟩
      obtain ⟨root, hin, hroot⟩ := hchosen h
      exact ⟨root, List.mem_append_left _ hin, hroot⟩
    · obtain ⟨root, hmem, hroot⟩ := ih h
      exact ⟨root, List.mem_append_right _ hmem, hroot⟩

section Nested

variable {site : Site} {name : Name} {mode : Mode} {nested nested' : Mode → List String → TransitionM Unit}

theorem chosen_congr_nested (e : Evaluation) (otherwise : List Statement)
    (branches : List (Condition × List Statement)) :
    chosen ⟨site, name, mode, nested⟩ e otherwise branches =
      chosen ⟨site, name, mode, nested'⟩ e otherwise branches := by
  induction branches with
  | nil => rfl
  | cons branch rest ih => rw [chosen, chosen, ih]

/-- Unless a module is loaded, it makes no difference how it would bring in others. -/
theorem runBlock_congr_nested (hm : mode ≠ .load) (block : List Statement) (e : Evaluation) :
    runBlock ⟨site, name, mode, nested⟩ block e = runBlock ⟨site, name, mode, nested'⟩ block e := by
  let Same (block : List Statement) : Prop := ∀ e : Evaluation,
    runBlock ⟨site, name, mode, nested⟩ block e = runBlock ⟨site, name, mode, nested'⟩ block e
  have cons {st : Statement} {rest : List Statement} {e : Evaluation}
      (hst : runStatement ⟨site, name, mode, nested⟩ st e = runStatement ⟨site, name, mode, nested'⟩ st e)
      (hr : Same rest) :
      runBlock ⟨site, name, mode, nested⟩ (st :: rest) e =
        runBlock ⟨site, name, mode, nested'⟩ (st :: rest) e := by
    rw [runBlock_cons_apply, runBlock_cons_apply, hst]
    exact congrArg _ (funext fun _ => funext hr)
  induction block using Statement.block_induction generalizing e with
  | nil => rfl
  | simple st rest hst ih =>
    refine cons ?_ fun e => ih e
    -- What a plain statement comes down to is said without other modules.
    rw [runStatement_of_isPlain _ (isPlain_of_mode_ne _ hm hst),
      runStatement_of_isPlain _ (isPlain_of_mode_ne _ hm hst)]
    cases st <;> rfl
  | choose branches otherwise rest hb ho ih =>
    refine cons ?_ fun e => ih e
    have hchosen : Same (chosen ⟨site, name, mode, nested⟩ e otherwise branches) :=
      chosen_induction (P := Same) _ e (fun b hmem e => hb b hmem e) fun e => ho e
    have hsame : chosen ⟨site, name, mode, nested⟩ e otherwise branches =
        chosen ⟨site, name, mode, nested'⟩ e otherwise branches := chosen_congr_nested e otherwise branches
    rw [runStatement_choose_apply, runStatement_choose_apply, hchosen e, hsame]

end Nested

theorem visits_runBlock (hm : s.mode ≠ .load) (block : List Statement) (e : Evaluation) :
    (s.runBlock block e).2.machine.visits = e.machine.visits := by
  rw [s.machine_runBlock (fun _ _ _ => []) hm, Intent.visits_performAll]

end Subject

/-- Taking a segment out of a list variable takes it out of what is written there, apart from what is empty. -/
theorem Environment.filter_segments_changePath (env : Environment) (segment name : String) :
    ((env.changePath false segment name).1.segments name).filter (!·.isEmpty) =
      ((env.segments name).filter (!·.isEmpty)).erase segment := by
  have hg : (env.changePath false segment name).1.get? name =
      some (":".intercalate ((env.segments name).erase segment)) := by
    rw [get?_changePath, if_pos rfl]
    rfl
  have hf : ∀ s ∈ (env.segments name).erase segment, ':' ∉ s.toList := fun s hs =>
    (env.isEntries_segments name).free s (List.mem_of_mem_erase hs)
  rw [filter_segments_of_get? hf hg, List.erase_filter]

/-- One entry at most goes with a segment, namely what the segment is read as. -/
theorem Loaded.entries_changePath (env : Environment) (segment : String) :
    let before := (ofEnvironment env).entries
    let after := (ofEnvironment (env.changePath false segment loadedVariable).1).entries
    after = before ∨ segment ≠ "" ∧
      ∃ front back, before = front ++ Name.parse segment :: back ∧ after = front ++ back := by
  intro before after
  have hafter : after = (((env.segments loadedVariable).filter (!·.isEmpty)).erase segment).map Name.parse := by
    rw [← env.filter_segments_changePath]
    rfl
  by_cases hs : segment ∈ (env.segments loadedVariable).filter (!·.isEmpty)
  · obtain ⟨front, back, -, hbefore, herase⟩ := List.exists_erase_eq hs
    refine .inr ⟨by simpa using (List.mem_filter.1 hs).2, front.map Name.parse, back.map Name.parse, ?_, ?_⟩
    · show List.map _ _ = _
      rw [hbefore, List.map_append, List.map_cons]
    · rw [hafter, herase, List.map_append]
  · left
    rw [hafter, List.erase_of_not_mem hs]
    rfl

namespace Site

variable {s : Site} (depth : Nat) (nested : Mode → List String → TransitionM Unit)

/-- The descriptor of a module that is unloaded leaves the record alone, if no statement is about it. Only if
all of it has been run is the module taken out. -/
theorem visit_unload_spares {found : Resolved}
    (hspares : ∀ st ∈ blockLeaves (s.body found.path), loadedVariable ∉ s.config.targets found.name st)
    (m : Machine) :
    ∃ last : Machine, last.env.get? loadedVariable = m.env.get? loadedVariable ∧
      ((s.visit depth nested .unload found m).2 = last ∨
        (s.visit depth nested .unload found m).2 = last.leaving .unload found.name) := by
  rw [s.visit_apply]
  cases hst : s.statements found.path with
  | error fault => exact ⟨m, rfl, .inl rfl⟩
  | ok statements =>
    obtain rfl : s.body found.path = statements := by rw [body, hst]; rfl
    have hm : Mode.unload ≠ .load := by decide
    have ha := Subject.agreesAt_runBlock ⟨s, found.name, .unload, nested⟩ (fun _ _ => .inl hm) hspares
      ⟨m.entering depth .unload found.name, .equal⟩
    simp only [EvaluationM.toTransition]
    rcases hrun : Subject.runBlock ⟨s, found.name, .unload, nested⟩ (s.body found.path)
      ⟨m.entering depth .unload found.name, .equal⟩ with ⟨fault | u, e⟩ <;> rw [hrun] at ha
    · exact ⟨e.machine, ha.value, .inl rfl⟩
    · exact ⟨e.machine, ha.value, .inr rfl⟩

theorem entries_visit_unload {found : Resolved}
    (hspares : ∀ st ∈ blockLeaves (s.body found.path), loadedVariable ∉ s.config.targets found.name st)
    (m : Machine) :
    let before := m.loaded.entries
    let after := (s.visit depth nested .unload found m).2.loaded.entries
    after = before ∨ found.name.text ≠ "" ∧
      ∃ front back, before = front ++ Name.parse found.name.text :: back ∧ after = front ++ back := by
  intro before after
  obtain ⟨last, hvalue, hvisit⟩ := visit_unload_spares depth nested hspares m
  have hlast : last.loaded = m.loaded :=
    Loaded.ofEnvironment_congr (by rw [Environment.getNonEmpty?, hvalue]; rfl)
  rcases hvisit with hvisit | hvisit
  · left
    rw [show after = last.loaded.entries from by rw [← hvisit], hlast]
  · have hafter : after = (last.leaving .unload found.name).loaded.entries := by rw [← hvisit]
    have hbefore : before = last.loaded.entries := by rw [hlast]
    rw [hafter, hbefore, Machine.loaded, Machine.loaded]
    cases hd : last.backend.isDisplay with
    | true => exact .inl (by rw [Machine.env_leaving_of_isDisplay _ _ hd])
    | false =>
      rw [Machine.env_leaving_unload _ hd]
      exact Loaded.entries_changePath last.env found.name.text

/-- A module that is unloaded or displayed does nothing but what its own statements ask for. It fails at most
for a root that is no directory, it evaluates no other descriptor, however it would do so on a load, and every
variable that no statement is about stays as it was. An unload takes at most one entry out of the record, which
is that of the module itself exactly if its name does not end in a blank. -/
theorem runBlock_unguarded (s : Site) :
    (∀ (name : Name) (mode : Mode) (nested nested' : Mode → List String → TransitionM Unit)
        (block : List Statement) (e : Evaluation), mode ≠ .load →
      let subject : Subject := ⟨s, name, mode, nested⟩
      let done := subject.runBlock block e
      (done.1 = .ok () ∨ ∃ root, .installTree root ∈ blockLeaves block ∧
          s.tree.isDirectory ⟨done.2.machine.env.expand root⟩ = false ∧
          done.1 = .error (.missingRoot ⟨done.2.machine.env.expand root⟩)) ∧
        Subject.runBlock ⟨s, name, mode, nested'⟩ block e = done ∧
        done.2.machine.visits = e.machine.visits ∧
        ∀ k, (∀ st ∈ blockLeaves block, k ∉ s.config.targets name st) →
          e.machine.AgreesAt k done.2.machine) ∧
      ∀ (name : String) (m : Machine),
        (∀ found, s.visited m.loaded name .unload = .ok (some found) →
          ∀ st ∈ blockLeaves (s.body found.path), loadedVariable ∉ s.config.targets found.name st) →
        let before := m.loaded.entries
        let after := (s.run .unload [name] m).2.loaded.entries
        after = before ∨ ∃ found front back, s.visited m.loaded name .unload = .ok (some found) ∧
          before = front ++ Name.parse found.name.text :: back ∧ after = front ++ back ∧
          (Name.parse found.name.text = found.name ↔ found.name.endsSolid = true) := by
  constructor
  · intro name mode nested nested' block e hm subject done
    refine ⟨?_, Subject.runBlock_congr_nested hm block e, subject.visits_runBlock hm block e, ?_⟩
    · rcases hdone : done with ⟨fault | u, e'⟩
      · obtain ⟨root, hin, hd, rfl⟩ := Subject.runBlock_eq_error (s := subject) hm hdone
        exact .inr ⟨root, hin, hd, rfl⟩
      · exact .inl rfl
    · intro k hk
      exact subject.agreesAt_runBlock (fun _ _ => .inl hm) hk e
  · intro name m hspares before after
    have hafter : after = (s.runOne (s.visit 0 (s.nestedWithin nestingLimit)) .unload name m).2.loaded.entries := by
      rw [← s.run_singleton_apply]
    rw [s.runOne_apply] at hafter
    rcases hv : s.visited m.loaded name .unload with fault | _ | found <;> rw [hv] at hafter
    · exact .inl hafter
    · exact .inl hafter
    · obtain ⟨-, -, -, hc⟩ := s.visited_unload_eq_ok hv
      rw [hafter]
      rcases entries_visit_unload _ _ (hspares found hv) m with h | ⟨hne, front, back, hbefore, hend⟩
      · exact .inl h
      · refine .inr ⟨found, front, back, rfl, hbefore, hend, ?_⟩
        -- An entry of the record has been read from some segment.
        obtain ⟨segment, -, hname⟩ := List.mem_map.1 (List.contains_iff_mem.1 hc)
        rw [← hname] at hne ⊢
        rw [← Name.parse_text_iff]
        exact (and_iff_right hne).symm

/-- Statements that would be refused on a load, or would load others, do nothing on the way to a root that is
missing. A module whose guards do not hold is taken out of the record from between two others. -/
theorem runBlock_unguarded_of_guards :
    let s : Site := ⟨.ofDescriptors [("gcc", ["conflict icc", "prereq none", "swap icc none"])], ⟨[⟨"/mods"⟩]⟩,
      .default⟩
    let fails (_ : Mode) (names : List String) : TransitionM Unit := throw (.tooDeep names)
    let inner : List Statement := [.load ["icc"], .require ["none"], .installTree "$R/none"]
    let block : List Statement := [.conflict ["icc"], .choose [(.mode .unload, inner)] [], .setVariable "1" "A"]
    let m : Machine := ⟨.ofVars (.ofList [("LOADEDENVMASTER", "icc:gcc:gmp"), ("R", "/opt")]), .silent, .unlimited, []⟩
    let done := Subject.runBlock ⟨s, ⟨"a", none⟩, .unload, fails⟩ block ⟨m, .equal⟩
    let after := (s.run .unload ["gcc"] m).2.loaded.entries
    done.1 = .error (.missingRoot ⟨"/opt/none"⟩) ∧
      Subject.runBlock ⟨s, ⟨"a", none⟩, .unload, fun _ _ => pure ()⟩ block ⟨m, .equal⟩ = done ∧
      done.2.machine.visits = [] ∧ m.AgreesAt loadedVariable done.2.machine ∧
      m.loaded.entries = [⟨"icc", none⟩, ⟨"gcc", none⟩, ⟨"gmp", none⟩] ∧
      (after = m.loaded.entries ∨ ∃ found front back, s.visited m.loaded "gcc" .unload = .ok (some found) ∧
        m.loaded.entries = front ++ Name.parse found.name.text :: back ∧ after = front ++ back ∧
        (Name.parse found.name.text = found.name ↔ found.name.endsSolid = true)) := by
  intro s fails inner block m done after
  obtain ⟨hblock, hrun⟩ := runBlock_unguarded s
  obtain ⟨-, hnested, hvisits, hspares⟩ :=
    hblock ⟨"a", none⟩ .unload fails (fun _ _ => pure ()) block ⟨m, .equal⟩ nofun
  refine ⟨?_, hnested, hvisits, hspares loadedVariable ?_, ?_, hrun "gcc" m ?_⟩
  · decide +kernel
  · decide +kernel
  · decide +kernel
  · intro found hv
    have hgcc : s.visited m.loaded "gcc" .unload = .ok (some ⟨⟨"gcc", none⟩, ⟨"/mods/gcc"⟩⟩) := by
      decide +kernel
    obtain rfl := Option.some.inj (Except.ok.inj (hgcc.symm.trans hv))
    decide +kernel

end Site

/-- Of two entries that differ in a blank at the end, the unload of the first takes out the second. -/
theorem Session.perform_unload_other_entry :
    let s : Session := .ofVars [("LOADEDENVMASTER", "gcc /:gcc ")]
    let tree := FileTree.ofDescriptors [("gcc ", [])]
    let done := s.perform tree (.unload ["gcc /"]) .silent .unlimited
    s.loaded.entries = [⟨"gcc ", none⟩, ⟨"gcc", none⟩] ∧
      ((s.site tree).body ⟨"/mods/gcc "⟩).isEmpty = true ∧ done.outcome = .ok () ∧
      done.visits = [⟨0, .unload, ⟨"gcc ", none⟩⟩] ∧ done.session.loaded.entries = [⟨"gcc ", none⟩] := by
  decide +kernel

end EnvModules
