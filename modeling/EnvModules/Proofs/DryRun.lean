import EnvModules.Proofs.Frame
import EnvModules.Proofs.Origin
import EnvModules.Proofs.Targets

/-!
Modules that are taken through the mode in which changes are only reported. It is the backend that has to see
to this: a display takes up no change, but any other one makes all that it is told of.
-/

namespace EnvModules

namespace Intent

/-- The visits have no say in what intents do. -/
theorem performAll_visits (forward : Bool) (intents : List Intent) (m : Machine) (visits : List Visit) :
    performAll forward { m with visits } intents = { performAll forward m intents with visits } := by
  induction intents generalizing m with
  | nil => rfl
  | cons i rest ih =>
    rw [performAll_cons, performAll_cons, ← ih]
    cases i <;> rfl

theorem performAll_of_isDisplay {m : Machine} (hd : m.backend.isDisplay = true) (forward : Bool)
    (intents : List Intent) :
    (performAll forward m intents).env = m.env ∧
      (performAll forward m intents).backend.staged = m.backend.staged := by
  induction intents generalizing m with
  | nil => exact ⟨rfl, rfl⟩
  | cons i rest ih =>
    obtain ⟨he, hs⟩ := apply_of_isDisplay hd forward (i.expanded m.env)
    have hrest := ih (m := (i.expanded m.env).apply forward m) (by rwa [Machine.isDisplay_apply])
    rw [performAll_cons, hrest.1, hrest.2]
    exact ⟨he, hs⟩

theorem performAll_of_reports {intents : List Intent} (h : ∀ i ∈ intents, i.target? = none)
    (forward : Bool) (m : Machine) :
    (performAll forward m intents).env = m.env ∧
      (performAll forward m intents).backend.staged = m.backend.staged := by
  induction intents generalizing m with
  | nil => exact ⟨rfl, rfl⟩
  | cons i rest ih =>
    obtain ⟨hi, hrest⟩ := List.forall_mem_cons.1 h
    rw [performAll_cons, (ih hrest _).1, (ih hrest _).2]
    cases i with
    | report effect name value => exact ⟨rfl, Machine.staged_report _ _ _ _⟩
    | _ => exact nomatch hi

/-- A change is staged under the name of its target. -/
theorem staged_apply {m : Machine} {dialect : Dialect} (hb : m.backend.dialect? = some dialect)
    (forward : Bool) (i : Intent) (k : String) :
    ((i.apply forward m).backend.staged.get? k ≠ none) ↔
      (m.backend.staged.get? k ≠ none ∨ i.target? = some k) := by
  obtain ⟨batch, hbatch⟩ := Backend.eq_commands_of_dialect? hb
  have hd : m.backend.isDisplay = false := by rw [hbatch]; rfl
  have staged (name : String) (change : Change) :
      (m.backend.stage name change).staged.get? k ≠ none ↔
        (m.backend.staged.get? k ≠ none ∨ some name = some k) := by
    rw [hbatch]
    simp only [Backend.stage, Backend.staged, Bindings.get?_insert, Option.some.injEq]
    by_cases hk : k = name
    · simp [hk]
    · simp [hk, Ne.symm hk]
  cases i with
  | assign value name =>
    rw [apply, Machine.setVariable_of_not_isDisplay _ _ _ _ hd]
    exact staged name _
  | prepend value name =>
    rw [apply, Machine.setPath_of_not_isDisplay _ _ _ _ hd]
    exact staged name _
  | report effect name value => simp [apply, Machine.report, target?]

theorem dialect?_apply (forward : Bool) (i : Intent) (m : Machine) :
    (i.apply forward m).backend.dialect? = m.backend.dialect? := by
  cases i <;> simp [apply, Machine.report]

theorem staged_performAll {m : Machine} {dialect : Dialect} (hb : m.backend.dialect? = some dialect)
    (forward : Bool) (intents : List Intent) (k : String) :
    ((performAll forward m intents).backend.staged.get? k ≠ none) ↔
      (m.backend.staged.get? k ≠ none ∨ ∃ i ∈ intents, i.target? = some k) := by
  induction intents generalizing m with
  | nil => simp
  | cons i rest ih =>
    have hone := staged_apply hb forward (i.expanded m.env) k
    rw [performAll_cons, ih (by rwa [dialect?_apply]), hone, target?_expanded]
    simp only [List.exists_mem_cons_iff, or_assoc]

end Intent

namespace Machine

variable {intents : List Intent} {m m' m'' : Machine}

/-- The second machine is what these intents make of the first one, apart from the visits. -/
def Leads (intents : List Intent) (m m' : Machine) : Prop :=
  m' = { Intent.performAll true m intents with visits := m'.visits }

theorem leads_nil (m : Machine) : Leads [] m m := rfl

theorem Leads.append {rest : List Intent} (h : Leads intents m m') (h' : Leads rest m' m'') :
    Leads (intents ++ rest) m m'' := by
  unfold Leads at h h' ⊢
  rw [Intent.performAll_append, h', h, Intent.performAll_visits]

/-- What has come of intents that were to be reported. A display has reported them. Any other backend has made
the changes that they ask for, so that nothing changes only if none of them is about a variable. -/
structure Shown (intents : List Intent) (m m' : Machine) : Prop where
  leads : Leads intents m m'
  idle : m.backend.isDisplay = true ∨ (∀ i ∈ intents, i.target? = none) →
    m'.env = m.env ∧ m'.backend.staged = m.backend.staged
  spares : ∀ k, (∀ i ∈ intents, i.target? ≠ some k) → m.Spares k m'
  staged : ∀ dialect, m.backend.dialect? = some dialect → ∀ k,
    m'.backend.staged.get? k ≠ none ↔
      (m.backend.staged.get? k ≠ none ∨ ∃ i ∈ intents, i.target? = some k)

theorem Leads.shown (h : Leads intents m m') : Shown intents m m' where
  leads := h
  idle hi := by
    rw [h]
    rcases hi with hd | hr
    · exact Intent.performAll_of_isDisplay hd true intents
    · exact Intent.performAll_of_reports hr true m
  spares k hk := by
    have hs := (AgreesAt.performAll hk true m).toSpares
    rw [h]
    exact ⟨hs.value, hs.pending, hs.staged⟩
  staged dialect hb k := by
    rw [h]
    exact Intent.staged_performAll hb true intents k

end Machine

namespace Subject

variable (s : Subject)

/-- Unless it is loaded, a module does what its statements ask for one after the other, and no more. -/
theorem machine_runBlock (deeper : Mode → List String → Machine → List Step) (hm : s.mode ≠ .load)
    (block : List Statement) (e : Evaluation) :
    (s.runBlock block e).2.machine =
      Intent.performAll s.mode.isForward e.machine ((s.traceBlock deeper block e).flatMap Step.intents) := by
  have cons {st : Statement} {rest : List Statement} {e : Evaluation}
      (hst : (s.runStatement st e).2.machine = Intent.performAll s.mode.isForward e.machine
        ((s.traceStatement deeper st e).flatMap Step.intents))
      (hr : ∀ e : Evaluation, (s.runBlock rest e).2.machine =
        Intent.performAll s.mode.isForward e.machine ((s.traceBlock deeper rest e).flatMap Step.intents)) :
      (s.runBlock (st :: rest) e).2.machine = Intent.performAll s.mode.isForward e.machine
        ((s.traceBlock deeper (st :: rest) e).flatMap Step.intents) := by
    rw [s.runBlock_cons_apply, traceBlock, List.flatMap_append, Intent.performAll_append, ← hst]
    rcases s.runStatement st e with ⟨fault | u, e₁⟩
    · rfl
    · exact hr e₁
  induction block using Statement.block_induction generalizing e with
  | nil =>
    rw [s.runBlock_nil_apply, traceBlock]
    rfl
  | simple st rest hst ih =>
    have hp : s.IsPlain st := s.isPlain_of_mode_ne hm hst
    refine cons ?_ ih
    rw [s.runStatement_of_isPlain hp, traceStatement_of_isPlain hp, List.flatMap_singleton]
    rfl
  | choose branches otherwise rest hb ho ih =>
    refine cons ?_ ih
    -- The choice asks for nothing itself, and the block that it chooses is one of those inside.
    let Good (block : List Statement) : Prop := (s.runBlock block e).2.machine =
      Intent.performAll s.mode.isForward e.machine ((s.traceBlock deeper block e).flatMap Step.intents)
    have hchosen : Good (s.chosen e otherwise branches) := by
      apply s.chosen_induction (P := Good) e
      · exact fun b hm => hb b hm e
      · exact ho e
    rw [s.runStatement_choose_apply, traceStatement, traceBranches_eq]
    exact hchosen

end Subject

namespace Site

variable (s : Site) {deeper : Mode → List String → Machine → List Step}

theorem leads_visit_display {depth : Nat} {nested : Mode → List String → TransitionM Unit}
    (found : Resolved) (m : Machine) :
    Machine.Leads ((s.traceVisit depth nested deeper .display found m).flatMap Step.intents) m
      (s.visit depth nested .display found m).2 := by
  rw [s.visit_apply, traceVisit]
  cases s.statements found.path with
  | error fault => exact Machine.leads_nil m
  | ok statements =>
    let subject : Subject := ⟨s, found.name, .display, nested⟩
    -- Nothing is recorded on the way in or out, but for the visit.
    let entered : Machine := { m with visits := m.visits ++ [⟨depth, .display, found.name⟩] }
    have hm : Mode.display ≠ .load := by decide
    have hbody := subject.machine_runBlock deeper hm statements ⟨entered, .equal⟩
    have hleads : Machine.Leads ((subject.traceBlock deeper statements ⟨entered, .equal⟩).flatMap Step.intents)
        m (subject.runBlock statements ⟨entered, .equal⟩).2.machine := by
      unfold Machine.Leads
      rw [hbody, Intent.performAll_visits]
      rfl
    have hend (p : Except Fault Unit × Machine) : (proceed p fun _ m => (Except.ok (), m)).2 = p.2 := by
      rcases p with ⟨_ | _, m⟩ <;> rfl
    show Machine.Leads _ m (proceed ((subject.runBlock statements).toTransition entered)
      fun _ m => (.ok (), m)).2
    rw [hend]
    exact hleads

theorem leads_run_display (names : List String) (m : Machine) :
    Machine.Leads ((s.trace .display names m).flatMap Step.intents) m (s.run .display names m).2 := by
  show Machine.Leads ((s.traceLevel nestingLimit (s.traceWithin (nestingLimit - 1)) .display names m).flatMap
    Step.intents) m _
  rw [s.run_eq, s.runWithin_eq]
  induction names generalizing m with
  | nil => exact Machine.leads_nil m
  | cons name rest ih =>
    rw [forM_cons_apply, traceLevel, List.flatMap_append]
    have hone : Machine.Leads ((s.traceOne (s.traceVisit (nestingLimit - nestingLimit)
        (s.nestedWithin nestingLimit) (s.traceWithin (nestingLimit - 1))) .display name m).flatMap Step.intents) m
        (s.runOne (s.visit (nestingLimit - nestingLimit) (s.nestedWithin nestingLimit)) .display name m).2 := by
      rw [s.runOne_apply, traceOne]
      rcases s.visited m.loaded name .display with fault | _ | found
      · exact Machine.leads_nil m
      · exact Machine.leads_nil m
      · exact s.leads_visit_display found m
    rcases hr : s.runOne (s.visit (nestingLimit - nestingLimit) (s.nestedWithin nestingLimit)) .display name m
      with ⟨fault | u, m₁⟩ <;> rw [hr] at hone
    · simp only [proceed_error, following, List.flatMap_nil, List.append_nil]
      exact hone
    · exact hone.append (ih m₁)

/-- In the mode in which changes are only to be reported, it depends on the backend whether they are. A display
makes none of them. Through any other backend, modules and lists of statements that are shown make every change
that their statements ask for, as far as these are run, and a backend for commands stages each of them. Every
other variable stays as it is, and so does the record of loaded modules, unless a statement is about it. -/
theorem shown_display (s : Site) :
    (∀ (name : Name) (nested : Mode → List String → TransitionM Unit) (block : List Statement)
        (e : Evaluation),
      let subject : Subject := ⟨s, name, .display, nested⟩
      Machine.Shown ((subject.traceBlock (fun _ _ _ => []) block e).flatMap Step.intents) e.machine
        (subject.runBlock block e).2.machine) ∧
      ∀ (names : List String) (m : Machine),
        let steps := s.trace .display names m
        let done := (s.run .display names m).2
        Machine.Shown (steps.flatMap Step.intents) m done ∧
          ∀ x ∈ steps, ∃ found, x.Origin s done.visits found := by
  constructor
  · intro name nested block e subject
    have hm : subject.mode ≠ .load := nofun
    have hbody := subject.machine_runBlock (fun _ _ _ => []) hm block e
    apply Machine.Leads.shown
    unfold Machine.Leads
    rw [hbody]
    rfl
  · intro names m steps done
    obtain ⟨events, ha⟩ := (s.covers_run .display names).accounts m
    exact ⟨(s.leads_run_display names m).shown, ha.origin⟩

/-- A module that is shown through a backend for commands sets its variable, and stages the command. -/
theorem run_display_ne :
    let tree := FileTree.ofDescriptors [("a", ["setVar 1 A"])]
    let s : Site := ⟨tree, ⟨[⟨"/mods"⟩]⟩, .default⟩
    let m : Machine := ⟨.ofVars .empty, .commands .posix .empty, .unlimited, []⟩
    let done := s.run .display ["a"] m
    done.1 = .ok () ∧ done.2.env.get? "A" = some "1" ∧ m.env.get? "A" = none ∧
      done.2.backend.staged.get? "A" = some (.assign "1") := by
  decide +kernel

end Site

end EnvModules
