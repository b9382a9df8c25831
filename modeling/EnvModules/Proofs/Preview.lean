import EnvModules.Proofs.DryRun
import EnvModules.Proofs.Undo
import Mathlib.Data.List.Forall2

/-!
What a display reports of a module, against what a load hands to the backend for it. A display replaces all
references in one environment, while on a load each text sees what the statements before it have done.
-/

namespace EnvModules

/-- Whether a statement does nothing but set variables and put segments in front of lists, whatever the file tree
holds. -/
def Statement.isSetter : Statement → Bool
  | .setVariable _ _ | .setPackageVariable _ _ | .prependPath _ _ | .install _ _ => true
  | _ => false

namespace Intent

/-- The row in which a display reports an intent. -/
def row : Intent → Row
  | .assign value name => ⟨Effect.setVariable.label, name, value⟩
  | .prepend value name => ⟨Effect.prependPath.label, name, value⟩
  | .report effect name value => ⟨effect.label, name, value⟩

/-- Two intents of one kind and about one name, which are the same under some condition. -/
structure Alike (same : Prop) (i j : Intent) : Prop where
  label : i.row.label = j.row.label
  name : i.row.name = j.row.name
  eq : same → i = j

theorem Alike.refl (same : Prop) (i : Intent) : Alike same i i := ⟨rfl, rfl, fun _ => rfl⟩

@[simp] theorem label_row_expanded (env : Environment) (i : Intent) :
    (i.expanded env).row.label = i.row.label := by
  cases i <;> rfl

@[simp] theorem name_row_expanded (env : Environment) (i : Intent) : (i.expanded env).row.name = i.row.name := by
  cases i <;> rfl

theorem apply_of_display {m : Machine} {r : Report} (h : m.backend = .display r) (forward : Bool) (i : Intent) :
    i.apply forward m = { m with backend := .display { r with rows := r.rows ++ [i.row] } } := by
  obtain ⟨env, backend, streams, visits⟩ := m
  obtain rfl : backend = .display r := h
  cases i <;> rfl

/-- A display adds a row for each intent, and all of them see the same environment. -/
theorem performAll_of_display {m : Machine} {r : Report} (h : m.backend = .display r) (forward : Bool)
    (intents : List Intent) :
    performAll forward m intents =
      { m with backend := .display { r with rows := r.rows ++ intents.map fun i => (i.expanded m.env).row } } := by
  induction intents generalizing m r with
  | nil =>
    obtain ⟨env, backend, streams, visits⟩ := m
    obtain rfl : backend = .display r := h
    simp
  | cons i rest ih =>
    rw [performAll_cons, apply_of_display h, ih rfl]
    simp

end Intent

/-- An intent of a step when its turn has come, and the machine that it is taken up on. -/
structure Handover where
  step : Step
  intent : Intent
  machine : Machine

namespace Step

/-- Intents in their turns, each on the machine that the ones before it have left. -/
def handoversOf (x : Step) : List Intent → Machine → List Handover
  | [], _ => []
  | i :: rest, m => ⟨x, i, m⟩ :: x.handoversOf rest ((i.expanded m.env).apply x.subject.mode.isForward m)

def handovers (x : Step) : List Handover := x.handoversOf x.intents x.machine

/-- A step whose own texts refer to variables that are as they are in some environment. -/
def Steady (env : Environment) (x : Step) : Prop :=
  ∀ n ∈ (x.subject.texts x.evaluation x.statement).flatMap references, x.machine.env.get? n = env.get? n

end Step

namespace Handover

/-- What is handed to the backend. -/
def given (t : Handover) : Intent := t.intent.expanded t.machine.env

/-- A turn in which every variable that is referred to is as it is in some environment, when its step begins and
when the intent is taken up. -/
def Steady (env : Environment) (t : Handover) : Prop :=
  t.step.Steady env ∧ ∀ n ∈ t.intent.references, t.machine.env.get? n = env.get? n

instance (env : Environment) (t : Handover) : Decidable (t.Steady env) :=
  inferInstanceAs (Decidable ((∀ n ∈ _, _) ∧ ∀ n ∈ _, _))

/-- A row that says what is handed to the backend in a turn. Its value may differ if some variable that is referred
to is no longer as it was. -/
structure Foretold (env : Environment) (row : Row) (t : Handover) : Prop where
  label : row.label = t.given.row.label
  name : row.name = t.given.row.name
  eq_row : t.Steady env → row = t.given.row

theorem rows_eq_map {env : Environment} {rows : List Row} {handed : List Handover}
    (h : List.Forall₂ (Foretold env) rows handed) (hs : ∀ t ∈ handed, t.Steady env) :
    rows = handed.map fun t => t.given.row := by
  induction h with
  | nil => rfl
  | cons hrow _ ih =>
    obtain ⟨ht, hrest⟩ := List.forall_mem_cons.1 hs
    rw [List.map_cons, ← hrow.eq_row ht, ← ih hrest]

end Handover

namespace Step

variable {x : Step} {env : Environment}

/-- What is handed to the backend in turn is what taking up the intents comes down to. -/
theorem performAll_eq_foldl (x : Step) (intents : List Intent) (m : Machine) :
    Intent.performAll x.subject.mode.isForward m intents =
      ((x.handoversOf intents m).map Handover.given).foldl (fun m i => i.apply x.subject.mode.isForward m) m := by
  induction intents generalizing m with
  | nil => rfl
  | cons i rest ih =>
    rw [Intent.performAll_cons, ih]
    rfl

theorem foretold_handoversOf {intents intents' : List Intent}
    (h : List.Forall₂ (Intent.Alike (x.Steady env)) intents intents') (m : Machine) :
    List.Forall₂ (Handover.Foretold env) (intents.map fun i => (i.expanded env).row)
      (x.handoversOf intents' m) := by
  induction h generalizing m with
  | nil => exact .nil
  | @cons i j rest rest' hij _ ih =>
    refine .cons ⟨?_, ?_, ?_⟩ (ih _)
    · simpa [Handover.given] using hij.label
    · simpa [Handover.given] using hij.name
    · -- It is the same text that is replaced, in two environments that agree on what it refers to.
      rintro ⟨hx, hi⟩
      obtain rfl := hij.eq hx
      exact congrArg Intent.row (Intent.expanded_congr fun n hn => (hi n hn).symm)

end Step

namespace Subject

variable (s : Subject) {st : Statement} {block : List Statement}

theorem isPlain_of_isSetter (h : st.isSetter = true) : s.IsPlain st := by
  cases st with
  | setVariable | setPackageVariable | prependPath | install => trivial
  | _ => cases h

theorem runStatement_of_isSetter (h : st.isSetter = true) (e : Evaluation) :
    s.runStatement st e =
      (.ok (), ⟨Intent.performAll s.mode.isForward e.machine (s.intents e.machine.env st), e.policy⟩) := by
  rw [s.runStatement_of_isPlain (s.isPlain_of_isSetter h)]
  cases st with
  | setVariable | setPackageVariable | prependPath | install => rfl
  | _ => cases h

/-- The rows that a display has for a block whose references are replaced in one environment. -/
def rows (env : Environment) (block : List Statement) : List Row :=
  (block.flatMap (s.intents env)).map fun i => (i.expanded env).row

theorem runBlock_of_display (h : ∀ st ∈ block, st.isSetter = true) {e : Evaluation} {r : Report}
    (hd : e.machine.backend = .display r) :
    s.runBlock block e =
      (.ok (), ⟨{ e.machine with backend := .display { r with rows := r.rows ++ s.rows e.machine.env block } },
        e.policy⟩) := by
  obtain ⟨⟨env, backend, streams, visits⟩, policy⟩ := e
  obtain rfl : backend = .display r := hd
  -- The report grows along the block, and the environment is the same for all statements.
  induction block generalizing r with
  | nil =>
    rw [s.runBlock_nil_apply]
    simp [rows]
  | cons st rest ih =>
    obtain ⟨hst, hrest⟩ := List.forall_mem_cons.1 h
    rw [s.runBlock_cons_apply, s.runStatement_of_isSetter hst, proceed_ok, Intent.performAll_of_display rfl, ih hrest]
    simp [rows]

theorem runBlock_eq_foldl (deeper : Mode → List String → Machine → List Step)
    (h : ∀ st ∈ block, st.isSetter = true) (e : Evaluation) :
    s.runBlock block e =
      (.ok (), ⟨(((s.traceBlock deeper block e).flatMap Step.handovers).map Handover.given).foldl
        (fun m i => i.apply s.mode.isForward m) e.machine, e.policy⟩) := by
  induction block generalizing e with
  | nil =>
    rw [s.runBlock_nil_apply, traceBlock]
    rfl
  | cons st rest ih =>
    obtain ⟨hst, hrest⟩ := List.forall_mem_cons.1 h
    rw [s.runBlock_cons_apply, traceBlock, traceStatement_of_isPlain (s.isPlain_of_isSetter hst),
      s.runStatement_of_isSetter hst, proceed_ok, following, ih hrest, List.flatMap_append, List.map_append,
      List.foldl_append, List.flatMap_singleton]
    have hfold := Step.performAll_eq_foldl ⟨s, st, e⟩ (s.intents e.machine.env st) e.machine
    rw [hfold]
    rfl

/-- In whatever environment the references of a setter are replaced first, its intents are about the same names. -/
theorem forall₂_intents (h : st.isSetter = true) (env : Environment) (e : Evaluation) :
    List.Forall₂ (Intent.Alike (Step.Steady env ⟨s, st, e⟩)) (s.intents env st) (s.intents e.machine.env st) := by
  have alike (i : Intent) : List.Forall₂ (Intent.Alike (Step.Steady env ⟨s, st, e⟩)) [i] [i] :=
    .cons (.refl _ i) .nil
  cases st with
  | setVariable value name => exact alike _
  | setPackageVariable value ending => exact alike _
  | prependPath value name => exact alike _
  | install location directory =>
    -- The text has been replaced already where it becomes an intent, and there it may differ.
    have htext (hx : Step.Steady env ⟨s, .install location directory, e⟩) :
        env.expand directory = e.machine.env.expand directory :=
      expand_congr fun n hn => (hx n (by simpa [texts] using hn)).symm
    rw [intents, intents, installing, installing]
    refine .cons ⟨rfl, rfl, fun hx => by rw [htext hx]⟩ ?_
    cases s.site.config.sharedVariable? location with
    | none => exact .nil
    | some list => exact .cons ⟨rfl, rfl, fun hx => by rw [htext hx]⟩ .nil
  | _ => cases h

/-- The rows that a display would have from some environment foretell what a run hands over. -/
theorem foretold_traceBlock (deeper : Mode → List String → Machine → List Step)
    (h : ∀ st ∈ block, st.isSetter = true) (env : Environment) (e : Evaluation) :
    List.Forall₂ (Handover.Foretold env) (s.rows env block)
      ((s.traceBlock deeper block e).flatMap Step.handovers) := by
  induction block generalizing e with
  | nil =>
    rw [traceBlock]
    exact .nil
  | cons st rest ih =>
    obtain ⟨hst, hrest⟩ := List.forall_mem_cons.1 h
    rw [traceBlock, traceStatement_of_isPlain (s.isPlain_of_isSetter hst), s.runStatement_of_isSetter hst, following,
      List.flatMap_append, List.flatMap_singleton, rows, List.flatMap_cons, List.map_append]
    exact List.rel_append (Step.foretold_handoversOf (s.forall₂_intents hst env e) _) (ih hrest _)

theorem rows_congr (s' : Subject) (hsite : s'.site = s.site) (hname : s'.name = s.name)
    (h : ∀ st ∈ block, st.isSetter = true) (env : Environment) : s'.rows env block = s.rows env block := by
  rw [rows, rows]
  congr 1
  apply List.flatMap_congr
  intro st hst
  have hset := h st hst
  cases st with
  | setVariable value name => rfl
  | setPackageVariable value ending => rw [intents, intents, hname]
  | prependPath value name => rfl
  | install location directory => rw [intents, intents, installing, installing, hname, hsite]
  | _ => cases hset

end Subject

namespace Site

theorem trace_singleton (s : Site) (mode : Mode) (name : String) (m : Machine) :
    s.trace mode [name] m =
      s.traceOne (s.traceVisit 0 (s.nestedWithin nestingLimit) (s.traceWithin (nestingLimit - 1))) mode name m := by
  show s.traceLevel nestingLimit (s.traceWithin (nestingLimit - 1)) mode [name] m = _
  rw [traceLevel, Nat.sub_self]
  rcases s.runOne (s.visit 0 (s.nestedWithin nestingLimit)) mode name m with ⟨_ | _, m'⟩ <;>
    simp [following, traceLevel]

theorem display_singleton (s : Site) {name : String} {found : Resolved} (h : s.find name = .ok found) (m : Machine) :
    s.display [name] m =
      TransitionM.withBackend (.display ⟨some found.path.text, []⟩)
        (s.visit 0 (s.runWithin (nestingLimit - 1)) .display found >>= fun _ => TransitionM.flush) m := by
  let titled : Machine := { m with backend := .display ⟨some found.path.text, []⟩ }
  unfold display TransitionM.withBackend
  -- No name is left after this one, so that what remains passes on what the flush has led to.
  rw [forM_cons_apply, bind_apply, resolveOrFail_apply, h, proceed_ok, bind_apply, modify_apply, proceed_ok]
  show (match proceed ((s.visit 0 (s.runWithin (nestingLimit - 1)) .display found >>= fun _ => TransitionM.flush)
      titled) fun _ m => (.ok (), m) with
    | (outcome, m') => (outcome, { m' with backend := m.backend })) = _
  rcases (s.visit 0 (s.runWithin (nestingLimit - 1)) .display found >>= fun _ => TransitionM.flush) titled with
    ⟨_ | _, m'⟩ <;> rfl

theorem display_of_isSetter {s : Site} {name : String} {found : Resolved} {block : List Statement}
    (hfind : s.find name = .ok found) (hblock : s.statements found.path = .ok block)
    (hset : ∀ st ∈ block, st.isSetter = true) (m : Machine) :
    let subject : Subject := ⟨s, found.name, .display, s.runWithin (nestingLimit - 1)⟩
    s.display [name] m =
      TransitionM.withBackend (.display ⟨some found.path.text, subject.rows m.env block⟩) TransitionM.flush
        { m with visits := m.visits ++ [⟨0, .display, found.name⟩] } := by
  intro subject
  let titled : Machine := { m with backend := .display ⟨some found.path.text, []⟩ }
  have hrun := subject.runBlock_of_display hset (e := ⟨titled.entering 0 .display found.name, .equal⟩) rfl
  have hvisit : s.visit 0 (s.runWithin (nestingLimit - 1)) .display found titled =
      (.ok (), { m with
        backend := .display ⟨some found.path.text, subject.rows m.env block⟩
        visits := m.visits ++ [⟨0, .display, found.name⟩] }) := by
    rw [s.visit_apply, hblock]
    simp only
    rw [EvaluationM.toTransition, hrun]
    rfl
  rw [s.display_singleton hfind]
  unfold TransitionM.withBackend
  rw [bind_apply, hvisit, proceed_ok]

/-- A display of a module that does nothing but set variables and lists reports what a load would hand to the
backend: a row for each time that it would, in order, about the same variable. The rows are read off the
environment as it is. A load hands over the same value, unless by then it has changed some variable that the text
refers to, among them the record of loaded modules, which it has changed before it begins. -/
theorem display_foretells_load (s : Site) {name : String} {found : Resolved} (m : Machine)
    (hfind : s.find name = .ok found) (hread : (s.statements found.path).isOk = true)
    (hset : ∀ st ∈ s.body found.path, st.isSetter = true) (hloaded : m.loaded.contains found.name = false) :
    let subject : Subject := ⟨s, found.name, .display, s.runWithin (nestingLimit - 1)⟩
    let rows := subject.rows m.env (s.body found.path)
    let handed := (s.trace .load [name] m).flatMap Step.handovers
    s.display [name] m =
        TransitionM.withBackend (.display ⟨some found.path.text, rows⟩) TransitionM.flush
          { m with visits := m.visits ++ [⟨0, .display, found.name⟩] } ∧
      s.run .load [name] m =
        (.ok (), (handed.map Handover.given).foldl (fun m i => i.apply true m) (m.entering 0 .load found.name)) ∧
      List.Forall₂ (Handover.Foretold m.env) rows handed ∧
      ((∀ t ∈ handed, t.Steady m.env) → rows = handed.map fun t => t.given.row) := by
  intro subject rows handed
  obtain ⟨block, hblock⟩ : ∃ block, s.statements found.path = .ok block := by
    cases hst : s.statements found.path with
    | error fault => exact nomatch hst ▸ hread
    | ok block => exact ⟨block, rfl⟩
  have hbody : s.body found.path = block := by rw [body, hblock]; rfl
  rw [hbody] at hset
  -- The load goes through the same statements in another mode, which setters do not look at.
  let loading : Subject := ⟨s, found.name, .load, s.nestedWithin nestingLimit⟩
  let deeper := s.traceWithin (nestingLimit - 1)
  let e : Evaluation := ⟨m.entering 0 .load found.name, .equal⟩
  have hvisited : s.visited m.loaded name .load = .ok (some found) := s.visited_load_eq_ok_iff.2 ⟨hfind, hloaded⟩
  have hrows : rows = subject.rows m.env block := congrArg (subject.rows m.env) hbody
  have hhanded : handed = (loading.traceBlock deeper block e).flatMap Step.handovers := by
    show (s.trace .load [name] m).flatMap Step.handovers = _
    rw [s.trace_singleton, traceOne, hvisited]
    simp only
    rw [traceVisit, hblock]
  have hforetold : List.Forall₂ (Handover.Foretold m.env) rows handed := by
    rw [hrows, loading.rows_congr subject rfl rfl hset, hhanded]
    exact loading.foretold_traceBlock deeper hset m.env e
  refine ⟨?_, ?_, hforetold, Handover.rows_eq_map hforetold⟩
  · rw [hrows]
    exact display_of_isSetter hfind hblock hset m
  · rw [s.run_singleton_apply, s.runOne_apply, hvisited]
    simp only
    rw [s.visit_apply, hblock]
    simp only
    rw [EvaluationM.toTransition, loading.runBlock_eq_foldl deeper hset e, ← hhanded]
    rfl

/-- A descriptor whose texts refer to variables of the environment alone, one of them to the list that it is put in
front of. -/
theorem display_foretells_load_of_home :
    let tree := FileTree.ofDescriptors [("a", ["setVar $HOME/a A", "setBin $HOME/bin", "setPath $LIST/a LIST"])]
    let s : Site := ⟨tree, ⟨[⟨"/mods"⟩]⟩, .default⟩
    let m : Machine := ⟨.ofVars (.ofList [("HOME", "/h"), ("LIST", "/l")]), .silent, .unlimited, []⟩
    let found : Resolved := ⟨⟨"a", none⟩, ⟨"/mods/a"⟩⟩
    let rows : List Row := [⟨"setenv", "A", "/h/a"⟩, ⟨"setenv", "A_BIN_PATH", "/h/bin"⟩,
      ⟨"prepend-path", "PATH", "/h/bin"⟩, ⟨"prepend-path", "LIST", "/l/a"⟩]
    s.find "a" = .ok found ∧ (s.statements found.path).isOk = true ∧
      (∀ st ∈ s.body found.path, st.isSetter = true) ∧ m.loaded.contains found.name = false ∧
      s.display ["a"] m = TransitionM.withBackend (.display ⟨some "/mods/a", rows⟩) TransitionM.flush
        { m with visits := [⟨0, .display, ⟨"a", none⟩⟩] } ∧
      rows = ((s.trace .load ["a"] m).flatMap Step.handovers).map fun t => t.given.row := by
  intro tree s m found rows
  have hfind : s.find "a" = .ok found := by decide +kernel
  have hread : (s.statements found.path).isOk = true := by decide +kernel
  have hset : ∀ st ∈ s.body found.path, st.isSetter = true := by decide +kernel
  have hloaded : m.loaded.contains found.name = false := by decide +kernel
  obtain ⟨hdisplay, -, -, hhanded⟩ := s.display_foretells_load m hfind hread hset hloaded
  have hrows : Subject.rows ⟨s, found.name, .display, s.runWithin (nestingLimit - 1)⟩ m.env (s.body found.path) =
      rows := by
    decide +kernel
  rw [hrows] at hdisplay hhanded
  exact ⟨hfind, hread, hset, hloaded, hdisplay, hhanded (by decide +kernel)⟩

/-- A text that refers to a variable set before it is displayed as it is written, and loaded with the value. -/
theorem display_ne_load :
    let s : Site := ⟨.ofDescriptors [("a", ["setVar 1 A", "setVar $A B"])], ⟨[⟨"/mods"⟩]⟩, .default⟩
    let m : Machine := ⟨.ofVars .empty, .silent, .unlimited, []⟩
    let layout := Layout.ofEnvironment m.env
    let table := layout.table [⟨"setenv", "A", "1"⟩, ⟨"setenv", "B", "$A"⟩]
    let shown := s.display ["a"] m
    m.loaded.contains ⟨"a", none⟩ = false ∧ (s.body ⟨"/mods/a"⟩).all Statement.isSetter = true ∧ shown.1 = .ok () ∧
      shown.2.streams.diagnostics.written = (layout.title false "/mods/a").toUTF8 ++ table.toUTF8 ∧
      ((s.trace .load ["a"] m).flatMap Step.handovers).map Handover.given = [.assign "1" "A", .assign "1" "B"] ∧
      (s.run .load ["a"] m).2.env.get? "B" = some "1" := by
  decide +kernel

end Site

end EnvModules
