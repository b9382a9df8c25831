import EnvModules.Proofs.Convergence

/-!
What happens in a transition, one thing after the other: runs of descriptors begin and come to their end, and in
between statements do what they ask for. Main statement: to go through all of it leads to the machine that the
transition ends on, each visit stands for one run, and the steps of these runs are all steps of the transition.
-/

namespace EnvModules

/-- A run of the descriptor of a module. -/
structure Run where
  /-- How many runs it is nested in. -/
  depth : Nat
  mode : Mode
  found : Resolved
  /-- Loads or unloads other modules. -/
  nested : Mode → List String → TransitionM Unit
  /-- The machine that it begins on. -/
  machine : Machine

namespace Run

def visit (r : Run) : Visit := ⟨r.depth, r.mode, r.found.name⟩

def subject (s : Site) (r : Run) : Subject := ⟨s, r.found.name, r.mode, r.nested⟩

/-- What the first statement finds. -/
def entered (r : Run) : Evaluation := ⟨r.machine.entering r.depth r.mode r.found.name, .equal⟩

/-- The steps of the descriptor itself, without those of modules that it brings in. -/
def steps (s : Site) (r : Run) : List Step :=
  s.traceVisit r.depth r.nested (fun _ _ _ => []) r.mode r.found r.machine

/-- A run of a module that some name leads to. It begins only if the descriptor can be read. -/
structure Begins (s : Site) (r : Run) : Prop where
  offers : s.Offers (fun _ => True) r.found
  reads : s.statements r.found.path = .ok (s.body r.found.path)

/-- Whether a run comes through all statements. -/
def Completes (s : Site) (r : Run) : Prop :=
  ((r.subject s).runBlock (s.body r.found.path) r.entered).1 = .ok ()

theorem Begins.steps_eq {s : Site} {r : Run} (h : r.Begins s) :
    r.steps s = (r.subject s).traceBlock (fun _ _ _ => []) (s.body r.found.path) r.entered := by
  rw [steps, Site.traceVisit, h.reads]
  rfl

end Run

/-- What happens to a machine. -/
inductive Event where
  /-- A run begins. The module is recorded, if it is loaded. -/
  | enter (run : Run)
  /-- A statement does what it asks for itself. -/
  | step (step : Step)
  /-- A run has come to its end. The module is taken out of the record, if it is unloaded. -/
  | leave (run : Run) (machine : Machine)

namespace Event

/-- The machine that it happens to. -/
def before : Event → Machine
  | .enter r => r.machine
  | .step x => x.machine
  | .leave _ m => m

/-- What the machine has become by it. -/
def after : Event → Machine
  | .enter r => r.entered.machine
  | .step x => Intent.performAll x.subject.mode.isForward x.machine x.intents
  | .leave r m => m.leaving r.mode r.found.name

def run? : Event → Option Run
  | .enter r => some r
  | _ => none

def step? : Event → Option Step
  | .step x => some x
  | _ => none

end Event

/-- Whether events lead from one machine to another. Each happens to what the one before has left behind. -/
def Machine.Passes (m : Machine) : List Event → Machine → Prop
  | [], m' => m = m'
  | e :: rest, m' => e.before = m ∧ e.after.Passes rest m'

theorem Machine.Passes.append {m m' m'' : Machine} {events events' : List Event} (h : m.Passes events m')
    (h' : m'.Passes events' m'') : m.Passes (events ++ events') m'' := by
  induction events generalizing m with
  | nil =>
    obtain rfl : m = m' := h
    exact h'
  | cons e rest ih => exact ⟨h.1, ih h.2⟩

theorem Intent.visits_performAll (forward : Bool) (m : Machine) (intents : List Intent) :
    (performAll forward m intents).visits = m.visits := by
  induction intents generalizing m with
  | nil => rfl
  | cons i rest ih =>
    rw [performAll_cons, ih]
    cases i <;> rfl

/-- Only the beginning of a run is a visit. -/
theorem Machine.Passes.visits {m m' : Machine} {events : List Event} (h : m.Passes events m') :
    m'.visits = m.visits ++ (events.filterMap Event.run?).map Run.visit := by
  induction events generalizing m with
  | nil =>
    obtain rfl : m = m' := h
    exact (List.append_nil _).symm
  | cons e rest ih =>
    obtain ⟨rfl, hrest⟩ := h
    rw [ih hrest]
    cases e with
    | enter r =>
      rw [List.filterMap_cons_some (f := Event.run?) (a := .enter r) (b := r) rfl, List.map_cons, List.append_cons]
      exact congrArg (· ++ _) (r.machine.visits_entering r.depth r.mode r.found.name)
    | step x => exact congrArg (· ++ _) (Intent.visits_performAll _ _ _)
    | leave r m => exact congrArg (· ++ _) (m.visits_leaving r.mode r.found.name)

/-- All that happens in a transition from a machine to its result, with all steps. These are the steps of the runs
that begin, beside the steps of a run that has begun before. If there is no fault, then the runs that begin come to
their end. -/
structure Site.Accounts (s : Site) (m : Machine) (result : Except Fault Unit × Machine) (events : List Event)
    (own steps : List Step) : Prop where
  passes : m.Passes events result.2
  steps_eq : events.filterMap Event.step? = steps
  perm : steps.Perm (own ++ (events.filterMap Event.run?).flatMap (Run.steps s))
  begins : ∀ r ∈ events.filterMap Event.run?, r.Begins s
  completes : result.1 = .ok () → ∀ r ∈ events.filterMap Event.run?, r.Completes s

namespace Site.Accounts

variable {s : Site} {m m' : Machine} {result : Except Fault Unit × Machine} {events events' : List Event}
variable {own own' steps steps' : List Step}

theorem nil (s : Site) (outcome : Except Fault Unit) (m : Machine) : s.Accounts m (outcome, m) [] [] [] where
  passes := rfl
  steps_eq := rfl
  perm := .nil
  begins := List.forall_mem_nil _
  completes _ := List.forall_mem_nil _

/-- What happens after a success. -/
theorem append (h : s.Accounts m (.ok (), m') events own steps) (h' : s.Accounts m' result events' own' steps') :
    s.Accounts m result (events ++ events') (own ++ own') (steps ++ steps') where
  passes := h.passes.append h'.passes
  steps_eq := by rw [List.filterMap_append, h.steps_eq, h'.steps_eq]
  perm := by
    rw [List.filterMap_append, List.flatMap_append, List.append_assoc]
    -- The own steps of both parts come together, and the runs of the first part go behind them.
    refine (h.perm.append h'.perm).trans ?_
    rw [List.append_assoc]
    exact (List.perm_append_comm_assoc _ _ _).append_left own
  begins := by
    rw [List.filterMap_append]
    exact List.forall_mem_append.2 ⟨h.begins, h'.begins⟩
  completes ho := by
    rw [List.filterMap_append]
    exact List.forall_mem_append.2 ⟨h.completes rfl, h'.completes ho⟩

/-- A step of the run that is under way comes first. -/
theorem step {x : Step} (hx : (Event.step x).after = m') (h : s.Accounts m' result events own steps) :
    s.Accounts x.machine result (.step x :: events) (x :: own) (x :: steps) where
  passes := ⟨rfl, hx ▸ h.passes⟩
  steps_eq := congrArg (x :: ·) h.steps_eq
  perm := h.perm.cons x
  begins := h.begins
  completes := h.completes

/-- A run begins, and what happens are its own steps and what they bring in. -/
theorem enter {r : Run} (hr : r.Begins s) (hc : result.1 = .ok () → r.Completes s)
    (h : s.Accounts r.entered.machine result events (r.steps s) steps) :
    s.Accounts r.machine result (.enter r :: events) [] steps where
  passes := ⟨rfl, h.passes⟩
  steps_eq := h.steps_eq
  perm := h.perm
  begins := List.forall_mem_cons.2 ⟨hr, h.begins⟩
  completes ho := List.forall_mem_cons.2 ⟨hc ho, h.completes ho⟩

theorem leave (h : s.Accounts m (.ok (), m') events own steps) (r : Run) :
    s.Accounts m (.ok (), m'.leaving r.mode r.found.name) (events ++ [.leave r m']) own steps := by
  have hend : s.Accounts m' (.ok (), m'.leaving r.mode r.found.name) [.leave r m'] [] [] :=
    ⟨⟨rfl, rfl⟩, rfl, .nil, List.forall_mem_nil _, fun _ => List.forall_mem_nil _⟩
  simpa only [List.append_nil] using h.append hend

end Site.Accounts

theorem following_nil {ε α σ β : Type} (p : Except ε α × σ) : following p (fun _ => ([] : List β)) = [] := by
  rcases p with ⟨_ | _, state⟩ <;> rfl

section Covered

variable {σ : Type} {s : Site} {machine : σ → Machine} {x y : σ → Except Fault Unit × σ}
variable {own own' steps steps' : σ → List Step}

/-- A transition whose steps are accounted for, some of them as those of a run that is under way. -/
def Covered (s : Site) (machine : σ → Machine) (x : σ → Except Fault Unit × σ) (own steps : σ → List Step) : Prop :=
  ∀ a, ∃ events, s.Accounts (machine a) ((x a).1, machine (x a).2) events (own a) (steps a)

theorem Covered.proceed (hx : Covered s machine x own steps) (hy : Covered s machine y own' steps') :
    Covered s machine (fun a => EnvModules.proceed (x a) fun _ => y) (fun a => own a ++ following (x a) own')
      (fun a => steps a ++ following (x a) steps') := by
  intro a
  obtain ⟨events, hfirst⟩ := hx a
  rcases hr : x a with ⟨fault | u, b⟩ <;> rw [hr] at hfirst
  · simp only [hr, proceed_error, following, List.append_nil]
    exact ⟨events, hfirst⟩
  · obtain ⟨events', hrest⟩ := hy b
    simp only [hr, proceed_ok, following]
    exact ⟨events ++ events', hfirst.append hrest⟩

/-- One transition after the other, neither of them inside a run. -/
theorem Covered.andThen (hx : Covered s machine x (fun _ => []) steps)
    (hy : Covered s machine y (fun _ => []) steps') :
    Covered s machine (fun a => EnvModules.proceed (x a) fun _ => y) (fun _ => [])
      fun a => steps a ++ following (x a) steps' :=
  fun a => by simpa only [following_nil, List.append_nil] using hx.proceed hy a

end Covered

/-- A transition whose steps are those of the runs that begin in it. -/
def Site.Covers (s : Site) (x : TransitionM Unit) (steps : Machine → List Step) : Prop :=
  Covered s id x (fun _ => []) steps

section Covers

variable {s : Site} {x y : TransitionM Unit} {steps steps' : Machine → List Step}

theorem Site.Covers.accounts (h : s.Covers x steps) (m : Machine) :
    ∃ events, s.Accounts m (x m) events [] (steps m) := h m

theorem Site.covers_of_idle (h : ∀ m, (x m).2 = m) : s.Covers x fun _ => [] := by
  intro m
  rw [h]
  exact ⟨[], .nil s _ _⟩

theorem Site.Covers.bind (hx : s.Covers x steps) (hy : s.Covers y steps') :
    s.Covers (x >>= fun _ => y) fun m => steps m ++ following (x m) steps' := by
  intro m
  rw [bind_apply]
  exact Covered.andThen hx hy m

theorem Site.Covers.forM {β : Type} {f : β → TransitionM PUnit} {steps : β → Machine → List Step}
    (hf : ∀ b, s.Covers (f b) (steps b)) (l : List β) : s.Covers (l.forM f) (traceEach f steps l) := by
  induction l with
  | nil => exact s.covers_of_idle fun _ => rfl
  | cons b rest ih =>
    show s.Covers (f b >>= fun _ => rest.forM f) _
    exact (hf b).bind ih

theorem Site.Covers.ofTransition (h : s.Covers x steps) :
    Covered s Evaluation.machine (EvaluationM.ofTransition x) (fun _ => []) fun e => steps e.machine :=
  fun e => h e.machine

end Covers

section Block

variable {s : Site} {subject : Subject} {deeper : Mode → List String → Machine → List Step}

/-- A statement that chooses nothing is the only step of its own, whatever it brings in. -/
theorem Subject.ownSteps_eq {st : Statement} (h : ∀ branches otherwise, st ≠ .choose branches otherwise)
    (e : Evaluation) : subject.traceStatement (fun _ _ _ => []) st e = [⟨subject, st, e⟩] := by
  cases st with
  | load names => rw [traceStatement, ite_self]
  | swap old new => rw [traceStatement, following_nil, List.append_nil, ite_self]
  | choose branches otherwise => exact absurd rfl (h branches otherwise)
  | _ => rw [traceStatement] <;> simp

/-- What brings in other modules has no intents of its own. -/
theorem Subject.performAll_intents_of_load (hm : subject.mode = .load) {st : Statement} (hp : ¬ subject.IsPlain st)
    (m : Machine) : Intent.performAll subject.mode.isForward m (subject.intents m.env st) = m := by
  cases st with
  | load names | swap old new => rw [intents, reporting, if_neg (by simp [hm]), Intent.performAll_nil]
  | choose branches otherwise => rfl
  | _ => exact absurd trivial hp

variable (hn : ∀ mode names, s.Covers (subject.nested mode names) (deeper mode names))
include hn

theorem Covered.runStatement {st : Statement} (hst : ∀ branches otherwise, st ≠ .choose branches otherwise) :
    Covered s Evaluation.machine (subject.runStatement st) (subject.traceStatement (fun _ _ _ => []) st)
      (subject.traceStatement deeper st) := by
  intro e
  rw [Subject.ownSteps_eq hst]
  by_cases hp : subject.IsPlain st
  · rw [subject.runStatement_of_isPlain hp, Subject.traceStatement_of_isPlain hp]
    exact ⟨_, .step (x := ⟨subject, st, e⟩) rfl (.nil s _ _)⟩
  -- What is left is to load or to swap, which brings in modules only while the module itself is loaded.
  have hm : subject.mode = .load := by
    by_contra hm
    exact hp (subject.isPlain_of_mode_ne hm hst)
  have hidle : (Event.step ⟨subject, st, e⟩).after = e.machine := Subject.performAll_intents_of_load hm hp e.machine
  cases st with
  | load names =>
    obtain ⟨events, h⟩ := hn .load (names.map e.machine.env.expand) e.machine
    rw [subject.runStatement_load_apply _ _ hm, Subject.traceStatement, if_pos hm]
    exact ⟨_, h.step (x := ⟨subject, .load names, e⟩) hidle⟩
  | swap old new =>
    have outgoing := (hn .unload [e.machine.env.expand old]).ofTransition
    have incoming := (hn .load [e.machine.env.expand new]).ofTransition
    obtain ⟨events, h⟩ := outgoing.andThen incoming e
    rw [subject.runStatement_swap_apply _ _ _ hm, Subject.traceStatement, if_pos hm, ← following_ofTransition]
    exact ⟨_, h.step (x := ⟨subject, .swap old new, e⟩) hidle⟩
  | choose branches otherwise => exact absurd rfl (hst branches otherwise)
  | _ => exact absurd trivial hp

/-- What happens in a block are its own steps, and what they bring in. -/
theorem Covered.runBlock (block : List Statement) :
    Covered s Evaluation.machine (subject.runBlock block) (subject.traceBlock (fun _ _ _ => []) block)
      (subject.traceBlock deeper block) := by
  have cons {st : Statement} {rest : List Statement}
      (hst : Covered s Evaluation.machine (subject.runStatement st) (subject.traceStatement (fun _ _ _ => []) st)
        (subject.traceStatement deeper st))
      (hr : Covered s Evaluation.machine (subject.runBlock rest) (subject.traceBlock (fun _ _ _ => []) rest)
        (subject.traceBlock deeper rest)) :
      Covered s Evaluation.machine (subject.runBlock (st :: rest))
        (subject.traceBlock (fun _ _ _ => []) (st :: rest)) (subject.traceBlock deeper (st :: rest)) := by
    intro e
    rw [subject.runBlock_cons_apply, Subject.traceBlock, Subject.traceBlock]
    exact hst.proceed hr e
  -- A choice is taken for what its blocks do, so that the induction is on statements and on the blocks inside them.
  induction block using Statement.block_induction with
  | nil =>
    intro e
    rw [subject.runBlock_nil_apply, Subject.traceBlock, Subject.traceBlock]
    exact ⟨[], .nil s _ _⟩
  | simple st rest hst ih => exact cons (Covered.runStatement hn hst) ih
  | choose branches otherwise rest hb ho ih =>
    refine cons ?_ ih
    intro e
    rw [subject.runStatement_choose_apply, Subject.traceStatement, Subject.traceStatement, Subject.traceBranches_eq,
      Subject.traceBranches_eq]
    -- What the choice runs is one of the blocks inside it, which has the choice itself in front.
    let Good (block : List Statement) : Prop :=
      Covered s Evaluation.machine (subject.runBlock block) (subject.traceBlock (fun _ _ _ => []) block)
        (subject.traceBlock deeper block)
    have hchosen : Good (subject.chosen e otherwise branches) := subject.chosen_induction (P := Good) e hb ho
    obtain ⟨events, h⟩ := hchosen e
    exact ⟨_, h.step (x := ⟨subject, .choose branches otherwise, e⟩) rfl⟩

end Block

namespace Site

variable (s : Site) {depth : Nat} {nested : Mode → List String → TransitionM Unit}
variable {deeper : Mode → List String → Machine → List Step}

theorem offers_of_find {name : String} {found : Resolved} (h : s.find name = .ok found) :
    s.Offers (fun _ => True) found :=
  ⟨name, trivial, s.find_eq_ok_iff.1 h⟩

/-- Whatever is visited, some name leads to it. An entry of the record is the name that its text stands for. -/
theorem offers_of_visited {m : Machine} {name : String} {mode : Mode} {found : Resolved}
    (h : s.visited m.loaded name mode = .ok (some found)) : s.Offers (fun _ => True) found := by
  cases mode with
  | load => exact s.offers_of_find (s.visited_load_eq_ok_iff.1 h).1
  | unload =>
    obtain ⟨entry, he, hr, -⟩ := s.visited_unload_eq_ok h
    obtain ⟨segment, -, rfl⟩ := List.mem_map.1 (List.mem_of_find?_eq_some he)
    exact ⟨segment, trivial, hr⟩
  | display =>
    rw [visited] at h
    cases hf : s.find name with
    | error fault =>
      rw [hf] at h
      cases h
    | ok other =>
      rw [hf] at h
      obtain rfl : other = found := Option.some.inj (Except.ok.inj h)
      exact s.offers_of_find hf

/-- A visit is a run, and what its statements bring in. -/
theorem covers_visit (hn : ∀ mode names, s.Covers (nested mode names) (deeper mode names)) {mode : Mode}
    {found : Resolved} (hf : s.Offers (fun _ => True) found) :
    s.Covers (s.visit depth nested mode found) (s.traceVisit depth nested deeper mode found) := by
  intro m
  rw [s.visit_apply, traceVisit]
  cases hst : s.statements found.path with
  | error fault => exact ⟨[], .nil s _ _⟩
  | ok statements =>
    obtain rfl : s.body found.path = statements := by rw [body, hst]; rfl
    let r : Run := ⟨depth, mode, found, nested, m⟩
    have hr : r.Begins s := ⟨hf, hst⟩
    have hn (mode : Mode) (names : List String) : s.Covers ((r.subject s).nested mode names) (deeper mode names) :=
      hn mode names
    obtain ⟨events, h⟩ := Covered.runBlock hn (s.body found.path) r.entered
    rw [← hr.steps_eq] at h
    show ∃ events, s.Accounts m (proceed (((r.subject s).runBlock (s.body found.path)).toTransition r.entered.machine)
      fun _ m => (.ok (), m.leaving mode found.name)) events [] _
    rcases hx : ((r.subject s).runBlock (s.body found.path)).toTransition r.entered.machine with ⟨fault | u, m'⟩
      <;> obtain ⟨e, hb, rfl⟩ := Subject.toTransition_eq hx
      <;> rw [show (r.subject s).runBlock (s.body found.path) r.entered = _ from hb] at h
    -- A run that fails is not left: what it was in the middle of is the last that happens.
    · rw [proceed_error]
      exact ⟨_, h.enter hr fun ho => by cases ho⟩
    · rw [proceed_ok]
      exact ⟨_, (h.leave r).enter hr fun _ => congrArg Prod.fst hb⟩

theorem covers_runOne (hn : ∀ mode names, s.Covers (nested mode names) (deeper mode names)) (mode : Mode)
    (name : String) :
    s.Covers (s.runOne (s.visit depth nested) mode name) (s.traceOne (s.traceVisit depth nested deeper) mode name) := by
  intro m
  rw [s.runOne_apply, traceOne]
  rcases hv : s.visited m.loaded name mode with fault | _ | found
  · exact ⟨[], .nil s _ _⟩
  · exact ⟨[], .nil s _ _⟩
  · exact s.covers_visit hn (s.offers_of_visited hv) m

theorem covers_level {levels : Nat} (hn : ∀ mode names, s.Covers (s.nestedWithin levels mode names) (deeper mode names))
    (mode : Mode) (names : List String) :
    s.Covers (s.runWithin levels mode names) (s.traceLevel levels deeper mode names) := by
  rw [s.runWithin_eq]
  induction names with
  | nil => exact s.covers_of_idle fun _ => rfl
  | cons name rest ih =>
    intro m
    rw [forM_cons_apply, traceLevel]
    exact Covered.andThen (s.covers_runOne hn mode name) ih m

theorem covers_runWithin (levels : Nat) (mode : Mode) (names : List String) :
    s.Covers (s.runWithin levels mode names) (s.traceWithin levels mode names) := by
  -- The induction is on the levels of nesting that are left. On the last one, to bring in modules fails.
  induction levels generalizing mode names with
  | zero =>
    have hn (mode : Mode) (names : List String) : s.Covers (s.nestedWithin 0 mode names) fun _ => [] :=
      s.covers_of_idle fun _ => rfl
    exact s.covers_level hn mode names
  | succ levels ih =>
    have hn (mode : Mode) (names : List String) :
        s.Covers (s.nestedWithin (levels + 1) mode names) (s.traceWithin levels mode names) := ih mode names
    exact s.covers_level hn mode names

theorem covers_run (mode : Mode) (names : List String) : s.Covers (s.run mode names) (s.trace mode names) :=
  s.covers_runWithin nestingLimit mode names

theorem covers_exchange (old new : String) : s.Covers (s.exchange old new) (s.traceExchange old new) :=
  (s.covers_run .unload [old]).bind (s.covers_run .load [new])

end Site

/-- All that an operation does before it writes is done by runs of descriptors. -/
theorem Operation.covers_staging (s : Site) (op : Operation) : s.Covers (op.staging s) (op.trace s) := by
  cases op with
  | load names => exact s.covers_run .load names
  | unload names => exact s.covers_run .unload names
  | swap old new => exact s.covers_exchange old new
  | reload names => exact Site.Covers.forM (fun n => s.covers_exchange n n) names
  | reloadAll =>
    intro m
    simp only [staging]
    rw [bind_apply, get_apply, proceed_ok]
    exact Site.Covers.forM (fun entry : Name => s.covers_exchange entry.text entry.package) m.loaded.oldestFirst m
  | unloadAll =>
    intro m
    simp only [staging]
    rw [bind_apply, get_apply, proceed_ok]
    exact Site.Covers.forM (fun entry : Name => s.covers_run .unload [entry.text]) m.loaded.entries m
  | display names => exact s.covers_of_idle fun _ => rfl

/-- Visits that stand for all that happens in an operation before it writes. Each is for one run of the descriptor of
its module, and the operation has no steps but those of these runs. -/
def Operation.Evaluates (op : Operation) (s : Site) (m : Machine) (visits : List Visit) : Prop :=
  ∃ events, s.Accounts m (op.staging s m) events [] (op.trace s m) ∧
    (events.filterMap Event.run?).map Run.visit = visits

/-- Whether it fails or not, what an operation has visited stands for what it has run. -/
theorem Session.evaluates_perform (s : Session) (tree : FileTree) (op : Operation)
    (hop : ∀ names, op ≠ .display names) (b : Backend) (t : Streams) :
    op.Evaluates (s.site tree) (s.machine b t) (s.perform tree op b t).visits := by
  obtain ⟨events, h⟩ := (op.covers_staging (s.site tree)).accounts (s.machine b t)
  refine ⟨events, h, ?_⟩
  rw [visits_perform op hop]
  exact h.passes.visits.symm

end EnvModules
