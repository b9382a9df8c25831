import EnvModules.Session

/-!
What the statements of a descriptor come down to. A statement that neither chooses nor brings in other
modules has a verdict and a list of intents, which the backend takes up one after the other.
-/

namespace EnvModules

/-- What a statement asks of the backend. -/
inductive Intent where
  | assign (value name : String)
  | prepend (value name : String)
  | report (effect : Effect) (name value : String)
  deriving DecidableEq, Repr

namespace Intent

def expanded (env : Environment) : Intent → Intent
  | .assign text name => .assign (env.expand text) name
  | .prepend text name => .prepend (env.expand text) name
  | .report effect name value => .report effect name value

/-- The variable that an intent sets. -/
def assigned? : Intent → Option String
  | .assign _ name => some name
  | _ => none

def list? : Intent → Option String
  | .prepend _ name => some name
  | _ => none

/-- The variable that an intent is about, in either way. -/
def target? : Intent → Option String
  | .assign _ name => some name
  | .prepend _ name => some name
  | .report _ _ _ => none

theorem target?_expanded (env : Environment) (i : Intent) : (i.expanded env).target? = i.target? := by
  cases i <;> rfl

theorem list?_expanded (env : Environment) (i : Intent) : (i.expanded env).list? = i.list? := by
  cases i <;> rfl

theorem assigned?_expanded (env : Environment) (i : Intent) :
    (i.expanded env).assigned? = i.assigned? := by
  cases i <;> rfl

def apply (forward : Bool) : Intent → Machine → Machine
  | .assign value name, m => m.setVariable forward value name
  | .prepend value name, m => m.setPath forward value name
  | .report effect name value, m => m.report effect name value

/-- Takes up intents in order. The references of each are replaced when its turn has come. -/
def performAll (forward : Bool) (m : Machine) (intents : List Intent) : Machine :=
  intents.foldl (fun m i => (i.expanded m.env).apply forward m) m

@[simp] theorem performAll_nil (forward : Bool) (m : Machine) : performAll forward m [] = m := rfl

@[simp] theorem performAll_cons (forward : Bool) (m : Machine) (i : Intent) (rest : List Intent) :
    performAll forward m (i :: rest) =
      performAll forward ((i.expanded m.env).apply forward m) rest := rfl

theorem performAll_append (forward : Bool) (m : Machine) (l r : List Intent) :
    performAll forward m (l ++ r) = performAll forward (performAll forward m l) r :=
  List.foldl_append

end Intent

section Proceed

variable {ε σ α β : Type}

/-- Goes on from a result, if it is no fault. -/
def proceed (p : Except ε α × σ) (next : α → σ → Except ε β × σ) : Except ε β × σ :=
  match p with
  | (.ok a, state) => next a state
  | (.error fault, state) => (.error fault, state)

@[simp] theorem proceed_ok (a : α) (state : σ) (next : α → σ → Except ε β × σ) :
    proceed (.ok a, state) next = next a state := rfl

@[simp] theorem proceed_error (fault : ε) (state : σ) (next : α → σ → Except ε β × σ) :
    proceed (.error fault, state) next = (.error fault, state) := rfl

theorem error_ne_ok {fault : ε} {a : α} {s s' : σ} :
    ((.error fault, s) : Except ε α × σ) ≠ (.ok a, s') := by
  intro h
  have hf : Except.error fault = Except.ok a := congrArg Prod.fst h
  exact nomatch hf

theorem proceed_eq_ok {p : Except ε α × σ} {next : α → σ → Except ε β × σ} {b : β} {state : σ}
    (h : proceed p next = (.ok b, state)) :
    ∃ a s, p = (.ok a, s) ∧ next a s = (.ok b, state) := by
  rcases p with ⟨fault | a, s⟩
  · exact absurd h error_ne_ok
  · exact ⟨a, s, rfl, h⟩

theorem proceed_eq_error {p : Except ε α × σ} {next : α → σ → Except ε β × σ} {fault : ε} {state : σ}
    (h : proceed p next = (.error fault, state)) :
    p = (.error fault, state) ∨ ∃ a s, p = (.ok a, s) ∧ next a s = (.error fault, state) := by
  rcases p with ⟨fault' | a, s⟩
  · obtain rfl : fault' = fault := Except.error.inj (congrArg Prod.fst h)
    obtain rfl : s = state := congrArg Prod.snd h
    exact .inl rfl
  · exact .inr ⟨a, s, rfl, h⟩

theorem bind_apply (x : ExceptT ε (StateM σ) α) (f : α → ExceptT ε (StateM σ) β) (state : σ) :
    (x >>= f) state = proceed (x state) f := by
  show (match x state with | (r, next) => ExceptT.bindCont f r next) = _
  rcases x state with ⟨_ | _, next⟩ <;> rfl

theorem get_apply (state : σ) : (get : ExceptT ε (StateM σ) σ) state = (.ok state, state) := rfl

theorem modify_apply (f : σ → σ) (state : σ) :
    (modify f : ExceptT ε (StateM σ) PUnit) state = (.ok (), f state) := rfl

theorem ofExcept_apply (x : Except ε α) (state : σ) :
    (ofExcept x : ExceptT ε (StateM σ) α) state = (x, state) := by
  cases x <;> rfl

theorem forM_cons_apply (f : β → ExceptT ε (StateM σ) PUnit) (x : β) (xs : List β) (state : σ) :
    (x :: xs).forM f state = proceed (f x state) fun _ => xs.forM f := by
  show (f x >>= fun _ => xs.forM f) state = _
  rw [bind_apply]

end Proceed

/-- What holds of an empty block, and of a block if it holds of the rest and of the blocks inside its
first statement, holds of every block. -/
theorem Statement.block_induction {P : List Statement → Prop} (nil : P [])
    (simple : ∀ st rest, (∀ branches otherwise, st ≠ .choose branches otherwise) → P rest →
      P (st :: rest))
    (choose : ∀ branches otherwise rest, (∀ b ∈ branches, P b.2) → P otherwise → P rest →
      P (.choose branches otherwise :: rest)) (block : List Statement) : P block := by
  -- Statements are nested in the branches of a choice, which `induction` does not follow, so that the
  -- recursor is applied by hand. Of a statement it shows that the statement can be put before a block.
  let motive (st : Statement) : Prop := ∀ rest, P rest → P (st :: rest)
  have flat {st : Statement} (h : ∀ branches otherwise, st ≠ .choose branches otherwise) :
      motive st := fun rest hr => simple st rest h hr
  have first : ∀ st, motive st :=
    @Statement.rec motive (fun branches => ∀ b ∈ branches, P b.2) P (fun branch => P branch.2)
      (fun _ _ => flat nofun) (fun _ _ => flat nofun) (fun _ _ => flat nofun)
      (fun _ => flat nofun) (fun _ _ => flat nofun) (fun _ => flat nofun) (fun _ => flat nofun)
      (fun _ => flat nofun) (fun _ _ => flat nofun) (fun _ => flat nofun) (fun _ => flat nofun)
      (fun branches otherwise hb ho rest hr => choose branches otherwise rest hb ho hr)
      nofun (fun _ _ hb hr => List.forall_mem_cons.2 ⟨hb, hr⟩)
      nil (fun _ rest hst hr => hst rest hr)
      (fun _ _ h => h)
  induction block with
  | nil => exact nil
  | cons st rest ih => exact first st rest ih

/-- The policy that is in force after a statement. -/
def Statement.policyAfter (policy : Policy) : Statement → Policy
  | .matchVersions wanted => wanted
  | _ => policy

namespace Subject

variable (s : Subject)

/-- The intents by which a directory of an installation is recorded. -/
def installing (location : Location) (directory : String) : List Intent :=
  .assign directory (s.name.varName location.ending) ::
    (s.site.config.sharedVariable? location).toList.map (.prepend directory)

def installingTree (root : Path) : List Intent :=
  if s.site.tree.isDirectory root then
    .assign root.text (s.name.varName "ROOT") ::
      (s.site.tree.installation s.site.config.subdirectories root).flatMap fun found =>
        s.installing found.1 found.2.text
  else []

def reporting (effect : Effect) (text : String) : List Intent :=
  if s.mode = .display then [.report effect "" text] else []

/-- What a statement asks for. References that decide about more than one intent are replaced. -/
def intents (env : Environment) : Statement → List Intent
  | .setVariable value name => [.assign value name]
  | .setPackageVariable value ending => [.assign value (s.name.varName ending)]
  | .prependPath value name => [.prepend value name]
  -- The root is replaced on its own first, since it is searched before any variable is set.
  | .installTree root => s.installingTree ⟨env.expand root⟩
  | .install location directory => s.installing location (env.expand directory)
  | .require names => s.reporting .require (" ".intercalate (names.map env.expand))
  | .conflict names => s.reporting .conflict (" ".intercalate (names.map env.expand))
  | .load names => s.reporting .load (" ".intercalate (names.map env.expand))
  | .swap old new => s.reporting .swap (env.expand old ++ " " ++ env.expand new)
  | .describe text => s.reporting .describe (env.expand text)
  | .matchVersions _ => []
  | .choose _ _ => []

/-- Whether a statement is refused. -/
def verdict (e : Evaluation) : Statement → Except Fault Unit
  | .installTree root =>
    let root : Path := ⟨e.machine.env.expand root⟩
    if s.site.tree.isDirectory root then .ok () else .error (.missingRoot root)
  | .require names =>
    let names := names.map e.machine.env.expand
    if s.mode = .load ∧
        !names.any fun name => (e.machine.loaded.findMatching? e.policy (.parse name)).isSome then
      .error (.unmetPrerequisite s.name names)
    else .ok ()
  | .conflict names =>
    let names := names.map e.machine.env.expand
    match names.findSome? fun name => e.machine.loaded.findMatching? e.policy (.parse name) with
    | some hit => if s.mode = .load then .error (.conflict s.name hit) else .ok ()
    | none => .ok ()
  | _ => .ok ()

/-- Whether a statement is carried out by its own subject alone. -/
def IsPlain : Statement → Prop
  | .load _ => s.mode ≠ .load
  | .swap _ _ => s.mode ≠ .load
  | .choose _ _ => False
  | _ => True

/-- To load or to swap is only more than a report while the module is loaded. -/
theorem isPlain_of_mode_ne (hm : s.mode ≠ .load) {st : Statement}
    (hst : ∀ branches otherwise, st ≠ .choose branches otherwise) : s.IsPlain st := by
  cases st with
  | load names | swap old new => exact hm
  | choose branches otherwise => exact absurd rfl (hst branches otherwise)
  | _ => trivial

/-- The block of the first branch whose condition holds, or else the last one. -/
def chosen (e : Evaluation) (otherwise : List Statement) :
    List (Condition × List Statement) → List Statement
  | [] => otherwise
  | (condition, body) :: rest =>
    if condition.holds e.machine.env e.policy s.mode then body else chosen e otherwise rest

theorem expand_apply (text : String) (e : Evaluation) :
    EvaluationM.expand text e = (.ok (e.machine.env.expand text), e) := rfl

theorem environment_apply (e : Evaluation) :
    EvaluationM.environment e = (.ok e.machine.env, e) := rfl

theorem setVariable_apply (value name : String) (e : Evaluation) :
    s.setVariable value name e =
      (.ok (), ⟨Intent.performAll s.mode.isForward e.machine [.assign value name], e.policy⟩) := rfl

theorem setPath_apply (value name : String) (e : Evaluation) :
    s.setPath value name e =
      (.ok (), ⟨Intent.performAll s.mode.isForward e.machine [.prepend value name], e.policy⟩) := rfl

theorem install_apply (location : Location) (directory : String) (e : Evaluation) :
    s.install location directory e =
      (.ok (), ⟨Intent.performAll s.mode.isForward e.machine (s.installing location directory),
        e.policy⟩) := by
  unfold install installing
  cases s.site.config.sharedVariable? location <;> rfl

theorem install_forM_apply (found : List (Location × Path)) (e : Evaluation) :
    (found.forM fun (location, path) => s.install location path.text) e =
      (.ok (), ⟨Intent.performAll s.mode.isForward e.machine
        (found.flatMap fun f => s.installing f.1 f.2.text), e.policy⟩) := by
  induction found generalizing e with
  | nil => rfl
  | cons f rest ih =>
    rw [forM_cons_apply]
    show proceed (s.install f.1 f.2.text e) _ = _
    rw [install_apply, proceed_ok, ih]
    simp only [List.flatMap_cons, Intent.performAll_append]

theorem installTree_apply (root : String) (e : Evaluation) :
    s.installTree root e =
      (s.verdict e (.installTree root), ⟨Intent.performAll s.mode.isForward e.machine
        (s.intents e.machine.env (.installTree root)), e.policy⟩) := by
  unfold installTree
  rw [bind_apply, expand_apply, proceed_ok]
  by_cases h : s.site.tree.isDirectory ⟨e.machine.env.expand root⟩
  · simp only [h, Bool.not_true, Bool.false_eq_true, if_false]
    rw [bind_apply, setVariable_apply, proceed_ok, install_forM_apply]
    simp only [verdict, intents, installingTree, h, if_true, Intent.performAll_cons,
      Intent.performAll_nil]
  · simp only [verdict, intents, installingTree, h]
    rfl

theorem report_apply (effect : Effect) (text : String) (e : Evaluation) (h : s.mode = .display) :
    EvaluationM.onMachine (·.report effect "" text) e =
      (.ok (), ⟨Intent.performAll s.mode.isForward e.machine (s.reporting effect text),
        e.policy⟩) := by
  simp only [reporting, h, if_true]
  rfl

theorem require_apply (names : List String) (e : Evaluation) :
    s.require names e =
      (s.verdict e (.require names), ⟨Intent.performAll s.mode.isForward e.machine
        (s.intents e.machine.env (.require names)), e.policy⟩) := by
  unfold require
  rw [bind_apply, get_apply, proceed_ok]
  -- Only a load can be refused, and only a display has an intent.
  cases hm : s.mode with
  | display =>
    simp only [verdict, hm, reduceCtorEq, false_and, if_false]
    simpa only [intents, hm] using s.report_apply .require _ e hm
  | unload =>
    simp only [verdict, intents, reporting, hm, reduceCtorEq, false_and, if_false]
    rfl
  | load =>
    simp only [verdict, intents, reporting, hm, true_and, reduceCtorEq, if_false]
    split <;> rfl

theorem conflict_apply (names : List String) (e : Evaluation) :
    s.conflict names e =
      (s.verdict e (.conflict names), ⟨Intent.performAll s.mode.isForward e.machine
        (s.intents e.machine.env (.conflict names)), e.policy⟩) := by
  unfold conflict
  rw [bind_apply, get_apply, proceed_ok]
  cases hm : s.mode with
  | display =>
    -- A display looks for modules in conflict as well, but is not refused for one.
    have hv : s.verdict e (.conflict names) = .ok () := by
      simp only [verdict, hm, reduceCtorEq, if_false]
      split <;> rfl
    rw [hv]
    simpa only [intents, hm] using s.report_apply .conflict _ e hm
  | unload =>
    simp only [verdict, intents, reporting, hm, reduceCtorEq, if_false]
    split <;> rfl
  | load =>
    simp only [verdict, intents, reporting, hm, reduceCtorEq, if_false, if_true]
    cases (names.map e.machine.env.expand).findSome? _ <;> rfl

theorem load_apply_of_ne (names : List String) (e : Evaluation) (h : s.mode ≠ .load) :
    s.load names e =
      (.ok (), ⟨Intent.performAll s.mode.isForward e.machine
        (s.intents e.machine.env (.load names)), e.policy⟩) := by
  unfold load
  rw [bind_apply, environment_apply, proceed_ok]
  cases hm : s.mode with
  | display => simpa only [intents, hm] using s.report_apply .load _ e hm
  | unload =>
    simp only [intents, reporting, hm, reduceCtorEq, if_false]
    rfl
  | load => exact absurd hm h

theorem swap_apply_of_ne (old new : String) (e : Evaluation) (h : s.mode ≠ .load) :
    s.swap old new e =
      (.ok (), ⟨Intent.performAll s.mode.isForward e.machine
        (s.intents e.machine.env (.swap old new)), e.policy⟩) := by
  unfold swap
  rw [bind_apply, environment_apply, proceed_ok]
  cases hm : s.mode with
  | display => simpa only [intents, hm] using s.report_apply .swap _ e hm
  | unload =>
    simp only [intents, reporting, hm, reduceCtorEq, if_false]
    rfl
  | load => exact absurd hm h

theorem describe_apply (text : String) (e : Evaluation) :
    s.describe text e =
      (.ok (), ⟨Intent.performAll s.mode.isForward e.machine
        (s.intents e.machine.env (.describe text)), e.policy⟩) := by
  unfold describe
  cases hm : s.mode with
  | display =>
    show (EvaluationM.expand text >>= _) e = _
    rw [bind_apply, expand_apply, proceed_ok]
    simpa only [intents, hm] using s.report_apply .describe _ e hm
  | unload | load =>
    simp only [intents, reporting, hm, reduceCtorEq, if_false]
    rfl

/-- A plain statement comes down to its verdict and its intents. -/
theorem runStatement_of_isPlain {st : Statement} (h : s.IsPlain st) (e : Evaluation) :
    s.runStatement st e =
      (s.verdict e st, ⟨Intent.performAll s.mode.isForward e.machine (s.intents e.machine.env st),
        st.policyAfter e.policy⟩) := by
  cases st with
  | setVariable value name =>
    rw [runStatement]
    exact s.setVariable_apply value name e
  | setPackageVariable value ending =>
    rw [runStatement]
    exact s.setVariable_apply value _ e
  | prependPath value name =>
    rw [runStatement]
    exact s.setPath_apply value name e
  | installTree root =>
    rw [runStatement]
    exact s.installTree_apply root e
  | install location directory =>
    rw [runStatement, bind_apply, expand_apply, proceed_ok]
    exact s.install_apply location _ e
  | require names =>
    rw [runStatement]
    exact s.require_apply names e
  | conflict names =>
    rw [runStatement]
    exact s.conflict_apply names e
  | load names =>
    rw [runStatement]
    exact s.load_apply_of_ne names e h
  | swap old new =>
    rw [runStatement]
    exact s.swap_apply_of_ne old new e h
  | describe text =>
    rw [runStatement]
    exact s.describe_apply text e
  | matchVersions policy =>
    rw [runStatement]
    rfl
  | choose branches otherwise => exact h.elim

theorem chosen_induction {P : List Statement → Prop} (e : Evaluation)
    {branches : List (Condition × List Statement)} {otherwise : List Statement}
    (hb : ∀ b ∈ branches, P b.2) (ho : P otherwise) : P (s.chosen e otherwise branches) := by
  induction branches with
  | nil => exact ho
  | cons branch rest ih =>
    rw [chosen]
    split
    · exact hb _ List.mem_cons_self
    · exact ih fun b h => hb b (List.mem_cons_of_mem _ h)

theorem runBranches_apply (branches : List (Condition × List Statement))
    (otherwise : List Statement) (e : Evaluation) :
    s.runBranches branches (s.runBlock otherwise) e =
      s.runBlock (s.chosen e otherwise branches) e := by
  induction branches with
  | nil => rw [runBranches, chosen]
  | cons branch rest ih =>
    rw [runBranches, bind_apply, get_apply, proceed_ok, chosen]
    split
    · rfl
    · exact ih

theorem runStatement_choose_apply (branches : List (Condition × List Statement))
    (otherwise : List Statement) (e : Evaluation) :
    s.runStatement (.choose branches otherwise) e =
      s.runBlock (s.chosen e otherwise branches) e := by
  rw [runStatement]
  exact s.runBranches_apply branches otherwise e

theorem ofTransition_apply {α : Type} (x : TransitionM α) (e : Evaluation) :
    EvaluationM.ofTransition x e = ((x e.machine).1, ⟨(x e.machine).2, e.policy⟩) := rfl

theorem ofTransition_eq {α : Type} {x : TransitionM α} {e e' : Evaluation} {outcome : Except Fault α}
    (h : EvaluationM.ofTransition x e = (outcome, e')) : x e.machine = (outcome, e'.machine) := by
  rw [ofTransition_apply] at h
  obtain ⟨ho, he⟩ := Prod.ext_iff.1 h
  exact Prod.ext ho (congrArg Evaluation.machine he)

theorem toTransition_eq {α : Type} {x : EvaluationM α} {m m' : Machine} {outcome : Except Fault α}
    (h : x.toTransition m = (outcome, m')) : ∃ e, x ⟨m, .equal⟩ = (outcome, e) ∧ e.machine = m' := by
  obtain ⟨ho, he⟩ := Prod.ext_iff.1 h
  exact ⟨_, Prod.ext ho rfl, he⟩

theorem runStatement_load_apply (names : List String) (e : Evaluation) (h : s.mode = .load) :
    s.runStatement (.load names) e =
      EvaluationM.ofTransition (s.nested .load (names.map e.machine.env.expand)) e := by
  rw [runStatement, load, bind_apply, environment_apply, proceed_ok, h]

theorem runStatement_swap_apply (old new : String) (e : Evaluation) (h : s.mode = .load) :
    s.runStatement (.swap old new) e =
      proceed (EvaluationM.ofTransition (s.nested .unload [e.machine.env.expand old]) e) fun _ =>
        EvaluationM.ofTransition (s.nested .load [e.machine.env.expand new]) := by
  rw [runStatement, swap, bind_apply, environment_apply, proceed_ok, h]
  exact bind_apply _ _ e

theorem runBlock_nil_apply (e : Evaluation) : s.runBlock [] e = (.ok (), e) := by
  rw [runBlock]
  rfl

theorem runBlock_cons_apply (st : Statement) (rest : List Statement) (e : Evaluation) :
    s.runBlock (st :: rest) e = proceed (s.runStatement st e) fun _ => s.runBlock rest := by
  rw [runBlock, bind_apply]

end Subject

end EnvModules
