import EnvModules.Proofs.Perform
import Mathlib.Computability.StateTransition

/-!
Taking modules through a mode one step at a time. What is still to be done stands on a stack, and a counter says
how many nested transitions are under way. Descriptors may load and swap each other in any way, and a swap takes
back the record that would keep a module from being visited again, so that it is the counter alone, which is
looked at before a nested transition begins, that brings every transition to an end.
-/

namespace EnvModules

open StateTransition TransitionM

/-- Something that is still to be done. -/
inductive Frame where
  /-- Names that have yet to be taken through a mode. -/
  | names (mode : Mode) (rest : List String)
  /-- A descriptor under evaluation: its module, the policy in force, and the statements yet to be run. -/
  | descriptor (name : Name) (mode : Mode) (policy : Policy) (rest : List Statement)
  /-- Nested transitions that a statement has yet to make. -/
  | calls (rest : List (Mode × List String))
  /-- The end of a nested transition. -/
  | ending

inductive Frame.Kind where
  | names
  | descriptor
  | calls
  | ending
  deriving DecidableEq, Repr

def Frame.kind : Frame → Kind
  | .names _ _ => .names
  | .descriptor _ _ _ _ => .descriptor
  | .calls _ => .calls
  | .ending => .ending

structure Engine where
  machine : Machine
  /-- How many nested transitions are under way. -/
  depth : Nat
  /-- A fault, once one has come up. What is still on the stack is given up then. -/
  outcome : Except Fault Unit
  /-- What is still to be done, the innermost first. -/
  frames : List Frame

/-- How many descriptors are under evaluation. -/
def Engine.nesting (e : Engine) : Nat := (e.frames.map Frame.kind).count .descriptor

namespace Subject

variable (s : Subject)

/-- The nested transitions that a statement makes. All names are replaced before the first of them. -/
def calls (env : Environment) : Statement → List (Mode × List String)
  | .load names => if s.mode = .load then [(.load, names.map env.expand)] else []
  | .swap old new =>
    if s.mode = .load then [(.unload, [env.expand old]), (.load, [env.expand new])] else []
  | _ => []

/-- The statements that a choice leads to. -/
def inside (e : Evaluation) : Statement → List Statement
  | .choose branches otherwise => s.chosen e otherwise branches
  | _ => []

/-- What a statement does by itself. -/
def deed (st : Statement) (e : Evaluation) : Except Fault Unit × Evaluation :=
  (s.verdict e st,
    ⟨Intent.performAll s.mode.isForward e.machine (s.intents e.machine.env st), st.policyAfter e.policy⟩)

end Subject

namespace Engine

/-- Ends a nested transition. -/
def leave (e : Engine) (below : List Frame) : Option Engine :=
  match e.depth with
  | 0 => none
  | depth + 1 => some { e with depth, frames := below }

/-- Begins the next nested transition, unless the limit is reached. -/
def takeCall (e : Engine) (below : List Frame) : List (Mode × List String) → Engine
  | [] => { e with frames := below }
  | (mode, names) :: rest =>
    let below := .calls rest :: below
    if nestingLimit ≤ e.depth then { e with outcome := .error (.tooDeep names), frames := below }
    else { e with depth := e.depth + 1, frames := .names mode names :: .ending :: below }

end Engine

namespace Site

variable (s : Site)

/-- A module as a subject that leaves other modules to its surroundings. -/
def subject (name : Name) (mode : Mode) : Subject := ⟨s, name, mode, fun _ _ => pure ()⟩

/-- Takes up the next name, and begins to evaluate the descriptor that it leads to, if there is one. -/
def takeName (e : Engine) (mode : Mode) (below : List Frame) : List String → Engine
  | [] => { e with frames := below }
  | name :: rest =>
    let below := .names mode rest :: below
    match s.visited e.machine.loaded name mode with
    | .error fault => { e with outcome := .error fault, frames := below }
    | .ok none => { e with frames := below }
    | .ok (some found) =>
      match s.statements found.path with
      | .error fault => { e with outcome := .error fault, frames := below }
      | .ok statements =>
        { e with
          machine := e.machine.entering e.depth mode found.name
          frames := .descriptor found.name mode .equal statements :: below }

/-- Runs the next statement. What a choice leads to takes its place. -/
def takeStatement (e : Engine) (name : Name) (mode : Mode) (policy : Policy) (below : List Frame) :
    List Statement → Engine
  | [] => { e with machine := e.machine.leaving mode name, frames := below }
  | st :: rest =>
    let subject := s.subject name mode
    let now : Evaluation := ⟨e.machine, policy⟩
    let (outcome, next) := subject.deed st now
    { e with
      machine := next.machine
      outcome
      frames := .calls (subject.calls e.machine.env st) ::
        .descriptor name mode next.policy (subject.inside now st ++ rest) :: below }

/-- One step. After a fault the stack is taken down, and every nested transition on it is still ended. -/
def step (e : Engine) : Option Engine :=
  match e.frames, e.outcome with
  | [], _ => none
  | .ending :: below, _ => e.leave below
  | _ :: below, .error _ => some { e with frames := below }
  | .names mode rest :: below, .ok () => some (s.takeName e mode below rest)
  | .descriptor name mode policy rest :: below, .ok () =>
    some (s.takeStatement e name mode policy below rest)
  | .calls rest :: below, .ok () => some (e.takeCall below rest)

end Site

/-! ### Where the steps lead -/

theorem proceed_pure {ε σ : Type} (p : Except ε PUnit × σ) :
    proceed p (fun _ => (pure () : ExceptT ε (StateM σ) PUnit)) = p := by
  rcases p with ⟨_ | _, state⟩ <;> rfl

theorem forM_singleton_apply {ε σ β : Type} (f : β → ExceptT ε (StateM σ) PUnit) (x : β) (state : σ) :
    [x].forM f state = f x state := by
  rw [forM_cons_apply]
  exact proceed_pure (f x state)

namespace Subject

variable (s : Subject)

theorem proceed_runBlock_nil (p : Except Fault Unit × Evaluation) :
    proceed p (fun _ => s.runBlock []) = p := by
  rw [runBlock]
  exact proceed_pure p

/-- A statement that brings in other modules does nothing by itself while its module is loaded. -/
theorem deed_of_load (hm : s.mode = .load) {st : Statement}
    (hst : (∃ names, st = .load names) ∨ ∃ old new, st = .swap old new) (e : Evaluation) :
    s.deed st e = (.ok (), e) := by
  rcases hst with ⟨names, rfl⟩ | ⟨old, new, rfl⟩ <;>
    simp [deed, verdict, intents, reporting, hm, Statement.policyAfter]

/-- A statement comes down to what it does by itself, its nested transitions, and what it leads to. At most one
of the three is more than nothing. -/
theorem runStatement_apply (st : Statement) (e : Evaluation) :
    s.runStatement st e =
      proceed (proceed (s.deed st e) fun _ => EvaluationM.ofTransition
        ((s.calls e.machine.env st).forM fun c => s.nested c.1 c.2))
        fun _ => s.runBlock (s.inside e st) := by
  by_cases hst : ∃ branches otherwise, st = .choose branches otherwise
  · obtain ⟨branches, otherwise, rfl⟩ := hst
    rw [s.runStatement_choose_apply]
    rfl
  have hi : s.inside e st = [] := by
    cases st with
    | choose branches otherwise => exact absurd ⟨branches, otherwise, rfl⟩ hst
    | _ => rfl
  rw [hi, proceed_runBlock_nil]
  have plain (h : s.IsPlain st) (hc : s.calls e.machine.env st = []) :
      s.runStatement st e = proceed (s.deed st e) fun _ => EvaluationM.ofTransition
        ((s.calls e.machine.env st).forM fun c => s.nested c.1 c.2) := by
    rw [s.runStatement_of_isPlain h, hc, deed]
    rcases s.verdict e st with fault | _ <;> rfl
  cases st with
  | load names =>
    by_cases hm : s.mode = .load
    · rw [s.runStatement_load_apply names e hm, s.deed_of_load hm (.inl ⟨names, rfl⟩), proceed_ok, calls,
        if_pos hm]
      simp only [ofTransition_apply, forM_singleton_apply]
    · exact plain hm (if_neg hm)
  | swap old new =>
    by_cases hm : s.mode = .load
    · rw [s.runStatement_swap_apply old new e hm, s.deed_of_load hm (.inr ⟨old, new, rfl⟩), proceed_ok, calls,
        if_pos hm, ofTransition_apply, ofTransition_apply, forM_cons_apply]
      rcases s.nested .unload [e.machine.env.expand old] e.machine with ⟨fault | _, m⟩
      · rfl
      · simp only [proceed_ok, ofTransition_apply, forM_singleton_apply]
    · exact plain hm (if_neg hm)
  | choose branches otherwise => exact absurd ⟨branches, otherwise, rfl⟩ hst
  | _ => exact plain trivial rfl

/-- What a subject does by itself does not depend on how it would bring in other modules. -/
theorem deed_congr (nested : Mode → List String → TransitionM Unit) (st : Statement) (e : Evaluation) :
    Subject.deed { s with nested } st e = s.deed st e := by
  cases st <;> rfl

theorem calls_congr (nested : Mode → List String → TransitionM Unit) (env : Environment) (st : Statement) :
    Subject.calls { s with nested } env st = s.calls env st := by
  cases st <;> rfl

theorem inside_congr (nested : Mode → List String → TransitionM Unit) (e : Evaluation) (st : Statement) :
    Subject.inside { s with nested } e st = s.inside e st := by
  cases st with
  | choose branches otherwise =>
    induction branches with
    | nil => rfl
    | cons branch rest ih =>
      simp only [inside, chosen] at ih ⊢
      rw [ih]
  | _ => rfl

end Subject

namespace Engine

/-- The engine that a transition leaves to what is below it on the stack. -/
def after (p : Except Fault Unit × Machine) (depth : Nat) (below : List Frame) : Engine :=
  ⟨p.2, depth, p.1, below⟩

/-- The engine in the middle of a descriptor. If a statement has failed, the rest of it is given up. -/
def within (name : Name) (mode : Mode) (depth : Nat) (rest : List Statement) (below : List Frame) :
    Except Fault Unit × Evaluation → Engine
  | (.ok (), e) => ⟨e.machine, depth, .ok (), .descriptor name mode e.policy rest :: below⟩
  | (.error fault, e) => ⟨e.machine, depth, .error fault, below⟩

end Engine

namespace Site

variable {s : Site} {depth : Nat} {below : List Frame}

theorem reaches_of_step {e e' : Engine} (h : s.step e = some e') : Reaches s.step e e' :=
  Relation.ReflTransGen.single h

theorem reaches_pop (frame : Frame) (hf : frame ≠ .ending) (fault : Fault) (m : Machine) :
    Reaches s.step ⟨m, depth, .error fault, frame :: below⟩ ⟨m, depth, .error fault, below⟩ := by
  apply reaches_of_step
  cases frame with
  | ending => exact absurd rfl hf
  | _ => rfl

/-- What comes next in a frame only has to be followed if there is no fault. -/
theorem reaches_proceed (frame : Frame) (hf : frame ≠ .ending) (p : Except Fault Unit × Machine)
    {next : Machine → Except Fault Unit × Machine}
    (h : ∀ m, Reaches s.step ⟨m, depth, .ok (), frame :: below⟩ (.after (next m) depth below)) :
    Reaches s.step (.after p depth (frame :: below)) (.after (proceed p fun _ => next) depth below) := by
  rcases p with ⟨fault | _, m⟩
  · exact reaches_pop frame hf fault m
  · exact h m

section Block

variable {name : Name} {mode : Mode} {nested : Mode → List String → TransitionM Unit}

/-- The nested transitions of a statement lead where the ones of the evaluation do. -/
def CallsReach (s : Site) (depth : Nat) (nested : Mode → List String → TransitionM Unit) : Prop :=
  ∀ (calls : List (Mode × List String)) (m : Machine) (below : List Frame),
    Reaches s.step ⟨m, depth, .ok (), .calls calls :: below⟩
      (.after (calls.forM (fun c => nested c.1 c.2) m) depth below)

theorem reaches_within {rest rest' : List Statement} (p : Except Fault Unit × Evaluation)
    {next : Evaluation → Except Fault Unit × Evaluation}
    (h : ∀ e, Reaches s.step (.within name mode depth rest below (.ok (), e))
      (.within name mode depth rest' below (next e))) :
    Reaches s.step (.within name mode depth rest below p)
      (.within name mode depth rest' below (proceed p fun _ => next)) := by
  rcases p with ⟨fault | _, e⟩
  · exact .refl
  · exact h e

theorem reaches_statement (below : List Frame) (name : Name) (mode : Mode) (hc : s.CallsReach depth nested)
    (st : Statement) (rest : List Statement) (e : Evaluation) :
    let subject : Subject := ⟨s, name, mode, nested⟩
    Reaches s.step (.within name mode depth (st :: rest) below (.ok (), e))
      (.within name mode depth (subject.inside e st ++ rest) below
        (proceed (subject.deed st e) fun _ => EvaluationM.ofTransition
          ((subject.calls e.machine.env st).forM fun c => nested c.1 c.2))) := by
  intro subject
  have hdeed : (s.subject name mode).deed st e = subject.deed st e :=
    (subject.deed_congr (s.subject name mode).nested st e)
  have hcalls := subject.calls_congr (s.subject name mode).nested e.machine.env st
  have hinside := subject.inside_congr (s.subject name mode).nested e st
  have hstep : s.step (.within name mode depth (st :: rest) below (.ok (), e)) =
      some ⟨(subject.deed st e).2.machine, depth, (subject.deed st e).1,
        .calls (subject.calls e.machine.env st) ::
          .descriptor name mode (subject.deed st e).2.policy (subject.inside e st ++ rest) :: below⟩ := by
    rw [← hdeed, ← hcalls, ← hinside]
    rfl
  refine .head hstep ?_
  rcases subject.deed st e with ⟨fault | _, e₁⟩
  · -- The nested transitions and the rest of the descriptor are given up.
    exact (reaches_pop (.calls _) nofun fault _).trans (reaches_pop (.descriptor _ _ _ _) nofun fault _)
  · refine (hc _ _ _).trans ?_
    rw [proceed_ok, Subject.ofTransition_apply]
    rcases (subject.calls e.machine.env st).forM (fun c => nested c.1 c.2) e₁.machine with ⟨fault | _, m⟩
    · exact reaches_pop (.descriptor _ _ _ _) nofun fault m
    · exact .refl

/-- Running a block leads from before it to after it, whatever statements follow. -/
theorem reaches_block (below : List Frame) (name : Name) (mode : Mode) (hc : s.CallsReach depth nested)
    (block rest : List Statement) (e : Evaluation) :
    Reaches s.step (.within name mode depth (block ++ rest) below (.ok (), e))
      (.within name mode depth rest below (Subject.runBlock ⟨s, name, mode, nested⟩ block e)) := by
  induction block using Statement.block_induction generalizing rest e with
  | nil =>
    rw [Subject.runBlock_nil_apply]
    exact .refl
  | simple st more hst ih =>
    have hinside : Subject.inside ⟨s, name, mode, nested⟩ e st = [] := by
      cases st with
      | choose branches otherwise => exact absurd rfl (hst branches otherwise)
      | _ => rfl
    have hfirst := reaches_statement below name mode hc st (more ++ rest) e
    rw [Subject.runBlock_cons_apply, Subject.runStatement_apply]
    simp only [hinside, List.nil_append, Subject.proceed_runBlock_nil] at hfirst ⊢
    exact hfirst.trans (reaches_within _ fun e₁ => ih rest e₁)
  | choose branches otherwise more hb ho ih =>
    -- The block that is chosen takes the place of the choice.
    have hfirst := reaches_statement below name mode hc (.choose branches otherwise) (more ++ rest) e
    rw [Subject.runBlock_cons_apply, Subject.runStatement_apply]
    refine (hfirst.trans (reaches_within _ fun e₁ => ?_)).trans (reaches_within _ fun e₁ => ih rest e₁)
    apply Subject.chosen_induction (P := fun block => ∀ rest e,
      Reaches s.step (.within name mode depth (block ++ rest) below (.ok (), e))
        (.within name mode depth rest below (Subject.runBlock ⟨s, name, mode, nested⟩ block e))) _ e hb ho

/-- From where a descriptor begins, its evaluation leads to the end of the visit. -/
theorem reaches_visit (hc : s.CallsReach depth nested) {found : Resolved} {statements : List Statement}
    (hst : s.statements found.path = .ok statements) (m : Machine) :
    Reaches s.step (.within found.name mode depth statements below
        (.ok (), ⟨m.entering depth mode found.name, .equal⟩))
      (.after (s.visit depth nested mode found m) depth below) := by
  have hblock := reaches_block below found.name mode hc statements []
    ⟨m.entering depth mode found.name, .equal⟩
  rw [List.append_nil] at hblock
  refine hblock.trans ?_
  rw [visit_apply, hst]
  simp only [EvaluationM.toTransition]
  rcases Subject.runBlock ⟨s, found.name, mode, nested⟩ statements
    ⟨m.entering depth mode found.name, .equal⟩ with ⟨fault | _, e⟩
  · exact .refl
  · exact reaches_of_step rfl

end Block

/-- A nested transition leads where the levels that are left for it do. -/
theorem callsReach_of_levels {levels : Nat} (hl : levels ≤ nestingLimit)
    (hr : ∀ deeper, levels = deeper + 1 →
      ∀ (mode : Mode) (names : List String) (m : Machine) (below : List Frame),
        Reaches s.step ⟨m, nestingLimit - deeper, .ok (), .names mode names :: below⟩
          (.after (s.runWithin deeper mode names m) (nestingLimit - deeper) below)) :
    s.CallsReach (nestingLimit - levels) (s.nestedWithin levels) := by
  intro calls m below
  induction calls generalizing m with
  | nil => exact reaches_of_step rfl
  | cons call rest ih =>
    obtain ⟨mode, names⟩ := call
    rw [forM_cons_apply]
    refine .trans ?_ (reaches_proceed (.calls rest) nofun _ fun m => ih m)
    cases levels with
    | zero =>
      -- At the limit the first nested transition is refused, and the others are given up with the frame.
      apply reaches_of_step
      rfl
    | succ deeper =>
      -- A nested transition raises the counter, runs one level further down, and lowers it again.
      have hd : nestingLimit - (deeper + 1) + 1 = nestingLimit - deeper := by omega
      have hbegin : s.step ⟨m, nestingLimit - (deeper + 1), .ok (), .calls ((mode, names) :: rest) :: below⟩ =
          some ⟨m, nestingLimit - deeper, .ok (), .names mode names :: .ending :: .calls rest :: below⟩ := by
        have hlt : ¬ nestingLimit ≤ nestingLimit - (deeper + 1) := by omega
        simp only [step, Engine.takeCall, hlt, if_false, hd]
      have hend : s.step (.after (s.runWithin deeper mode names m) (nestingLimit - deeper)
          (.ending :: .calls rest :: below)) =
          some (.after (s.runWithin deeper mode names m) (nestingLimit - (deeper + 1))
            (.calls rest :: below)) := by
        rw [← hd]
        rfl
      exact .head hbegin (.tail (hr deeper rfl mode names m _) hend)

/-- A level leads where its names do, one after the other. -/
theorem reaches_level {levels : Nat} (hc : s.CallsReach (nestingLimit - levels) (s.nestedWithin levels))
    (mode : Mode) (names : List String) (m : Machine) (below : List Frame) :
    Reaches s.step ⟨m, nestingLimit - levels, .ok (), .names mode names :: below⟩
      (.after (s.runWithin levels mode names m) (nestingLimit - levels) below) := by
  rw [runWithin_eq]
  induction names generalizing m with
  | nil => exact reaches_of_step rfl
  | cons name rest ih =>
    rw [forM_cons_apply, runOne_apply]
    refine .trans ?_ (reaches_proceed (.names mode rest) nofun _ fun m => ih m)
    have hstep : s.step ⟨m, nestingLimit - levels, .ok (), .names mode (name :: rest) :: below⟩ =
        some (s.takeName ⟨m, nestingLimit - levels, .ok (), .names mode (name :: rest) :: below⟩ mode below
          (name :: rest)) := rfl
    refine .head hstep ?_
    rw [takeName]
    -- A name that no module has, and a module that there is nothing to do for, have no descriptor to run.
    rcases s.visited m.loaded name mode with fault | _ | found
    · exact .refl
    · exact .refl
    · simp only
      rcases hst : s.statements found.path with fault | statements
      · rw [visit_apply, hst]
        exact .refl
      · exact reaches_visit hc hst m

/-- With some levels left, a transition leads where its steps do, at the depth that the levels leave. -/
theorem reaches_runWithin {levels : Nat} (hl : levels ≤ nestingLimit) (mode : Mode) (names : List String)
    (m : Machine) (below : List Frame) :
    Reaches s.step ⟨m, nestingLimit - levels, .ok (), .names mode names :: below⟩
      (.after (s.runWithin levels mode names m) (nestingLimit - levels) below) := by
  induction levels generalizing mode names m below with
  | zero => exact reaches_level (callsReach_of_levels hl nofun) mode names m below
  | succ levels ih =>
    refine reaches_level (callsReach_of_levels hl ?_) mode names m below
    rintro deeper ⟨⟩
    exact ih (by omega)

end Site

/-! ### What can stand on the stack -/

namespace Frame.Kind

/-- Each kind of frame stands on one other kind, and only names can stand on nothing. So a descriptor has to end
one nested transition before it can begin the next. -/
def standsOn : Kind → List Kind → Bool
  | .names, [] => true
  | .names, .ending :: _ => true
  | .descriptor, .names :: _ => true
  | .calls, .descriptor :: _ => true
  | .ending, .calls :: _ => true
  | _, _ => false

def Stacked : List Kind → Prop
  | [] => True
  | kind :: below => kind.standsOn below = true ∧ Stacked below

/-- Whether a descriptor is under evaluation above all nested transitions. -/
def isOpen : List Kind → Bool
  | .descriptor :: _ => true
  | .calls :: _ => true
  | _ => false

/-- There is a descriptor for each nested transition, and one more if the innermost is open. -/
theorem Stacked.count_descriptor {kinds : List Kind} (h : Stacked kinds) :
    kinds.count .descriptor = kinds.count .ending + (isOpen kinds).toNat := by
  induction kinds with
  | nil => rfl
  | cons kind below ih =>
    obtain ⟨hk, hb⟩ := h
    have hcount := ih hb
    rcases kind with _ | _ | _ | _ <;> rcases below with _ | ⟨_ | _ | _ | _, below⟩ <;>
      simp_all [standsOn, isOpen]

end Frame.Kind

/-- An engine that began at some depth, and whose counter says how many nested transitions are on the stack. -/
structure Engine.Sound (start : Nat) (e : Engine) : Prop where
  stacked : Frame.Kind.Stacked (e.frames.map Frame.kind)
  depth_eq : e.depth = start + (e.frames.map Frame.kind).count .ending
  depth_le : e.depth ≤ nestingLimit

namespace Engine.Sound

variable {start depth : Nat} {m m' : Machine} {outcome outcome' : Except Fault Unit}
variable {frame : Frame} {below : List Frame} {e e' : Engine} {s : Site}

theorem nesting_le (h : e.Sound start) : e.nesting ≤ nestingLimit + 1 - start := by
  obtain ⟨hs, he, hl⟩ := h
  have hcount := hs.count_descriptor
  have hone := Bool.toNat_le (Frame.Kind.isOpen (e.frames.map Frame.kind))
  rw [nesting]
  omega

/-- The machine and the outcome are of no account. -/
theorem congr (h : Sound start ⟨m, depth, outcome, below⟩) : Sound start ⟨m', depth, outcome', below⟩ :=
  ⟨h.stacked, h.depth_eq, h.depth_le⟩

/-- A frame that is no end of a nested transition can be taken off. -/
theorem pop (h : Sound start ⟨m, depth, outcome, frame :: below⟩) (hf : frame.kind ≠ .ending) :
    Sound start ⟨m', depth, outcome', below⟩ where
  stacked := h.stacked.2
  depth_eq := by simpa [hf] using h.depth_eq
  depth_le := h.depth_le

/-- A frame that is no end of a nested transition can be put on what it stands on. -/
theorem push (h : Sound start ⟨m, depth, outcome, below⟩) (frame : Frame) (hf : frame.kind ≠ .ending)
    (hon : frame.kind.standsOn (below.map Frame.kind) = true) :
    Sound start ⟨m', depth, outcome', frame :: below⟩ where
  stacked := ⟨hon, h.stacked⟩
  depth_eq := by simpa [hf] using h.depth_eq
  depth_le := h.depth_le

/-- A frame can be changed into another one of its kind. -/
theorem replace (h : Sound start ⟨m, depth, outcome, frame :: below⟩) (frame' : Frame)
    (hk : frame'.kind = frame.kind) : Sound start ⟨m', depth, outcome', frame' :: below⟩ where
  stacked := by simpa [hk] using h.stacked
  depth_eq := by simpa [hk] using h.depth_eq
  depth_le := h.depth_le

/-- A nested transition that ends takes the counter back by the one that it has raised it by. -/
theorem leave (h : e.Sound start) (hf : e.frames = .ending :: below) (hl : e.leave below = some e') :
    e'.Sound start := by
  obtain ⟨m, depth, outcome, frames⟩ := e
  obtain rfl : frames = .ending :: below := hf
  obtain ⟨hs, he, hle⟩ := h
  cases depth with
  | zero => exact nomatch hl
  | succ depth =>
    obtain rfl := Option.some.inj hl
    refine ⟨hs.2, ?_, ?_⟩
    · simp [Frame.kind] at he ⊢
      omega
    · simp at hle ⊢
      omega

theorem takeName (mode : Mode) (rest : List String)
    (h : Sound start ⟨m, depth, outcome, .names mode rest :: below⟩) :
    Sound start (s.takeName ⟨m, depth, outcome, .names mode rest :: below⟩ mode below rest) := by
  cases rest with
  | nil => exact h.pop nofun
  | cons name rest =>
    have hrest (outcome' : Except Fault Unit) :
        Sound start ⟨m, depth, outcome', .names mode rest :: below⟩ := h.replace (.names mode rest) rfl
    rw [Site.takeName]
    rcases s.visited m.loaded name mode with fault | _ | found
    · exact hrest _
    · exact hrest _
    · simp only
      rcases s.statements found.path with fault | statements
      · exact hrest _
      · exact (hrest outcome).push (.descriptor found.name mode .equal statements) nofun rfl

theorem takeStatement (name : Name) (mode : Mode) (policy : Policy) (rest : List Statement)
    (h : Sound start ⟨m, depth, outcome, .descriptor name mode policy rest :: below⟩) :
    Sound start (s.takeStatement ⟨m, depth, outcome, .descriptor name mode policy rest :: below⟩
      name mode policy below rest) := by
  cases rest with
  | nil => exact h.pop nofun
  | cons st rest =>
    rw [Site.takeStatement]
    have hrest (policy' : Policy) (rest' : List Statement) :
        Sound start ⟨m, depth, outcome, .descriptor name mode policy' rest' :: below⟩ :=
      h.replace (.descriptor name mode policy' rest') rfl
    exact (hrest _ _).push (.calls _) nofun rfl

/-- A nested transition begins only below the limit. -/
theorem takeCall (rest : List (Mode × List String))
    (h : Sound start ⟨m, depth, outcome, .calls rest :: below⟩) :
    Sound start (Engine.takeCall ⟨m, depth, outcome, .calls rest :: below⟩ below rest) := by
  cases rest with
  | nil => exact h.pop nofun
  | cons call rest =>
    have hrest : Sound start ⟨m, depth, outcome, .calls rest :: below⟩ := h.replace (.calls rest) rfl
    rw [Engine.takeCall]
    simp only
    split
    · exact hrest.congr
    · next hlt =>
      obtain ⟨hs, he, -⟩ := hrest
      refine ⟨⟨rfl, rfl, hs⟩, ?_, ?_⟩
      · simp [Frame.kind] at he ⊢
        omega
      · simp at hlt ⊢
        omega

theorem step (h : e.Sound start) (hstep : s.step e = some e') : e'.Sound start := by
  obtain ⟨m, depth, outcome, frames⟩ := e
  rcases frames with _ | ⟨frame, below⟩
  · exact nomatch hstep
  -- After a fault a frame is taken off, unless it ends a nested transition. Otherwise it is taken up.
  rcases outcome with fault | _
  · cases frame with
    | ending => exact h.leave rfl hstep
    | _ =>
      obtain rfl := Option.some.inj hstep
      exact h.pop nofun
  · cases frame with
    | ending => exact h.leave rfl hstep
    | names mode rest =>
      obtain rfl := Option.some.inj hstep
      exact h.takeName mode rest
    | descriptor name mode policy rest =>
      obtain rfl := Option.some.inj hstep
      exact h.takeStatement name mode policy rest
    | calls rest =>
      obtain rfl := Option.some.inj hstep
      exact h.takeCall rest

theorem of_reaches (h : e.Sound start) (hr : Reaches s.step e e') : e'.Sound start := by
  induction hr with
  | refl => exact h
  | tail _ hstep ih => exact ih.step hstep

end Engine.Sound

namespace Site

/-- Taking modules through a mode comes to an end, whatever their descriptors load and swap, with the outcome
and the machine of the transition and nothing left on the stack. The counter is then what it was before, be it
after a success or a fault. On the way it never passes the limit, and one descriptor more than the limit are the
most that are under evaluation at once. From depth zero the transition is `run`. -/
theorem runWithin_terminates (s : Site) (mode : Mode) (names : List String) (m : Machine) {depth : Nat}
    (hd : depth ≤ nestingLimit) :
    let start : Engine := ⟨m, depth, .ok (), [.names mode names]⟩
    ∃ last ∈ eval s.step start, last.frames = [] ∧
      (last.outcome, last.machine) = s.runWithin (nestingLimit - depth) mode names m ∧ last.depth = depth ∧
      ∀ e, Reaches s.step start e → e.depth ≤ nestingLimit ∧ e.nesting ≤ nestingLimit + 1 - depth := by
  intro start
  have hreach := reaches_runWithin (s := s) (Nat.sub_le nestingLimit depth) mode names m []
  rw [Nat.sub_sub_self hd] at hreach
  have hsound : start.Sound depth := ⟨⟨rfl, trivial⟩, rfl, hd⟩
  refine ⟨_, mem_eval.2 ⟨hreach, rfl⟩, rfl, rfl, rfl, ?_⟩
  intro e he
  have h := hsound.of_reaches he
  exact ⟨h.depth_le, h.nesting_le⟩

/-- Modules that swap each other and themselves, so that none stays recorded, under a display that would not
record them at all. -/
theorem runWithin_terminates_of_swaps :
    let tree := FileTree.ofDescriptors [("a", ["swap a b", "load a c"]), ("b", ["swap b a", "swap $X b"]),
      ("c", ["if loaded a", "swap c a", "else", "load b", "end"])]
    let s : Site := ⟨tree, ⟨[⟨"/mods"⟩]⟩, .default⟩
    let env : Environment := .ofVars (.ofList [(loadedVariable, "b:c"), ("X", "c")])
    let m : Machine := ⟨env, .display ⟨none, []⟩, .unlimited, []⟩
    let start : Engine := ⟨m, 1, .ok (), [.names .load ["a", "b", "none"]]⟩
    1 ≤ nestingLimit ∧ ∃ last ∈ eval s.step start, last.frames = [] ∧
      (last.outcome, last.machine) = s.runWithin (nestingLimit - 1) .load ["a", "b", "none"] m ∧
      last.depth = 1 ∧
      ∀ e, Reaches s.step start e → e.depth ≤ nestingLimit ∧ e.nesting ≤ nestingLimit + 1 - 1 :=
  ⟨by decide, runWithin_terminates _ .load ["a", "b", "none"] _ (by decide)⟩

end Site

end EnvModules
