import EnvModules.Proofs.Reading
import EnvModules.Proofs.Visit

/-!
The statements that a transition runs, each with the state that it finds.
-/

namespace EnvModules

/-- A statement that is about to be run. -/
structure Step where
  subject : Subject
  statement : Statement
  evaluation : Evaluation

namespace Step

def machine (x : Step) : Machine := x.evaluation.machine

def intents (x : Step) : List Intent := x.subject.intents x.machine.env x.statement

/-- Whether the value of an assignment counts. It does not when a variable is unset. -/
def valued (x : Step) : Bool := x.subject.mode.isForward || x.machine.backend.isDisplay

/-- The variables that a step refers to. -/
def refersTo (x : Step) : List String :=
  (x.subject.texts x.evaluation x.statement ++
    x.intents.flatMap (Intent.texts x.valued)).flatMap references

/-- The variables of which only the entries matter to a step. -/
def consults (x : Step) : List String :=
  x.subject.tested x.evaluation x.statement ++ x.intents.filterMap Intent.list?

end Step

/-- What comes after a result, if it is no fault. -/
def following {ε α σ β : Type} (p : Except ε α × σ) (next : σ → List β) : List β :=
  match p with
  | (.ok _, state) => next state
  | (.error _, _) => []

namespace Subject

variable (s : Subject) (deeper : Mode → List String → Machine → List Step)

mutual

/-- The steps of a statement: itself, and those of what it brings in. -/
def traceStatement : Statement → Evaluation → List Step
  | .load names, e =>
    ⟨s, .load names, e⟩ ::
      if s.mode = .load then deeper .load (names.map e.machine.env.expand) e.machine else []
  | .swap old new, e =>
    let outgoing := [e.machine.env.expand old]
    let incoming := [e.machine.env.expand new]
    ⟨s, .swap old new, e⟩ ::
      -- The names are replaced before the first of the two modules goes.
      if s.mode = .load then
        deeper .unload outgoing e.machine ++
          following (s.nested .unload outgoing e.machine) (deeper .load incoming)
      else []
  | .choose branches otherwise, e =>
    ⟨s, .choose branches otherwise, e⟩ :: traceBranches branches (traceBlock otherwise) e
  | statement, e => [⟨s, statement, e⟩]

def traceBranches :
    List (Condition × List Statement) → (Evaluation → List Step) → Evaluation → List Step
  | [], otherwise, e => otherwise e
  | (condition, body) :: rest, otherwise, e =>
    if condition.holds e.machine.env e.policy s.mode then traceBlock body e
    else traceBranches rest otherwise e

def traceBlock : List Statement → Evaluation → List Step
  | [], _ => []
  | statement :: rest, e =>
    traceStatement statement e ++ following (s.runStatement statement e) (traceBlock rest)

end

variable {s deeper}

theorem traceStatement_of_isPlain {st : Statement} (h : s.IsPlain st) (e : Evaluation) :
    s.traceStatement deeper st e = [⟨s, st, e⟩] := by
  cases st with
  | load names => rw [traceStatement, if_neg h]
  | swap old new => rw [traceStatement, if_neg h]
  | choose branches otherwise => exact h.elim
  | _ => rw [traceStatement] <;> simp

theorem traceBranches_eq (otherwise : List Statement) (branches : List (Condition × List Statement))
    (e : Evaluation) :
    s.traceBranches deeper branches (s.traceBlock deeper otherwise) e =
      s.traceBlock deeper (s.chosen e otherwise branches) e := by
  induction branches with
  | nil => rw [traceBranches, chosen]
  | cons branch rest ih =>
    rw [traceBranches, chosen]
    split
    · rfl
    · exact ih

end Subject

namespace Site

variable (s : Site)

/-- The steps of the descriptor of a module. -/
def traceVisit (depth : Nat) (nested : Mode → List String → TransitionM Unit)
    (deeper : Mode → List String → Machine → List Step) (mode : Mode) (found : Resolved)
    (m : Machine) : List Step :=
  match s.statements found.path with
  | .ok statements =>
    Subject.traceBlock ⟨s, found.name, mode, nested⟩ deeper statements
      ⟨m.entering depth mode found.name, .equal⟩
  | .error _ => []

/-- The steps for a name: those of the module that is visited for it. -/
def traceOne (visit : Mode → Resolved → Machine → List Step) (mode : Mode) (name : String)
    (m : Machine) : List Step :=
  match s.visited m.loaded name mode with
  | .ok (some found) => visit mode found m
  | _ => []

/-- The steps of a level, those of one name after the other. -/
def traceLevel (levels : Nat) (deeper : Mode → List String → Machine → List Step) (mode : Mode) :
    List String → Machine → List Step
  | [], _ => []
  | name :: rest, m =>
    let depth := nestingLimit - levels
    let nested := s.nestedWithin levels
    s.traceOne (s.traceVisit depth nested deeper) mode name m ++
      following (s.runOne (s.visit depth nested) mode name m) (traceLevel levels deeper mode rest)

/-- The steps of a transition that has a number of levels left. -/
def traceWithin : Nat → Mode → List String → Machine → List Step
  | 0 => s.traceLevel 0 fun _ _ _ => []
  | levels + 1 => s.traceLevel (levels + 1) (traceWithin levels)

/-- Every statement that is run while modules are taken through a mode, in order. -/
def trace (mode : Mode) (names : List String) (m : Machine) : List Step :=
  s.traceWithin nestingLimit mode names m

/-- Unloads one module and loads another, without writing anything. -/
def exchange (old new : String) : TransitionM Unit := do
  s.run .unload [old]
  s.run .load [new]

def traceExchange (old new : String) (m : Machine) : List Step :=
  s.trace .unload [old] m ++ following (s.run .unload [old] m) (s.trace .load [new])

end Site

/-- The steps of transitions that come one after the other, up to the first that fails. -/
def traceEach {β : Type} (f : β → TransitionM PUnit) (steps : β → Machine → List Step) :
    List β → Machine → List Step
  | [], _ => []
  | b :: rest, m => steps b m ++ following (f b m) (traceEach f steps rest)

/-- Every statement that is run before an operation writes, in order. A display stages nothing. -/
def Operation.trace (s : Site) : Operation → Machine → List Step
  | .load names, m => s.trace .load names m
  | .unload names, m => s.trace .unload names m
  | .swap old new, m => s.traceExchange old new m
  | .reload names, m => traceEach (fun n => s.exchange n n) (fun n => s.traceExchange n n) names m
  | .reloadAll, m =>
    traceEach (fun entry => s.exchange entry.text entry.package)
      (fun entry => s.traceExchange entry.text entry.package) m.loaded.oldestFirst m
  | .unloadAll, m =>
    traceEach (fun entry => s.run .unload [entry.text]) (fun entry => s.trace .unload [entry.text])
      m.loaded.entries m
  | .display _, _ => []

end EnvModules
