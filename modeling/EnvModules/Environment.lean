import EnvModules.Bindings
import EnvModules.Environment.Reference

/-!
The variables of a session, together with those that are to be unset once the pending commands have
been written. A variable stays readable until then.
-/

namespace EnvModules

structure Environment where
  vars : Bindings String
  /-- The variables to be unset, in the order in which this was asked for. -/
  pending : List String
  deriving DecidableEq

namespace Environment

def ofVars (vars : Bindings String) : Environment := ⟨vars, []⟩

def get? (env : Environment) (name : String) : Option String := env.vars.get? name

def getNonEmpty? (env : Environment) (name : String) : Option String :=
  (env.get? name).filter (!·.isEmpty)

def cancelUnset (env : Environment) (name : String) : Environment :=
  { env with pending := env.pending.filter (· != name) }

/-- A variable that is set is no longer to be unset. -/
def set (env : Environment) (name value : String) : Environment :=
  { env.cancelUnset name with vars := env.vars.insert name value }

def scheduleUnset (env : Environment) (name : String) : Environment :=
  if env.pending.contains name then env else { env with pending := env.pending ++ [name] }

def applyUnsets (env : Environment) : Environment :=
  ⟨env.pending.foldl Bindings.erase env.vars, []⟩

@[simp] theorem get?_set (env : Environment) (name value k : String) :
    (env.set name value).get? k = if k = name then some value else env.get? k := by
  simp [get?, set, cancelUnset]

@[simp] theorem get?_scheduleUnset (env : Environment) (name k : String) :
    (env.scheduleUnset name).get? k = env.get? k := by
  unfold scheduleUnset
  split <;> rfl

theorem get?_foldl_erase (names : List String) (vars : Bindings String) (k : String) :
    (names.foldl Bindings.erase vars).get? k = if k ∈ names then none else vars.get? k := by
  induction names generalizing vars with
  | nil => simp
  | cons n ns ih => simp only [List.foldl_cons, ih, Bindings.get?_erase]; grind

@[simp] theorem get?_applyUnsets (env : Environment) (k : String) :
    env.applyUnsets.get? k = if k ∈ env.pending then none else env.get? k :=
  get?_foldl_erase env.pending env.vars k

theorem mem_pending_scheduleUnset (env : Environment) (name k : String) :
    k ∈ (env.scheduleUnset name).pending ↔ k ∈ env.pending ∨ k = name := by
  unfold scheduleUnset
  split <;> simp_all

theorem mem_pending_set (env : Environment) (name value k : String) :
    k ∈ (env.set name value).pending ↔ k ∈ env.pending ∧ k ≠ name := by
  simp [set, cancelUnset]

/-- Replaces the references to variables in a text. -/
def expand (env : Environment) (s : String) : String := expandWith env.get? s

/-- The segments of a list variable. A variable that is unset or empty has none. -/
def segments (env : Environment) (name : String) : List String :=
  match env.getNonEmpty? name with
  | some value => (Text.fields (· == ':') value.toList).map String.ofList
  | none => []

/-- The value of a list variable with a segment in front of it. -/
def prepended (env : Environment) (name segment : String) : String :=
  match env.getNonEmpty? name with
  | some value => segment ++ ":" ++ value
  | none => segment

/-- The value of a list variable without the first segment that equals the given one. -/
def without (env : Environment) (name segment : String) : String :=
  ":".intercalate ((env.segments name).erase segment)

end Environment

end EnvModules
