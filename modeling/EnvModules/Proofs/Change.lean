import EnvModules.Proofs.Intent

/-!
What one change does to the variables and to those that await their unset, and how it reaches the
environment of a machine.
-/

namespace EnvModules

namespace Environment

variable (env : Environment) (forward : Bool) (value name k : String)

/-- The value of a list variable after a segment was put in front of it or taken out of it. -/
def merged : String := if forward then env.prepended name value else env.without name value

theorem merged_congr {env env' : Environment} {name : String}
    (h : env.getNonEmpty? name = env'.getNonEmpty? name) :
    env.merged forward value name = env'.merged forward value name := by
  simp only [merged, prepended, without, segments, h]

theorem changePath_eq :
    env.changePath forward value name =
      if env.merged forward value name = "" then
        ((env.set name "").scheduleUnset name, .unset)
      else (env.set name (env.merged forward value name), .assign (env.merged forward value name)) := by
  show (if (env.merged forward value name).isEmpty then
      ((env.set name (env.merged forward value name)).scheduleUnset name, Change.unset)
    else _) = _
  by_cases h : env.merged forward value name = ""
  · rw [if_pos (String.isEmpty_iff.2 h), if_pos h, h]
  · have hne : ¬ (env.merged forward value name).isEmpty := by
      intro he
      exact h (String.isEmpty_iff.1 he)
    rw [if_neg hne, if_neg h]
    rfl

@[simp] theorem get?_changeVariable :
    (env.changeVariable forward value name).1.get? k =
      if forward ∧ k = name then some value else env.get? k := by
  cases forward <;> simp [changeVariable]

theorem mem_pending_changeVariable :
    k ∈ (env.changeVariable forward value name).1.pending ↔
      if forward then k ∈ env.pending ∧ k ≠ name else k ∈ env.pending ∨ k = name := by
  cases forward <;> simp [changeVariable, mem_pending_set, mem_pending_scheduleUnset]

@[simp] theorem get?_changePath :
    (env.changePath forward value name).1.get? k =
      if k = name then some (env.merged forward value name) else env.get? k := by
  rw [changePath_eq]
  split <;> simp_all

theorem mem_pending_changePath :
    k ∈ (env.changePath forward value name).1.pending ↔
      if k = name then env.merged forward value name = "" else k ∈ env.pending := by
  rw [changePath_eq]
  split
  · next he =>
    simp only [mem_pending_scheduleUnset, mem_pending_set, he]
    by_cases hk : k = name <;> simp [hk]
  · next he =>
    simp only [mem_pending_set, he]
    by_cases hk : k = name <;> simp [hk]

end Environment

/-- The changes that a backend keeps to write them as commands. -/
def Backend.staged : Backend → Bindings Change
  | .commands _ batch => batch
  | _ => .empty

namespace Machine

variable (m : Machine) (forward : Bool) (value name : String)

theorem get?_staged_stage (b : Backend) (change : Change) {k : String} (hk : k ≠ name) :
    (b.stage name change).staged.get? k = b.staged.get? k := by
  cases b with
  | commands dialect batch => simp [Backend.stage, Backend.staged, hk]
  | silent | display report => rfl

@[simp] theorem staged_report (b : Backend) (effect : Effect) :
    (b.report effect name value).staged = b.staged := by
  cases b <;> rfl

@[simp] theorem isDisplay_stage (b : Backend) (change : Change) :
    (b.stage name change).isDisplay = b.isDisplay := by
  cases b <;> rfl

@[simp] theorem isDisplay_report (b : Backend) (effect : Effect) :
    (b.report effect name value).isDisplay = b.isDisplay := by
  cases b <;> rfl

@[simp] theorem isDisplay_setTitle (b : Backend) (title : String) :
    (b.setTitle title).isDisplay = b.isDisplay := by
  cases b <;> rfl

theorem setVariable_of_isDisplay (h : m.backend.isDisplay = true) :
    m.setVariable forward value name = m.report .setVariable name value := by
  simp [setVariable, Backend.setVariable, h, report]

theorem setPath_of_isDisplay (h : m.backend.isDisplay = true) :
    m.setPath forward value name = m.report .prependPath name value := by
  simp [setPath, Backend.setPath, h, report]

theorem setVariable_of_not_isDisplay (h : m.backend.isDisplay = false) :
    m.setVariable forward value name =
      { m with
        backend := m.backend.stage name (m.env.changeVariable forward value name).2
        env := (m.env.changeVariable forward value name).1 } := by
  simp [setVariable, Backend.setVariable, h]

theorem setPath_of_not_isDisplay (h : m.backend.isDisplay = false) :
    m.setPath forward value name =
      { m with
        backend := m.backend.stage name (m.env.changePath forward value name).2
        env := (m.env.changePath forward value name).1 } := by
  simp [setPath, Backend.setPath, h]

@[simp] theorem isDisplay_setVariable :
    (m.setVariable forward value name).backend.isDisplay = m.backend.isDisplay := by
  cases h : m.backend.isDisplay with
  | true => simp [setVariable_of_isDisplay, h, report]
  | false => simp [setVariable_of_not_isDisplay, h]

@[simp] theorem isDisplay_setPath :
    (m.setPath forward value name).backend.isDisplay = m.backend.isDisplay := by
  cases h : m.backend.isDisplay with
  | true => simp [setPath_of_isDisplay, h, report]
  | false => simp [setPath_of_not_isDisplay, h]

@[simp] theorem isDisplay_apply (i : Intent) :
    (i.apply forward m).backend.isDisplay = m.backend.isDisplay := by
  cases i <;> simp [Intent.apply, report]

end Machine

theorem Loaded.ofEnvironment_congr {env env' : Environment}
    (h : env.getNonEmpty? loadedVariable = env'.getNonEmpty? loadedVariable) :
    Loaded.ofEnvironment env = Loaded.ofEnvironment env' := by
  simp only [Loaded.ofEnvironment, Environment.segments, h]

end EnvModules
