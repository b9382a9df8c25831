import EnvModules.Proofs.Frame

/-!
The commands that a session writes beside its own environment. Whoever makes the changes that the commands
ask for, in the order in which they are written, has the variables of the session.
-/

namespace EnvModules

def Change.apply (vars : Bindings String) (name : String) : Change → Bindings String
  | .assign value => vars.insert name value
  | .unset => vars.erase name

/-- Makes the changes that commands ask for, in order. -/
def applyCommands (vars : Bindings String) (commands : List (String × Change)) : Bindings String :=
  commands.foldl (fun vars c => c.2.apply vars c.1) vars

@[simp] theorem applyCommands_cons (vars : Bindings String) (c : String × Change)
    (rest : List (String × Change)) :
    applyCommands vars (c :: rest) = applyCommands (c.2.apply vars c.1) rest := rfl

/-- The value of a variable after a change that has been asked for, if one was. -/
def Change.outcome (before : Option String) : Option Change → Option String
  | none => before
  | some (.assign value) => some value
  | some .unset => none

theorem Change.get?_apply (vars : Bindings String) (name k : String) (change : Change) :
    (change.apply vars name).get? k =
      if k = name then outcome (vars.get? k) (some change) else vars.get? k := by
  cases change <;> simp [apply, outcome]

/-- Names ascend in a batch, so that at most one of its commands is about a variable. -/
theorem get?_applyCommands (vars : Bindings String) (batch : Bindings Change) (k : String) :
    (applyCommands vars batch.entries).get? k = Change.outcome (vars.get? k) (batch.get? k) := by
  obtain ⟨entries, hs⟩ := batch
  show _ = Change.outcome _ (entries.lookup k)
  -- After the command about `k`, no other one touches it, since all names that follow are greater.
  induction entries generalizing vars with
  | nil => rfl
  | cons c rest ih =>
    obtain ⟨name, change⟩ := c
    have ⟨hn, hr⟩ := List.pairwise_cons.1 hs
    rw [applyCommands_cons, ih _ hr, Bindings.lookup_cons_eq_ite, Change.get?_apply]
    by_cases he : k = name
    · have hl : rest.lookup k = none := by
        apply List.lookup_eq_none_iff.2
        intro e hm
        have hlt : name < e.1 := hn e hm
        apply bne_iff_ne.2
        intro hk
        rw [← hk, he] at hlt
        exact String.lt_irrefl _ hlt
      rw [hl, if_pos he, if_pos he]
      rfl
    · rw [if_neg he, if_neg he]

/-- What an environment has in common with the commands that are staged for it: an unset is put off exactly
if one is staged, an assignment has been made, and nothing else has changed since the start. -/
structure Environment.Tallies (start : Bindings String) (batch : Bindings Change)
    (env : Environment) : Prop where
  pending : ∀ n, n ∈ env.pending ↔ batch.get? n = some .unset
  vars : ∀ n, n ∉ env.pending → env.get? n = Change.outcome (start.get? n) (batch.get? n)

namespace Environment.Tallies

variable {start : Bindings String} {batch : Bindings Change} {env : Environment}

theorem of_pending_eq_nil (h : env.pending = []) : Tallies env.vars .empty env :=
  ⟨fun n => by simp [h], fun _ _ => rfl⟩

theorem changeVariable (h : Tallies start batch env) (forward : Bool) (value name : String) :
    Tallies start (batch.insert name (env.changeVariable forward value name).2)
      (env.changeVariable forward value name).1 := by
  have hc : (env.changeVariable forward value name).2 = if forward then .assign value else .unset := by
    cases forward <;> rfl
  constructor
  · intro n
    rw [mem_pending_changeVariable, Bindings.get?_insert, hc]
    have hp := h.pending n
    by_cases hk : n = name
    · cases forward <;> simp [hk]
    · cases forward <;> simp [hk, hp]
  · intro n hn
    rw [mem_pending_changeVariable] at hn
    rw [get?_changeVariable, Bindings.get?_insert, hc]
    by_cases hk : n = name
    · cases forward with
      | true => simp [hk, Change.outcome]
      | false => simp [hk] at hn
    · have hv := h.vars n
      cases forward <;> simp_all

theorem changePath (h : Tallies start batch env) (forward : Bool) (value name : String) :
    Tallies start (batch.insert name (env.changePath forward value name).2)
      (env.changePath forward value name).1 := by
  have hc : (env.changePath forward value name).2 =
      if env.merged forward value name = "" then .unset
      else .assign (env.merged forward value name) := by
    rw [changePath_eq]
    split <;> rfl
  constructor
  · intro n
    rw [mem_pending_changePath, Bindings.get?_insert, hc]
    by_cases hk : n = name
    · simp [hk]
    · simpa [hk] using h.pending n
  · intro n hn
    rw [mem_pending_changePath] at hn
    rw [get?_changePath, Bindings.get?_insert, hc]
    by_cases hk : n = name
    · have hm : env.merged forward value name ≠ "" := by simpa [hk] using hn
      simp [hk, hm, Change.outcome]
    · simpa [hk] using h.vars n (by simpa [hk] using hn)

/-- Once the unsets are made, the environment is what the commands make of the start. -/
theorem vars_applyUnsets (h : Tallies start batch env) :
    env.applyUnsets.vars = applyCommands start batch.entries := by
  apply Bindings.ext_get?
  intro k
  show env.applyUnsets.get? k = _
  rw [get?_applyUnsets, get?_applyCommands]
  split
  · next hk => rw [(h.pending k).1 hk, Change.outcome]
  · next hk => exact h.vars k hk

end Environment.Tallies

theorem Dialect.script_empty (d : Dialect) : d.script .empty = "" := rfl

namespace Machine

variable {start : Bindings String} {dialect : Dialect} {streams : Streams}

end Machine

/-- An operation, the files that it finds, and the dialect of its commands. -/
structure Turn where
  tree : FileTree
  operation : Operation
  dialect : Dialect

namespace Session

variable (s : Session) (streams : Streams)

/-- Performs an operation with a backend of its own. -/
def play (turn : Turn) : Performed :=
  s.perform turn.tree turn.operation (.commands turn.dialect .empty) streams

/-- The changes that an operation writes as commands: all that are staged when it comes to its flush. One
that fails does not get there. -/
def emitted (turn : Turn) : Bindings Change :=
  let (outcome, m) :=
    turn.operation.staging (s.site turn.tree) (s.machine (.commands turn.dialect .empty) streams)
  match outcome with
  | .ok () => m.backend.staged
  | .error _ => .empty

variable {s streams}

/-- An operation writes the commands for all that it has staged, or nothing. -/
theorem commands_play (turn : Turn) (hr : streams.commands.room = none) :
    (s.play streams turn).streams.commands =
      ⟨streams.commands.written ++ (turn.dialect.script (s.emitted streams turn)).toUTF8, none⟩ := by
  have idle : streams.commands =
      ⟨streams.commands.written ++ (turn.dialect.script .empty).toUTF8, none⟩ := by
    rw [← hr]
    simp [Dialect.script_empty]
  obtain ⟨tree, op, dialect⟩ := turn
  -- A display is apart: it flushes more than once, but has no command to write.
  by_cases hop : ∃ names, op = .display names
  · obtain ⟨names, rfl⟩ := hop
    exact (commands_perform_display names).trans idle
  · have hop' (names : List String) : op ≠ .display names := fun he => hop ⟨names, he⟩
    rcases h : op.staging (s.site tree) (s.machine (.commands dialect .empty) streams)
      with ⟨fault | _, m⟩
    · have he : s.emitted streams ⟨tree, op, dialect⟩ = .empty := by simp only [emitted, h]
      obtain ⟨ho, -⟩ := perform_of_staging_error op hop' h
      have hne : (s.play streams ⟨tree, op, dialect⟩).outcome ≠ .ok () := by
        rw [play, ho]
        exact nofun
      rw [he, play, commands_perform_of_ne_ok hr hne]
      exact idle
    · have hm := ((Machine.kept_dialect (some dialect)).staging (s.site tree) op).of_ok rfl h
      obtain ⟨batch, hb⟩ := Backend.eq_commands_of_dialect? hm
      have he : s.emitted streams ⟨tree, op, dialect⟩ = batch := by
        simp only [emitted, h, hb, Backend.staged]
      obtain ⟨-, -, hc⟩ := Operation.transition_of_staging_ok hop' hr hb h
      rw [he]
      exact hc

end Session

end EnvModules
