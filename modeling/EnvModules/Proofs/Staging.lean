import EnvModules.Proofs.Flush
import Mathlib.Data.List.Induction
import Mathlib.Data.List.Nodup

/-!
Changes that a backend is asked for one after the other. Main statement: after each of them the batch of staged
commands, the environment and the variables that await their unset agree on every name, and so a flush leaves
behind the start with the commands of the batch applied to it.
-/

namespace EnvModules

/-- A change that a backend is asked for, forwards or backwards. -/
inductive Demand where
  /-- A variable gets a value, or is unset. -/
  | whole (forward : Bool) (value name : String)
  /-- A list variable gets a segment in front, or loses one. -/
  | segment (forward : Bool) (value name : String)
  deriving DecidableEq, Repr

def Demand.name : Demand → String
  | .whole _ _ name => name
  | .segment _ _ name => name

/-- The environment after a change, and what is staged for it. -/
def Demand.change (env : Environment) : Demand → Environment × Change
  | .whole forward value name => env.changeVariable forward value name
  | .segment forward value name => env.changePath forward value name

namespace Backend

def handle (b : Backend) (env : Environment) : Demand → Backend × Environment
  | .whole forward value name => b.setVariable env forward value name
  | .segment forward value name => b.setPath env forward value name

/-- Takes up demands in order. -/
def handleAll (b : Backend) (env : Environment) (demands : List Demand) : Backend × Environment :=
  demands.foldl (fun s d => s.1.handle s.2 d) (b, env)

theorem handle_commands (dialect : Dialect) (batch : Bindings Change) (env : Environment) (d : Demand) :
    (commands dialect batch).handle env d =
      (commands dialect (batch.insert d.name (d.change env).2), (d.change env).1) := by
  cases d <;> rfl

theorem handleAll_concat (b : Backend) (env : Environment) (demands : List Demand) (d : Demand) :
    b.handleAll env (demands ++ [d]) = (b.handleAll env demands).1.handle (b.handleAll env demands).2 d := by
  rw [handleAll, List.foldl_append]
  rfl

end Backend

namespace Environment

variable {env : Environment}

theorem nodup_set (h : env.pending.Nodup) (name value : String) : (env.set name value).pending.Nodup :=
  h.filter _

theorem nodup_scheduleUnset (h : env.pending.Nodup) (name : String) : (env.scheduleUnset name).pending.Nodup := by
  unfold scheduleUnset
  split
  · exact h
  · next hn =>
    rw [List.nodup_append_comm, List.singleton_append, List.nodup_cons]
    exact ⟨by simpa using hn, h⟩

theorem nodup_change (h : env.pending.Nodup) (d : Demand) : (d.change env).1.pending.Nodup := by
  cases d with
  | whole forward value name =>
    cases forward with
    | true => exact nodup_set h name value
    | false => exact nodup_scheduleUnset h name
  | segment forward value name =>
    -- A list that has lost its last segment is emptied first, and then scheduled for its unset.
    rw [Demand.change, changePath_eq]
    split
    · exact nodup_scheduleUnset (nodup_set h name "") name
    · exact nodup_set h name _

end Environment

theorem Bindings.mem_names_iff {α : Type} {m : Bindings α} {k : String} :
    k ∈ m.entries.map Prod.fst ↔ m.get? k ≠ none := by
  rw [Option.ne_none_iff_exists', List.mem_map]
  constructor
  · rintro ⟨⟨k, v⟩, hm, rfl⟩
    exact ⟨v, get?_eq_some_iff.2 hm⟩
  · rintro ⟨v, hv⟩
    exact ⟨(k, v), get?_eq_some_iff.1 hv, rfl⟩

/-- What demands upon a start have led to: a batch that has a command for every name among them and for no other,
and an environment that agrees with it. -/
structure Demand.Staged (start : Bindings String) (demands : List Demand) (batch : Bindings Change)
    (env : Environment) : Prop where
  tallies : env.Tallies start batch
  nodup : env.pending.Nodup
  names : ∀ n, n ∈ batch.entries.map Prod.fst ↔ n ∈ demands.map Demand.name

namespace Demand.Staged

variable {start : Bindings String} {demands : List Demand} {batch : Bindings Change} {env : Environment}

theorem nil (h : env.pending = []) : Staged env.vars [] .empty env :=
  ⟨.of_pending_eq_nil h, h ▸ List.nodup_nil, fun _ => Iff.rfl⟩

theorem concat (h : Staged start demands batch env) (d : Demand) :
    Staged start (demands ++ [d]) (batch.insert d.name (d.change env).2) (d.change env).1 where
  tallies := by
    cases d with
    | whole forward value name => exact h.tallies.changeVariable forward value name
    | segment forward value name => exact h.tallies.changePath forward value name
  nodup := Environment.nodup_change h.nodup d
  names n := by
    have hn := h.names n
    rw [Bindings.mem_names_iff] at hn ⊢
    rw [Bindings.get?_insert, List.map_append, List.mem_append, ← hn, List.map_singleton, List.mem_singleton]
    by_cases he : n = d.name
    · simp [he]
    · simp [he]

/-- By induction on the demands from the last. -/
theorem of_handleAll (dialect : Dialect) (hp : env.pending = []) (demands : List Demand) :
    ∃ batch now, (Backend.commands dialect .empty).handleAll env demands = (.commands dialect batch, now) ∧
      Staged env.vars demands batch now := by
  induction demands using List.reverseRecOn with
  | nil => exact ⟨.empty, env, rfl, nil hp⟩
  | append_singleton demands d ih =>
    obtain ⟨batch, now, he, hs⟩ := ih
    -- The backend still has a batch of the same dialect, so that the last demand finds what the others have staged.
    refine ⟨_, _, ?_, hs.concat d⟩
    rw [Backend.handleAll_concat, he, Backend.handle_commands]

theorem notMem_pending (h : Staged start demands batch env) {n : String} (hn : n ∉ demands.map Demand.name) :
    batch.get? n = none ∧ n ∉ env.pending := by
  have hget : batch.get? n = none := by
    by_contra hne
    exact hn ((h.names n).1 (Bindings.mem_names_iff.2 hne))
  refine ⟨hget, fun hp => ?_⟩
  rw [h.tallies.pending n, hget] at hp
  cases hp

/-- Nothing is staged exactly if nothing was asked for. -/
theorem script_eq (h : Staged start demands batch env) (dialect : Dialect) :
    dialect.script batch =
      String.join (((if demands = [] then [] else dialect.preamble?.toList) ++
        batch.entries.map fun e => dialect.command e.1 e.2).map (· ++ "\n")) := by
  have hempty : batch.entries = [] ↔ demands = [] := by
    have hnames := h.names
    rw [← List.map_eq_nil_iff (f := Prod.fst), ← List.map_eq_nil_iff (f := Demand.name),
      List.eq_nil_iff_forall_not_mem, List.eq_nil_iff_forall_not_mem]
    exact forall_congr' fun n => not_congr (hnames n)
  rw [Dialect.script, Bindings.isEmpty]
  split
  · next he =>
    have hentries := List.isEmpty_iff.1 he
    rw [if_pos (hempty.1 hentries), hentries]
    rfl
  · next he =>
    rw [if_neg fun hd => he (List.isEmpty_iff.2 (hempty.2 hd))]

end Demand.Staged

/-- The batch of staged commands, the environment and its pending unsets after demands upon a start: three records
of the same changes. -/
structure Demand.Agreement (start : Environment) (demands : List Demand) (batch : Bindings Change)
    (now : Environment) : Prop where
  pending_iff : ∀ n, n ∈ now.pending ↔ batch.get? n = some .unset
  assigned : ∀ n value, batch.get? n = some (.assign value) → now.get? n = some value ∧ n ∉ now.pending
  untouched : ∀ n, n ∉ demands.map Demand.name →
    now.get? n = start.get? n ∧ batch.get? n = none ∧ n ∉ now.pending
  nodup : now.pending.Nodup

theorem Demand.Staged.agreement {start now : Environment} {demands : List Demand} {batch : Bindings Change}
    (h : Staged start.vars demands batch now) : Agreement start demands batch now where
  pending_iff := h.tallies.pending
  assigned n value hn := by
    have hnot : n ∉ now.pending := by
      intro hm
      rw [h.tallies.pending n, hn] at hm
      cases hm
    refine ⟨?_, hnot⟩
    rw [h.tallies.vars n hnot, hn, Change.outcome]
  untouched n hn := by
    obtain ⟨hget, hnot⟩ := h.notMem_pending hn
    refine ⟨?_, hget, hnot⟩
    rw [h.tallies.vars n hnot, hget]
    rfl
  nodup := h.nodup

theorem Stream.write_of_room {s : Stream} {text : String}
    (h : ∀ room, s.room = some room → text.toUTF8.size ≤ room) : (s.write text).1 = true := by
  obtain ⟨written, room⟩ := s
  rw [write]
  cases room with
  | none => rfl
  | some room =>
    simp only
    rw [if_pos (h room rfl)]

namespace Backend

/-- The records of what has changed never part, whatever a command backend is asked for and in whatever order. A
flush then writes one command for each name that was mentioned, in the order of names, if the stream has room for
them. The environment has the variables that these commands make of the start. -/
theorem handleAll_agrees (dialect : Dialect) {start : Environment} (hp : start.pending = [])
    (demands : List Demand) :
    ∃ batch now, (commands dialect .empty).handleAll start demands = (commands dialect batch, now) ∧
      Demand.Agreement start demands batch now ∧
      (batch.entries.map Prod.fst).Pairwise (· < ·) ∧
      (∀ n, n ∈ batch.entries.map Prod.fst ↔ n ∈ demands.map Demand.name) ∧
      let heading := if demands = [] then [] else dialect.preamble?.toList
      let lines := heading ++ batch.entries.map fun e => dialect.command e.1 e.2
      let text := String.join (lines.map (· ++ "\n"))
      ∀ t : Streams, (∀ room, t.commands.room = some room → text.toUTF8.size ≤ room) →
        let done := (commands dialect batch).flush now t
        done.outcome = .ok () ∧ done.streams.commands.written = t.commands.written ++ text.toUTF8 ∧
          done.env.vars = applyCommands start.vars batch.entries ∧ done.env.pending = [] := by
  obtain ⟨batch, now, he, hs⟩ := Demand.Staged.of_handleAll dialect hp demands
  refine ⟨batch, now, he, hs.agreement, List.pairwise_map.2 batch.ascending, hs.names, ?_⟩
  intro heading lines text t ht done
  have hscript : dialect.script batch = text := hs.script_eq dialect
  have hwrite : (t.commands.write (dialect.script batch)).1 = true := hscript ▸ Stream.write_of_room ht
  -- A flush fails only on a stream that has no room for the script.
  obtain ⟨-, hstream, ⟨-, ho, henv⟩ | ⟨hw, -⟩⟩ := flush_commands dialect batch now t
  · have hdone : done.env = now.applyUnsets := henv
    refine ⟨ho, ?_, ?_, hdone ▸ rfl⟩
    · rw [show done.streams.commands = _ from hstream, Stream.written_write hwrite, hscript]
    · rw [hdone, hs.tallies.vars_applyUnsets]
  · cases hwrite.symm.trans hw

/-- A variable is set after its unset, another one unset after it was set, a list is emptied and gets a segment
again, and one that awaits its unset gets a segment in front. -/
theorem handleAll_agrees_of_reversals :
    let start : Environment := .ofVars (.ofList [("G", "1"), ("P", "/a"), ("Q", "/q"), ("R", "r")])
    let demands : List Demand := [.whole false "" "G", .whole true "2" "G", .whole true "h" "H",
      .whole false "" "H", .segment false "/a" "P", .segment true "/b" "P", .whole false "" "Q",
      .segment true "/c" "Q"]
    start.pending = [] ∧ ((commands .csh .empty).handleAll start demands).2.pending = ["H"] ∧
      ∃ batch now, (commands .csh .empty).handleAll start demands = (commands .csh batch, now) ∧
        Demand.Agreement start demands batch now ∧
        (batch.entries.map Prod.fst).Pairwise (· < ·) ∧
        (∀ n, n ∈ batch.entries.map Prod.fst ↔ n ∈ demands.map Demand.name) ∧
        let heading := if demands = [] then [] else Dialect.csh.preamble?.toList
        let lines := heading ++ batch.entries.map fun e => Dialect.csh.command e.1 e.2
        let text := String.join (lines.map (· ++ "\n"))
        ∀ t : Streams, (∀ room, t.commands.room = some room → text.toUTF8.size ≤ room) →
          let done := (commands .csh batch).flush now t
          done.outcome = .ok () ∧ done.streams.commands.written = t.commands.written ++ text.toUTF8 ∧
            done.env.vars = applyCommands start.vars batch.entries ∧ done.env.pending = [] := by
  intro start demands
  have hp : start.pending = [] := rfl
  exact ⟨hp, by decide +kernel, handleAll_agrees .csh hp demands⟩

end Backend

end EnvModules
