import EnvModules.Proofs.Extent
import EnvModules.Proofs.Growth

/-!
Flushes on a stream that stops taking bytes. The environment then awaits its unsets as before, but what was
staged is gone.
-/

namespace EnvModules

/-- A stream that does not take a text takes as many bytes of it as it has room for, and no more afterwards. -/
theorem Stream.write_of_fst_eq_false {s : Stream} {text : String} (h : (s.write text).1 = false) :
    ∃ taken lost : ByteArray, text.toUTF8 = taken ++ lost ∧ lost ≠ .empty ∧
      s.room = some taken.size ∧ (s.write text).2 = ⟨s.written ++ taken, some 0⟩ := by
  obtain ⟨written, room⟩ := s
  rw [write] at h ⊢
  generalize text.toUTF8 = bytes at h ⊢
  cases room with
  | none => cases h
  | some room =>
    simp only at h ⊢
    split at h
    · cases h
    · next hs =>
      have hlt : room < bytes.size := Nat.lt_of_not_le hs
      refine ⟨bytes.extract 0 room, bytes.extract room bytes.size, ?_, ?_, ?_, ?_⟩
      · rw [ByteArray.extract_append_extract, Nat.zero_min, Nat.max_eq_right (Nat.le_of_lt hlt),
          ByteArray.extract_zero_size]
      · rw [Ne, ByteArray.extract_eq_empty_iff, Nat.min_self]
        exact hs
      · rw [ByteArray.size_extract, Nat.min_eq_left (Nat.le_of_lt hlt), Nat.sub_zero]
      · rw [if_neg hs]

namespace Backend

theorem flush_commands_empty (dialect : Dialect) (env : Environment) (t : Streams) :
    (commands dialect .empty).flush env t = ⟨.ok (), commands dialect .empty, env.applyUnsets, t⟩ := by
  simp only [flush, Dialect.script_empty, Stream.write_empty, if_true]

/-- Nothing is staged after a flush, be it a success or not. Only after a success are the unsets made. -/
theorem flush_commands (dialect : Dialect) (batch : Bindings Change) (env : Environment) (t : Streams) :
    let wrote := t.commands.write (dialect.script batch)
    let done := (commands dialect batch).flush env t
    done.backend = commands dialect .empty ∧ done.streams.commands = wrote.2 ∧
      (wrote.1 = true ∧ done.outcome = .ok () ∧ done.env = env.applyUnsets ∨
        wrote.1 = false ∧ done.outcome = .error .streamClosed ∧ done.env = env) := by
  intro wrote done
  have hdone : done =
      if wrote.1 then ⟨.ok (), commands dialect .empty, env.applyUnsets, { t with commands := wrote.2 }⟩
      else ⟨.error .streamClosed, commands dialect .empty, env, { t with commands := wrote.2 }⟩ := rfl
  rw [hdone]
  cases wrote.1 with
  | true => exact ⟨rfl, rfl, .inl ⟨rfl, rfl, rfl⟩⟩
  | false => exact ⟨rfl, rfl, .inr ⟨rfl, rfl, rfl⟩⟩

/-- What a failed flush has not written is never written. Whether a stream takes all commands of a batch or
fails after any number of bytes, the batch is gone, and the next flush writes nothing. Even so it makes all
unsets that were put off, and the variables are what the commands of the whole batch make of the start. -/
theorem flush_flush (dialect : Dialect) {batch : Bindings Change} {env : Environment}
    {start : Bindings String} (ht : env.Tallies start batch) (t t' : Streams) :
    let script := (dialect.script batch).toUTF8
    let first := (commands dialect batch).flush env t
    let again := first.backend.flush first.env t'
    (first.outcome = .ok () ∧
        first.streams.commands.written = t.commands.written ++ script ∧
        first.env.vars = applyCommands start batch.entries ∧ first.env.pending = [] ∨
      first.outcome = .error .streamClosed ∧ first.env = env ∧
        ∃ taken lost : ByteArray, script = taken ++ lost ∧ lost ≠ .empty ∧
          t.commands.room = some taken.size ∧
          first.streams.commands.written = t.commands.written ++ taken) ∧
      again.outcome = .ok () ∧ again.streams = t' ∧
      again.env.vars = applyCommands start batch.entries ∧ again.env.pending = [] := by
  intro script first again
  obtain ⟨hb, hs, hfirst⟩ := flush_commands dialect batch env t
  have hagain : again = ⟨.ok (), commands dialect .empty, first.env.applyUnsets, t'⟩ := by
    show first.backend.flush first.env t' = _
    rw [show first.backend = _ from hb, flush_commands_empty]
  have hv := ht.vars_applyUnsets
  rcases hfirst with ⟨hw, ho, he⟩ | ⟨hw, ho, he⟩
  · have hwritten : first.streams.commands.written = t.commands.written ++ script := by
      rw [show first.streams.commands = _ from hs, Stream.written_write hw]
    have henv : first.env = env.applyUnsets := he
    rw [hagain, henv]
    exact ⟨.inl ⟨ho, hwritten, hv, rfl⟩, rfl, rfl, hv, rfl⟩
  · obtain ⟨taken, lost, htext, hlost, hroom, hstream⟩ := Stream.write_of_fst_eq_false hw
    have hwritten : first.streams.commands.written = t.commands.written ++ taken := by
      rw [show first.streams.commands = _ from hs, hstream]
    have henv : first.env = env := he
    rw [hagain, henv]
    exact ⟨.inr ⟨ho, rfl, taken, lost, htext, hlost, hroom, hwritten⟩, rfl, rfl, hv, rfl⟩

/-- The stream fails in the line that goes before the commands. -/
theorem flush_flush_of_preamble :
    let start : Environment := .ofVars (.ofList [("G", "1")])
    let (env, first) := start.changeVariable true "1" "A"
    let (env, second) := env.changeVariable false "" "G"
    let batch := (Bindings.empty.insert "A" first).insert "G" second
    let failed := (commands .python batch).flush env ⟨⟨.empty, some 4⟩, .unlimited, false⟩
    let again := failed.backend.flush failed.env .unlimited
    env.Tallies start.vars batch ∧ failed.outcome = .error .streamClosed ∧
      again.outcome = .ok () ∧ again.streams = .unlimited ∧
      again.env.vars = applyCommands start.vars batch.entries ∧ again.env.pending = [] := by
  intro start
  have hstart : start.Tallies start.vars .empty := .of_pending_eq_nil rfl
  have ht := (hstart.changeVariable true "1" "A").changeVariable false "" "G"
  exact ⟨ht, by decide +kernel, (flush_flush .python ht ⟨⟨.empty, some 4⟩, .unlimited, false⟩ .unlimited).2⟩

/-- The stream has room for part of the first of three commands, and no other one is ever written. -/
theorem written_flush_flush_ne :
    let start : Environment := .ofVars (.ofList [("G", "1")])
    let (b, env) := (commands .posix .empty).setVariable start true "1" "AAA"
    let (b, env) := b.setVariable env true "22" "BBB"
    let (b, env) := b.setVariable env false "" "G"
    let first := b.flush env ⟨⟨.empty, some 10⟩, .unlimited, false⟩
    let again := first.backend.flush first.env .unlimited
    first.outcome = .error .streamClosed ∧ first.env = env ∧
      first.streams.commands.written = "export AAA".toUTF8 ∧
      again.outcome = .ok () ∧ again.streams.commands.written = .empty ∧
      env.get? "G" = some "1" ∧ again.env.get? "G" = none := by
  decide +kernel

end Backend

end EnvModules
