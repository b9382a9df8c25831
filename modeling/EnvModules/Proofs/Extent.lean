import EnvModules.Proofs.Commands
import EnvModules.Proofs.Origin
import EnvModules.Proofs.Targets

/-!
How far the effect of an operation reaches. Apart from the record of loaded modules it is confined to the
variables that the statements are about which have been run for it.
-/

namespace EnvModules

open Statement

/-- The variables that the statement of a step is about. -/
def Step.targets (x : Step) : List String := x.subject.site.config.targets x.subject.name x.statement

theorem Step.target_of_mem_intents {x : Step} {i : Intent} (hi : i ∈ x.intents) {k : String}
    (hk : k ∉ x.targets) : i.target? ≠ some k :=
  fun ht => hk (x.subject.mem_targets hi ht)

namespace Machine

/-- A variable is spared by a run in which no step is about it. -/
theorem lockstep_spares {k : String} (hk : k ≠ loadedVariable) (start : Machine) :
    Lockstep (fun x => k ∉ x.targets) fun m m' => m = m' ∧ start.Spares k m where
  view := by
    rintro x m' - ⟨rfl, -⟩
    exact ⟨fun _ _ => rfl, fun _ _ => rfl⟩
  isDisplay hR := by rw [hR.1]
  loaded hR := by rw [hR.1]
  assign := by
    rintro x text name m m' forward value hx hi ⟨rfl, hm⟩
    have ht : (Intent.assign value name).target? ≠ some k := Step.target_of_mem_intents hi hx
    exact ⟨rfl, hm.trans (.apply ht forward m)⟩
  prepend := by
    rintro x text name m m' forward value hx hi ⟨rfl, hm⟩ -
    have ht : (Intent.prepend value name).target? ≠ some k := Step.target_of_mem_intents hi hx
    exact ⟨rfl, hm.trans (.apply ht forward m)⟩
  record := by
    rintro m m' forward value ⟨rfl, hm⟩
    have ht : (Intent.prepend value loadedVariable).target? ≠ some k :=
      fun he => hk (Option.some.inj he).symm
    exact ⟨rfl, hm.trans (.apply ht forward m)⟩
  report := by
    rintro m m' effect name value ⟨rfl, hm⟩
    have ht : (Intent.report effect name value).target? ≠ some k := nofun
    exact ⟨rfl, hm.trans (.apply ht true m)⟩
  visit := by
    rintro m m' visit ⟨rfl, hm⟩
    exact ⟨rfl, hm.value, hm.pending, hm.staged⟩

end Machine

theorem Operation.spares_staging (op : Operation) (s : Site) {k : String} (hk : k ≠ loadedVariable)
    {m : Machine} (h : ∀ x ∈ op.trace s m, k ∉ x.targets) : m.Spares k (op.staging s m).2 :=
  ((Machine.lockstep_spares hk m).staging s op m m ⟨rfl, .refl m⟩ h).2.2

theorem Stream.written_write {s : Stream} {text : String} (h : (s.write text).1 = true) :
    (s.write text).2.written = s.written ++ text.toUTF8 := by
  obtain ⟨written, room⟩ := s
  rw [write] at h ⊢
  cases room with
  | none => rfl
  | some room =>
    simp only at h ⊢
    split at h
    · next hs => rw [if_pos hs]
    · cases h

namespace Session

variable {s : Session} {tree : FileTree} {op : Operation} {b : Backend} {t : Streams}

/-- What an operation that succeeds has staged becomes the environment, with the unsets made or not. -/
theorem env_perform_of_ok (hop : ∀ names, op ≠ .display names)
    (h : (s.perform tree op b t).outcome = .ok ()) :
    ∃ m, op.staging (s.site tree) (s.machine b t) = (.ok (), m) ∧
      ((s.perform tree op b t).session.env = m.env ∨
        (s.perform tree op b t).session.env = m.env.applyUnsets) ∧
      (s.perform tree op b t).visits = m.visits ∧
      (TransitionM.flush m).1 = .ok () ∧
      (s.perform tree op b t).streams = (TransitionM.flush m).2.streams := by
  have hv : (s.perform tree op b t).visits =
      (op.transition (s.site tree) (s.machine b t)).2.visits := rfl
  have hst := s.streams_perform tree op b t
  obtain ⟨ho, hs⟩ := s.perform_eq tree op b t
  rw [ho] at h
  rw [op.transition_eq _ hop, bind_apply] at h hs hv hst
  rcases hm : op.staging (s.site tree) (s.machine b t) with ⟨fault | _, m⟩ <;> rw [hm] at h hs hv hst
  · exact nomatch h
  · rw [proceed_ok] at h hs hv hst
    rw [h] at hs
    refine ⟨m, rfl, ?_, hv, h, hst⟩
    rw [hs]
    exact TransitionM.env_flush m

/-- Whatever room a stream has, an operation that succeeds has written all its commands. -/
theorem written_perform_of_ok {dialect : Dialect}
    (h : (s.perform tree op (.commands dialect .empty) t).outcome = .ok ()) :
    (s.perform tree op (.commands dialect .empty) t).streams.commands.written =
      t.commands.written ++ (dialect.script (s.emitted t ⟨tree, op, dialect⟩)).toUTF8 := by
  by_cases hop : ∃ names, op = .display names
  · obtain ⟨names, rfl⟩ := hop
    have he : s.emitted t ⟨tree, .display names, dialect⟩ = .empty := rfl
    rw [commands_perform_display, he, Dialect.script_empty]
    exact ByteArray.append_empty.symm
  · obtain ⟨m, hm, -, -, hf, hst⟩ := env_perform_of_ok (fun names he => hop ⟨names, he⟩) h
    have hd := ((Machine.kept_dialect (some dialect)).staging (s.site tree) op).of_ok rfl hm
    obtain ⟨batch, hb⟩ := Backend.eq_commands_of_dialect? hd
    have hstreams : m.streams = t := ((Machine.kept_streams t).staging (s.site tree) op).of_ok rfl hm
    have he : s.emitted t ⟨tree, op, dialect⟩ = batch := by simp only [emitted, hm, hb, Backend.staged]
    rw [hst, he]
    -- The flush has succeeded, and so the stream has taken the whole text.
    simp only [TransitionM.flush, Backend.flush, hb, hstreams] at hf ⊢
    split at hf
    · next hw =>
      rw [if_pos hw]
      exact Stream.written_write hw
    · cases hf

/-- A variable that is spared has the same value after the flush as well. It awaits no unset, since none did
before. -/
theorem get?_perform_of_spares (hp : s.env.pending = []) (hok : (s.perform tree op b t).outcome = .ok ())
    {k : String} (hk : (s.machine b t).Spares k (op.staging (s.site tree) (s.machine b t)).2) :
    (s.perform tree op b t).session.env.get? k = s.env.get? k := by
  by_cases hop : ∃ names, op = .display names
  · obtain ⟨names, rfl⟩ := hop
    rw [(perform_display hp names).1]
  · obtain ⟨m, hm, henv, -⟩ := env_perform_of_ok (fun names he => hop ⟨names, he⟩) hok
    rw [hm] at hk
    have hpending : k ∉ m.env.pending := by
      intro hmem
      have hstart : k ∈ s.env.pending := hk.pending.1 hmem
      rw [hp] at hstart
      exact List.not_mem_nil hstart
    have hvalue : m.env.get? k = s.env.get? k := hk.value
    rcases henv with he | he
    · rw [he, hvalue]
    · rw [he, Environment.get?_applyUnsets, if_neg hpending, hvalue]

theorem emitted_of_spares {dialect : Dialect} {k : String}
    (hk : (s.machine (.commands dialect .empty) t).Spares k
      (op.staging (s.site tree) (s.machine (.commands dialect .empty) t)).2) :
    (s.emitted t ⟨tree, op, dialect⟩).get? k = none := by
  simp only [emitted]
  rcases hm : op.staging (s.site tree) (s.machine (.commands dialect .empty) t) with ⟨fault | _, m⟩
  · rfl
  · rw [hm] at hk
    exact hk.staged

theorem origin_of_perform (hok : (s.perform tree op b t).outcome = .ok ()) {x : Step}
    (hx : x ∈ op.trace (s.site tree) (s.machine b t)) :
    ∃ found, x.Origin (s.site tree) (s.perform tree op b t).visits found := by
  obtain ⟨events, ha⟩ := (op.covers_staging (s.site tree)).accounts (s.machine b t)
  obtain ⟨found, ho⟩ := ha.origin x hx
  by_cases hop : ∃ names, op = .display names
  · obtain ⟨names, rfl⟩ := hop
    exact absurd hx List.not_mem_nil
  · obtain ⟨m, hm, -, hv, -⟩ := env_perform_of_ok (fun names he => hop ⟨names, he⟩) hok
    rw [hm] at ho
    rw [hv]
    exact ⟨found, ho⟩

/-- An operation touches nothing that its descriptors do not name. Every variable with another value after it,
and every one that a command is written for, is the record of loaded modules, or a statement is about it that
was run for the operation. Each of these statements is from the descriptor of a module that has been visited,
be it asked for or brought in by others. -/
theorem perform_extent (s : Session) (tree : FileTree) (op : Operation) (b : Backend) (t : Streams)
    (hp : s.env.pending = []) (hb : b.staged = .empty)
    (hok : (s.perform tree op b t).outcome = .ok ()) :
    let done := s.perform tree op b t
    let steps := op.trace (s.site tree) (s.machine b t)
    (∀ k, done.session.env.get? k ≠ s.env.get? k → k = loadedVariable ∨ ∃ x ∈ steps, k ∈ x.targets) ∧
      (∀ dialect, b = .commands dialect .empty →
        done.streams.commands.written =
            t.commands.written ++ (dialect.script (s.emitted t ⟨tree, op, dialect⟩)).toUTF8 ∧
          ∀ k, (s.emitted t ⟨tree, op, dialect⟩).get? k ≠ none →
            k = loadedVariable ∨ ∃ x ∈ steps, k ∈ x.targets) ∧
      (b.dialect? = none → done.streams.commands = t.commands) ∧
      ∀ x ∈ steps, ∃ found, x.Origin (s.site tree) done.visits found := by
  intro done steps
  have spared {k : String} (hk : ¬ (k = loadedVariable ∨ ∃ x ∈ steps, k ∈ x.targets)) :
      (s.machine b t).Spares k (op.staging (s.site tree) (s.machine b t)).2 := by
    obtain ⟨hl, hx⟩ := not_or.1 hk
    exact op.spares_staging (s.site tree) hl fun x hm ht => hx ⟨x, hm, ht⟩
  refine ⟨?_, ?_, commands_perform_of_dialect? op, fun x hx => origin_of_perform hok hx⟩
  · intro k hne
    by_contra hk
    exact hne (get?_perform_of_spares hp hok (spared hk))
  · rintro dialect rfl
    refine ⟨written_perform_of_ok hok, ?_⟩
    intro k hne
    by_contra hk
    exact hne (emitted_of_spares (spared hk))

/-- A module is loaded that brings in a second one under a condition, which swaps two others. One of them
records an installation, and the other has left a variable behind. -/
theorem perform_extent_of_nested_swap :
    let s : Session := .ofVars [("LOADEDENVMASTER", "c"), ("C", "1"), ("P", "/c:/usr"), ("Q", "q")]
    let tree := FileTree.ofDescriptors [("a", ["setVar $Q A", "if not loaded b", "load b", "end"]),
      ("b", ["swap c d", "setPath /b P"]), ("c", ["setVar 1 C", "setPath /c P"]), ("d", ["setAll /mods"])]
    let done := s.perform tree (.load ["a"]) (.commands .csh .empty) .unlimited
    let steps := Operation.trace (s.site tree) (.load ["a"]) (s.machine (.commands .csh .empty) .unlimited)
    (∀ k, done.session.env.get? k ≠ s.env.get? k → k = loadedVariable ∨ ∃ x ∈ steps, k ∈ x.targets) ∧
      (∀ dialect, Backend.commands .csh .empty = .commands dialect .empty →
        done.streams.commands.written = Streams.unlimited.commands.written ++
            (dialect.script (s.emitted .unlimited ⟨tree, .load ["a"], dialect⟩)).toUTF8 ∧
          ∀ k, (s.emitted .unlimited ⟨tree, .load ["a"], dialect⟩).get? k ≠ none →
            k = loadedVariable ∨ ∃ x ∈ steps, k ∈ x.targets) ∧
      ((Backend.commands .csh .empty).dialect? = none →
        done.streams.commands = Streams.unlimited.commands) ∧
      ∀ x ∈ steps, ∃ found, x.Origin (s.site tree) done.visits found := by
  intro s tree
  apply perform_extent s tree (.load ["a"]) (.commands .csh .empty) .unlimited
  · rfl
  · rfl
  · decide +kernel

end Session

end EnvModules
