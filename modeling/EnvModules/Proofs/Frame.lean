import EnvModules.Proofs.Pairs

/-!
What operations leave alone. A display leaves the environment as it is, and only an operation that succeeds
writes commands, all that it has staged at once.
-/

namespace EnvModules

open TransitionM

namespace Backend

/-- The dialect of the commands that a backend writes, if it writes any. -/
def dialect? : Backend → Option Dialect
  | .commands dialect _ => some dialect
  | _ => none

variable {b : Backend}

theorem eq_commands_of_dialect? {dialect : Dialect} (h : b.dialect? = some dialect) :
    ∃ batch, b = .commands dialect batch := by
  cases b with
  | commands d batch =>
    obtain rfl : d = dialect := Option.some.inj h
    exact ⟨batch, rfl⟩
  | _ => exact nomatch h

@[simp] theorem dialect?_stage (b : Backend) (name : String) (change : Change) :
    (b.stage name change).dialect? = b.dialect? := by
  cases b <;> rfl

@[simp] theorem dialect?_report (b : Backend) (effect : Effect) (name value : String) :
    (b.report effect name value).dialect? = b.dialect? := by
  cases b <;> rfl

@[simp] theorem dialect?_setTitle (b : Backend) (title : String) :
    (b.setTitle title).dialect? = b.dialect? := by
  cases b <;> rfl

end Backend

namespace Machine

section Dialect

variable (m : Machine) (forward : Bool) (value name : String)

@[simp] theorem dialect?_setVariable :
    (m.setVariable forward value name).backend.dialect? = m.backend.dialect? := by
  cases h : m.backend.isDisplay with
  | true => simp [setVariable_of_isDisplay, h, report]
  | false => simp [setVariable_of_not_isDisplay, h]

@[simp] theorem dialect?_setPath :
    (m.setPath forward value name).backend.dialect? = m.backend.dialect? := by
  cases h : m.backend.isDisplay with
  | true => simp [setPath_of_isDisplay, h, report]
  | false => simp [setPath_of_not_isDisplay, h]

end Dialect

theorem kept_streams (t : Streams) : Kept fun m => m.streams = t where
  setVariable _ _ _ h := h
  setPath _ _ _ h := h
  report _ _ _ h := h
  visit _ h := h

theorem kept_dialect (dialect : Option Dialect) : Kept fun m => m.backend.dialect? = dialect where
  setVariable forward value name h := by simpa using h
  setPath forward value name h := by simpa using h
  report effect name value h := by simpa [report] using h
  visit visit h := h

/-- A machine that writes no commands and has written none. -/
structure Mute (commands : Stream) (m : Machine) : Prop where
  dialect : m.backend.dialect? = none
  commands : m.streams.commands = commands

theorem kept_mute (commands : Stream) : Kept (Mute commands) where
  setVariable forward value name h := ⟨by simpa using h.dialect, h.commands⟩
  setPath forward value name h := ⟨by simpa using h.dialect, h.commands⟩
  report effect name value h := ⟨by simpa [report] using h.dialect, h.commands⟩
  visit visit h := ⟨h.dialect, h.commands⟩

end Machine

namespace TransitionM

/-- What a display has to show goes to the other stream, whether that takes it or not. -/
theorem flush_maintains_mute (commands : Stream) :
    Maintains (Machine.Mute commands) (Machine.Mute commands) flush := by
  apply maintains_iff_snd.2
  intro m h
  obtain ⟨env, backend, streams, visits⟩ := m
  cases backend with
  | commands dialect batch => exact nomatch h.dialect
  | silent => exact ⟨rfl, h.commands⟩
  | display r =>
    simp only [flush, Backend.flush]
    repeat' split
    all_goals exact ⟨rfl, h.commands⟩

end TransitionM

namespace Operation

variable {s : Site} {op : Operation} {m n : Machine} {dialect : Dialect} {batch : Bindings Change}

/-- What every change and a flush keep is kept by an operation that displays nothing. -/
theorem transition_maintains {P : Machine → Prop} (hk : Kept P) (hf : Maintains P P flush) (s : Site)
    (hop : ∀ names, op ≠ .display names) : Maintains P P (op.transition s) := by
  rw [op.transition_eq s hop]
  exact (hk.staging s op).bind fun _ => hf

theorem transition_of_staging_error (hop : ∀ names, op ≠ .display names) {fault : Fault}
    (h : op.staging s m = (.error fault, n)) : op.transition s m = (.error fault, n) := by
  rw [op.transition_eq s hop, bind_apply, h, proceed_error]

/-- All that is staged when an operation comes to its flush is written, and nothing stays staged. -/
theorem transition_of_staging_ok (hop : ∀ names, op ≠ .display names)
    (hr : m.streams.commands.room = none) (hb : n.backend = .commands dialect batch)
    (h : op.staging s m = (.ok (), n)) :
    (op.transition s m).1 = .ok () ∧ (op.transition s m).2.backend = .commands dialect .empty ∧
      (op.transition s m).2.streams.commands =
        ⟨m.streams.commands.written ++ (dialect.script batch).toUTF8, none⟩ := by
  have hs : n.streams = m.streams := ((Machine.kept_streams m.streams).staging s op).of_ok rfl h
  rw [op.transition_eq s hop, bind_apply, h, proceed_ok]
  simp only [flush, Backend.flush, hb, hs, Stream.write_of_room_eq_none hr, if_true, and_self]

theorem commands_transition_display (s : Site) (names : List String) (m : Machine) :
    ((display names).transition s m).2.streams.commands = m.streams.commands := by
  have hm := display_maintains (Machine.kept_mute m.streams.commands)
    (fun text h => ⟨by simpa using h.dialect, h.commands⟩) (flush_maintains_mute _) s names
  exact (maintains_iff_snd.1 hm { m with backend := .display ⟨none, []⟩ } ⟨rfl, rfl⟩).commands

theorem commands_transition_of_dialect? (s : Site) (op : Operation) (h : m.backend.dialect? = none) :
    (op.transition s m).2.streams.commands = m.streams.commands := by
  by_cases hop : ∃ names, op = .display names
  · obtain ⟨names, rfl⟩ := hop
    exact commands_transition_display s names m
  · have hm := transition_maintains (Machine.kept_mute m.streams.commands) (flush_maintains_mute _) s
      fun names he => hop ⟨names, he⟩
    exact (maintains_iff_snd.1 hm m ⟨h, rfl⟩).commands

/-- Unless the stream of commands fails, only an operation that succeeds writes to it. -/
theorem commands_transition_of_error (hr : m.streams.commands.room = none) {fault : Fault}
    (h : (op.transition s m).1 = .error fault) :
    (op.transition s m).2.streams.commands = m.streams.commands := by
  by_cases hop : ∃ names, op = .display names
  · obtain ⟨names, rfl⟩ := hop
    exact commands_transition_display s names m
  · have hop' (names : List String) : op ≠ .display names := fun he => hop ⟨names, he⟩
    cases hd : m.backend.dialect? with
    | none => exact commands_transition_of_dialect? s op hd
    | some dialect =>
      rcases hs : op.staging s m with ⟨earlier | u, n⟩
      · rw [transition_of_staging_error hop' hs]
        have hst := maintains_iff_snd.1 ((Machine.kept_streams m.streams).staging s op) m rfl
        rw [hs] at hst
        rw [hst]
      · -- What has come to its flush is written.
        have hn := ((Machine.kept_dialect (some dialect)).staging s op).of_ok hd hs
        obtain ⟨batch, hb⟩ := Backend.eq_commands_of_dialect? hn
        obtain ⟨ho, -, -⟩ := transition_of_staging_ok hop' hr hb hs
        rw [ho] at h
        exact nomatch h

end Operation

namespace Session

variable {s : Session} {tree : FileTree} {b : Backend} {t : Streams}

theorem commands_perform_display (names : List String) :
    (s.perform tree (.display names) b t).streams.commands = t.commands :=
  Operation.commands_transition_display (s.site tree) names (s.machine b t)

theorem commands_perform_of_dialect? (op : Operation) (h : b.dialect? = none) :
    (s.perform tree op b t).streams.commands = t.commands :=
  Operation.commands_transition_of_dialect? (m := s.machine b t) (s.site tree) op h

/-- An operation that fails has written no command. -/
theorem commands_perform_of_ne_ok {op : Operation} (hr : t.commands.room = none)
    (h : (s.perform tree op b t).outcome ≠ .ok ()) :
    (s.perform tree op b t).streams.commands = t.commands := by
  rcases ho : (op.transition (s.site tree) (s.machine b t)).1 with fault | _
  · exact Operation.commands_transition_of_error (m := s.machine b t) hr ho
  · exact absurd ho h

end Session

/-- A display changes nothing. Whatever is asked of a machine whose backend is one, and whatever its
descriptors load, swap and unset in turn, the environment and the stream of commands stay as they are, and
so they do when modules are displayed through another backend. It makes no difference whether any of this
succeeds. -/
theorem Action.env_transition_of_isDisplay (s : Site) (a : Action) (m : Machine)
    (hd : m.backend.isDisplay = true ∨ ∃ names, a = .perform (.display names))
    (hp : m.env.pending = []) :
    let done := (a.transition s m).2
    done.env.vars = m.env.vars ∧ done.env.pending = [] ∧
      done.streams.commands = m.streams.commands ∧
      done.backend.isDisplay = m.backend.isDisplay := by
  intro done
  have hk := Machine.kept_shows m.env m.streams.commands
  have hf := flush_maintains_shows hp m.streams.commands
  suffices hs : done.env = m.env ∧ done.streams.commands = m.streams.commands ∧
      done.backend.isDisplay = m.backend.isDisplay by
    obtain ⟨he, hc⟩ := hs
    exact ⟨by rw [he], by rw [he, hp], hc⟩
  by_cases hop : ∃ names, a = .perform (.display names)
  · -- It is done on a backend of its own, so that the one before it does not matter.
    obtain ⟨names, rfl⟩ := hop
    have hm := maintains_iff_snd.1 (display_maintains_shows hp m.streams.commands s names)
      { m with backend := .display ⟨none, []⟩ } ⟨rfl, rfl, rfl⟩
    exact ⟨hm.env, hm.commands, rfl⟩
  · have display : m.backend.isDisplay = true := hd.resolve_right hop
    have shows : done.Shows m.env m.streams.commands := by
      cases a with
      | run mode names => exact maintains_iff_snd.1 (hk.run s mode names) m ⟨display, rfl, rfl⟩
      | perform op =>
        have ht := op.transition_maintains hk hf s fun names he => hop ⟨names, by rw [he]⟩
        exact maintains_iff_snd.1 ht m ⟨display, rfl, rfl⟩
      | flush => exact maintains_iff_snd.1 hf m ⟨display, rfl, rfl⟩
    exact ⟨shows.env, shows.commands, shows.display.trans display.symm⟩

/-- A module is swapped through a display for one that loads and swaps others itself. -/
theorem Action.env_transition_of_isDisplay_swap :
    let tree := FileTree.ofDescriptors [("a", ["setVar 1 A", "setPath /a P"]),
      ("b", ["load c", "swap a c", "setVar $A B"]), ("c", ["setPath /c P", "swap a b"])]
    let s : Site := ⟨tree, ⟨[⟨"/mods"⟩]⟩, .default⟩
    let env : Environment := .ofVars (.ofList [("A", "1"), ("P", "/a:/usr"), (loadedVariable, "a")])
    let m : Machine := ⟨env, .display ⟨none, []⟩, .unlimited, []⟩
    let done := ((Action.perform (.swap "a" "b")).transition s m).2
    done.env.vars = m.env.vars ∧ done.env.pending = [] ∧
      done.streams.commands = m.streams.commands ∧
      done.backend.isDisplay = m.backend.isDisplay := by
  intro tree s env m
  exact env_transition_of_isDisplay s (.perform (.swap "a" "b")) m (.inl rfl) rfl

end EnvModules
