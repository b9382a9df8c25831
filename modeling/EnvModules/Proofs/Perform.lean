import EnvModules.Proofs.Lockstep

/-!
Operations of a session from the outside: what they write, and which environment they leave behind.
-/

namespace EnvModules

namespace Machine

/-- Whether changes are made for good: the backend is no display, and the stream takes every command. -/
structure Writable (m : Machine) : Prop where
  live : m.backend.isDisplay = false
  room : m.streams.commands.room = none

theorem kept_writable : Kept Writable where
  setVariable forward value name h := ⟨by simpa using h.live, h.room⟩
  setPath forward value name h := ⟨by simpa using h.live, h.room⟩
  report effect name value h := ⟨by simpa [report] using h.live, h.room⟩
  visit visit h := ⟨h.live, h.room⟩

theorem kept_live : Kept fun m => m.backend.isDisplay = false where
  setVariable forward value name h := by simpa using h
  setPath forward value name h := by simpa using h
  report effect name value h := by simpa [report] using h
  visit visit h := h

section Record

variable {m : Machine} (depth : Nat) (mode : Mode) (name : Name)

@[simp] theorem isDisplay_entering :
    (m.entering depth mode name).backend.isDisplay = m.backend.isDisplay := by
  simp only [entering]
  split
  · exact isDisplay_setPath _ true name.text loadedVariable
  · rfl

@[simp] theorem isDisplay_leaving :
    (m.leaving mode name).backend.isDisplay = m.backend.isDisplay := by
  simp only [leaving]
  split
  · exact isDisplay_setPath _ false name.text loadedVariable
  · rfl

/-- A module that is loaded is recorded on entering, -/
theorem env_entering_load (hd : m.backend.isDisplay = false) :
    (m.entering depth .load name).env = (m.env.changePath true name.text loadedVariable).1 := by
  rw [entering, if_pos ⟨rfl, hd⟩]
  exact congrArg env (setPath_of_not_isDisplay _ true name.text loadedVariable hd)

theorem env_entering_unload : (m.entering depth .unload name).env = m.env := by
  rw [entering, if_neg (by simp)]

theorem env_entering_of_isDisplay (hd : m.backend.isDisplay = true) :
    (m.entering depth mode name).env = m.env := by
  rw [entering, if_neg (by simp [hd])]

theorem leaving_load : m.leaving .load name = m := if_neg nofun

/-- and one that is unloaded is taken out of the record on leaving. -/
theorem env_leaving_unload (hd : m.backend.isDisplay = false) :
    (m.leaving .unload name).env = (m.env.changePath false name.text loadedVariable).1 := by
  rw [leaving, if_pos rfl]
  exact congrArg env (setPath_of_not_isDisplay _ false name.text loadedVariable hd)

theorem env_leaving_of_isDisplay (hd : m.backend.isDisplay = true) :
    (m.leaving mode name).env = m.env := by
  rw [leaving]
  split
  · show (m.setPath false name.text loadedVariable).env = m.env
    rw [setPath_of_isDisplay _ _ _ _ hd, report]
  · rfl

end Record

theorem kept_env_of_isDisplay (Q : Environment → Prop) :
    Kept fun m => m.backend.isDisplay = true ∧ Q m.env where
  setVariable forward value name h := by
    rw [setVariable_of_isDisplay _ _ _ _ h.1]
    exact ⟨by simpa [report] using h.1, h.2⟩
  setPath forward value name h := by
    rw [setPath_of_isDisplay _ _ _ _ h.1]
    exact ⟨by simpa [report] using h.1, h.2⟩
  report effect name value h := ⟨by simpa [report] using h.1, h.2⟩
  visit visit h := h

/-- A display that has left the environment and the stream of commands as they were. -/
structure Shows (env : Environment) (commands : Stream) (m : Machine) : Prop where
  display : m.backend.isDisplay = true
  env : m.env = env
  commands : m.streams.commands = commands

theorem kept_shows (env : Environment) (commands : Stream) : Kept (Shows env commands) where
  setVariable forward value name h := by
    rw [setVariable_of_isDisplay _ _ _ _ h.display]
    exact ⟨by simpa [report] using h.display, h.env, h.commands⟩
  setPath forward value name h := by
    rw [setPath_of_isDisplay _ _ _ _ h.display]
    exact ⟨by simpa [report] using h.display, h.env, h.commands⟩
  report effect name value h := ⟨by simpa [report] using h.display, h.env, h.commands⟩
  visit visit h := ⟨h.display, h.env, h.commands⟩

end Machine

theorem Environment.applyUnsets_of_pending_eq_nil {env : Environment} (h : env.pending = []) :
    env.applyUnsets = env := by
  obtain ⟨vars, pending⟩ := env
  obtain rfl : pending = [] := h
  rfl

namespace TransitionM

open Machine

theorem flush_of_writable {m : Machine} (h : m.Writable) :
    (flush m).1 = .ok () ∧ (flush m).2.env = m.env.applyUnsets := by
  obtain ⟨env, backend, streams, visits⟩ := m
  cases backend with
  | commands dialect batch =>
    simp only [flush, Backend.flush, Stream.write_of_room_eq_none h.room, if_true, and_self]
  | silent => exact ⟨rfl, rfl⟩
  | display report => exact absurd h.live (by simp [Backend.isDisplay])

theorem env_flush_of_ok {m : Machine} (hd : m.backend.isDisplay = false)
    (h : (flush m).1 = .ok ()) : (flush m).2.env = m.env.applyUnsets := by
  obtain ⟨env, backend, streams, visits⟩ := m
  cases backend with
  | commands dialect batch =>
    simp only [flush, Backend.flush] at h ⊢
    split
    · rfl
    · next hw => simp [hw] at h
  | silent => rfl
  | display report => exact absurd hd (by simp [Backend.isDisplay])

theorem flush_maintains_shows {env : Environment} (hp : env.pending = []) (commands : Stream) :
    Maintains (Shows env commands) (Shows env commands) flush := by
  apply maintains_iff_snd.2
  intro m hm
  obtain ⟨menv, backend, streams, visits⟩ := m
  obtain ⟨hd, rfl, hc⟩ := hm
  cases backend with
  | display r =>
    have he : menv.applyUnsets = menv := Environment.applyUnsets_of_pending_eq_nil hp
    -- What has been shown goes to the stream of reports, which may well be full.
    simp only [flush, Backend.flush, he]
    repeat' split
    all_goals exact ⟨rfl, rfl, hc⟩
  | _ => exact absurd hd (by simp [Backend.isDisplay])

/-- What every change, a title and a flush keep is kept by a display. -/
theorem display_maintains {P : Machine → Prop} (hk : Kept P)
    (ht : ∀ {m} text, P m → P { m with backend := m.backend.setTitle text })
    (hf : Maintains P P flush) (s : Site) (names : List String) :
    Maintains P P (names.forM fun name => do
      let found ← s.resolveOrFail name
      modify fun m => { m with backend := m.backend.setTitle found.path.text }
      s.visit 0 (s.runWithin (nestingLimit - 1)) .display found
      flush) := by
  have resolve (name : String) : Maintains P P (s.resolveOrFail name) := by
    intro m hm
    rw [s.resolveOrFail_apply]
    cases s.find name <;> exact hm
  apply Maintains.forM
  intro name _
  apply (resolve name).bind
  intro found
  have title : Maintains P P (modify fun m => { m with backend := m.backend.setTitle found.path.text }) :=
    fun m hm => ht found.path.text hm
  apply title.bind
  intro _
  exact (hk.siteVisit s 0 _ .display found).bind fun _ => hf

theorem display_maintains_shows {env : Environment} (hp : env.pending = []) (commands : Stream)
    (s : Site) (names : List String) :
    Maintains (Shows env commands) (Shows env commands) (names.forM fun name => do
      let found ← s.resolveOrFail name
      modify fun m => { m with backend := m.backend.setTitle found.path.text }
      s.visit 0 (s.runWithin (nestingLimit - 1)) .display found
      flush) := by
  apply display_maintains (kept_shows env commands)
  · intro m text hm
    exact ⟨by simpa using hm.display, hm.env, hm.commands⟩
  · exact flush_maintains_shows hp commands

theorem env_flush (m : Machine) :
    (flush m).2.env = m.env ∨ (flush m).2.env = m.env.applyUnsets := by
  obtain ⟨env, backend, streams, visits⟩ := m
  cases backend with
  | commands dialect batch =>
    simp only [flush, Backend.flush]
    split
    · exact .inr rfl
    · exact .inl rfl
  | silent => exact .inr rfl
  | display r =>
    simp only [flush, Backend.flush]
    repeat' split
    all_goals first
      | exact .inr rfl
      | exact .inl rfl

theorem isDisplay_flush (m : Machine) : (flush m).2.backend.isDisplay = m.backend.isDisplay := by
  obtain ⟨env, backend, streams, visits⟩ := m
  cases backend with
  | commands dialect batch =>
    simp only [flush, Backend.flush]
    split <;> rfl
  | silent => rfl
  | display r =>
    simp only [flush, Backend.flush]
    repeat' split
    all_goals rfl

end TransitionM

namespace Session

variable (s : Session) (tree : FileTree) (op : Operation) (b : Backend) (streams : Streams)

/-- The machine that an operation of the session starts on. -/
def machine : Machine := ⟨s.env, b, streams, []⟩

/-- Only a transition that succeeds changes the environment. -/
theorem perform_eq :
    (s.perform tree op b streams).outcome =
        (op.transition (s.site tree) (s.machine b streams)).1 ∧
      (s.perform tree op b streams).session =
        { s with
          env := match (op.transition (s.site tree) (s.machine b streams)).1 with
            | .ok () => (op.transition (s.site tree) (s.machine b streams)).2.env
            | .error _ => s.env } := ⟨rfl, rfl⟩

theorem streams_perform :
    (s.perform tree op b streams).streams =
      (op.transition (s.site tree) (s.machine b streams)).2.streams := rfl

variable {s tree b streams}

/-- Writing leads to no visits. -/
theorem visits_perform (hop : ∀ names, op ≠ .display names) (b : Backend) :
    (s.perform tree op b streams).visits = (op.staging (s.site tree) (s.machine b streams)).2.visits := by
  show (op.transition (s.site tree) (s.machine b streams)).2.visits = _
  rw [op.transition_eq _ hop, bind_apply]
  rcases op.staging (s.site tree) (s.machine b streams) with ⟨fault | _, m⟩ <;> rfl

/-- An operation that fails leaves the session as it was. -/
theorem session_of_ne_ok (h : (s.perform tree op b streams).outcome ≠ .ok ()) :
    (s.perform tree op b streams).session = s := by
  obtain ⟨ho, hs⟩ := s.perform_eq tree op b streams
  rw [ho] at h
  rw [hs]
  rcases ht : (op.transition (s.site tree) (s.machine b streams)).1 with fault | u
  · rfl
  · exact absurd ht h

theorem perform_of_staging_error (hop : ∀ names, op ≠ .display names) {fault : Fault} {m : Machine}
    (h : op.staging (s.site tree) (s.machine b streams) = (.error fault, m)) :
    (s.perform tree op b streams).outcome = .error fault ∧
      (s.perform tree op b streams).session = s := by
  obtain ⟨ho, hs⟩ := s.perform_eq tree op b streams
  rw [op.transition_eq _ hop, bind_apply, h, proceed_error] at ho hs
  exact ⟨ho, hs⟩

theorem perform_of_staging_ok (hop : ∀ names, op ≠ .display names)
    (hw : (s.machine b streams).Writable) {m : Machine}
    (h : op.staging (s.site tree) (s.machine b streams) = (.ok (), m)) :
    (s.perform tree op b streams).outcome = .ok () ∧
      (s.perform tree op b streams).session = { s with env := m.env.applyUnsets } := by
  have hm : m.Writable := (Machine.kept_writable.staging _ op).of_ok hw h
  obtain ⟨hf, he⟩ := TransitionM.flush_of_writable hm
  obtain ⟨ho, hs⟩ := s.perform_eq tree op b streams
  rw [op.transition_eq _ hop, bind_apply, h, proceed_ok, hf] at ho hs
  rw [he] at hs
  exact ⟨ho, hs⟩

/-- The environment of a session stays as it was, or it is the one that was staged. -/
theorem session_perform (hop : ∀ names, op ≠ .display names) (hd : b.isDisplay = false) :
    ((s.perform tree op b streams).outcome ≠ .ok () ∧ (s.perform tree op b streams).session = s) ∨
      ∃ m, op.staging (s.site tree) (s.machine b streams) = (.ok (), m) ∧
        (s.perform tree op b streams).session = { s with env := m.env.applyUnsets } := by
  rcases h : op.staging (s.site tree) (s.machine b streams) with ⟨fault | u, m⟩
  · obtain ⟨ho, hs⟩ := perform_of_staging_error op hop h
    exact .inl ⟨by rw [ho]; exact nofun, hs⟩
  · obtain ⟨ho, hs⟩ := s.perform_eq tree op b streams
    rw [op.transition_eq _ hop, bind_apply, h, proceed_ok] at ho hs
    have hm : m.backend.isDisplay = false := (Machine.kept_live.staging _ op).of_ok hd h
    rcases hf : (TransitionM.flush m).1 with fault | u
    · rw [hf] at ho hs
      exact .inl ⟨by rw [ho]; exact nofun, hs⟩
    · rw [hf, TransitionM.env_flush_of_ok hm hf] at hs
      exact .inr ⟨m, rfl, hs⟩

/-- An operation that succeeds has staged something, and writing it has led to no visits. -/
theorem perform_of_ok (hop : ∀ names, op ≠ .display names) (hd : b.isDisplay = false)
    (h : (s.perform tree op b streams).outcome = .ok ()) :
    ∃ m, op.staging (s.site tree) (s.machine b streams) = (.ok (), m) ∧
      (s.perform tree op b streams).session = { s with env := m.env.applyUnsets } ∧
      (s.perform tree op b streams).visits = m.visits := by
  rcases session_perform op hop hd with ⟨hne, -⟩ | ⟨m, hm, hs⟩
  · exact absurd h hne
  · have hv : (s.perform tree op b streams).visits =
        (op.transition (s.site tree) (s.machine b streams)).2.visits := rfl
    rw [op.transition_eq _ hop, bind_apply, hm, proceed_ok] at hv
    exact ⟨m, hm, hs, hv⟩

/-- A display changes no variable and writes no command. -/
theorem perform_display (hp : s.env.pending = []) (names : List String) :
    (s.perform tree (.display names) b streams).session = s ∧
      (s.perform tree (.display names) b streams).backend = b ∧
      (s.perform tree (.display names) b streams).streams.commands = streams.commands := by
  have hm := TransitionM.maintains_iff_snd.1
    (TransitionM.display_maintains_shows hp streams.commands (s.site tree) names)
    (s.machine (.display ⟨none, []⟩) streams) ⟨rfl, rfl, rfl⟩
  obtain ⟨-, hs⟩ := s.perform_eq tree (.display names) b streams
  refine ⟨?_, rfl, hm.commands⟩
  rw [hs]
  obtain ⟨config, registry, env⟩ := s
  congr 1
  split
  · exact hm.env
  · rfl

end Session

/-- A tree with one root of descriptors, each given by its name and its lines. -/
def FileTree.ofDescriptors (descriptors : List (String × List String)) : FileTree :=
  ⟨.directory [("mods", .directory (descriptors.map fun (name, lines) =>
    (name, .file ("\n".intercalate (sentinel :: lines)).toUTF8)))], []⟩

def Session.ofVars (vars : List (String × String)) : Session :=
  ⟨.default, ⟨[⟨"/mods"⟩]⟩, .ofVars (.ofList vars)⟩

def Streams.unlimited : Streams := ⟨.unlimited, .unlimited, false⟩

end EnvModules
