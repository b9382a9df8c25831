import EnvModules.Proofs.Perform

/-!
Pairs of runs that differ in their backends. Apart from a display, which changes nothing, a backend has no
say in what becomes of the environment and in whether an operation succeeds.
-/

namespace EnvModules

namespace TransitionM

variable {α β : Type} {R : Machine → Machine → Prop}

/-- From related machines a transition leads to the same outcome and to related machines. -/
def Relates (R : Machine → Machine → Prop) (x : TransitionM α) : Prop :=
  ∀ m m', R m m' → (x m).1 = (x m').1 ∧ R (x m).2 (x m').2

theorem relates_pure (a : α) : Relates R (pure a) := fun _ _ hR => ⟨rfl, hR⟩

theorem Relates.bind {x : TransitionM α} {f : α → TransitionM β} (hx : Relates R x)
    (hf : ∀ a, Relates R (f a)) : Relates R (x >>= f) := by
  intro m m' hR
  obtain ⟨ho, hr⟩ := hx m m' hR
  rw [bind_apply, bind_apply]
  generalize x m = p, x m' = p' at ho hr
  obtain ⟨outcome, n⟩ := p
  obtain ⟨outcome', n'⟩ := p'
  obtain rfl : outcome = outcome' := ho
  -- The outcome that both share decides whether either goes on.
  cases outcome with
  | error fault => exact ⟨rfl, hr⟩
  | ok a => exact hf a n n' hr

theorem Relates.forM {f : β → TransitionM PUnit} (l : List β) (hf : ∀ b ∈ l, Relates R (f b)) :
    Relates R (l.forM f) := by
  induction l with
  | nil => exact relates_pure _
  | cons b rest ih =>
    obtain ⟨hb, hr⟩ := List.forall_mem_cons.1 hf
    show Relates R (f b >>= fun _ => rest.forM f)
    exact hb.bind fun _ => ih hr

theorem relates_modify {f : Machine → Machine} (hf : ∀ m m', R m m' → R (f m) (f m')) :
    Relates R (modify f : TransitionM PUnit) := fun m m' hR => ⟨rfl, hf m m' hR⟩

theorem relates_of_tracks {x : TransitionM Unit} {steps : Machine → List Step}
    (hx : Tracks (fun _ => True) R x steps) : Relates R x :=
  fun m m' hR => hx m m' hR fun _ _ => trivial

/-- What follows the search for a module is only done with the module that the name leads to. -/
theorem relates_resolveOrFail_bind {s : Site} {name : String} {f : Resolved → TransitionM α}
    (hf : ∀ found, s.find name = .ok found → Relates R (f found)) :
    Relates R (s.resolveOrFail name >>= f) := by
  intro m m' hR
  rw [bind_apply, bind_apply, s.resolveOrFail_apply, s.resolveOrFail_apply]
  cases h : s.find name with
  | error fault => exact ⟨rfl, hR⟩
  | ok found => exact hf found h m m' hR

/-- Whoever relates what is shown of each module, the titles and the flushes, and lets both machines go on
with a display and go back afterwards, relates displays. -/
theorem relates_display {s : Site}
    (hv : ∀ name found, s.find name = .ok found →
      Relates R (s.visit 0 (s.runWithin (nestingLimit - 1)) .display found))
    (hf : Relates R flush)
    (ht : ∀ m m' text, R m m' →
      R { m with backend := m.backend.setTitle text } { m' with backend := m'.backend.setTitle text })
    (hb : ∀ m m' b, R m m' → R { m with backend := b } { m' with backend := b })
    (hr : ∀ m m' n n', R m m' → R n n' →
      R { n with backend := m.backend } { n' with backend := m'.backend }) (names : List String) :
    Relates R (s.display names) := by
  have shown : Relates R (names.forM fun name => do
      let found ← s.resolveOrFail name
      modify fun m => { m with backend := m.backend.setTitle found.path.text }
      s.visit 0 (s.runWithin (nestingLimit - 1)) .display found
      flush) := by
    apply Relates.forM
    intro name _
    apply relates_resolveOrFail_bind
    intro found hfound
    have title : Relates R (modify fun m => { m with backend := m.backend.setTitle found.path.text }) :=
      relates_modify fun m m' hR => ht m m' found.path.text hR
    apply title.bind
    intro _
    exact (hv name found hfound).bind fun _ => hf
  intro m m' hR
  -- The modules are shown on new backends, and the old ones are put back after it, also if it fails.
  obtain ⟨ho, hs⟩ := shown _ _ (hb m m' (.display ⟨none, []⟩) hR)
  exact ⟨ho, hr m m' _ _ hR hs⟩

end TransitionM

open TransitionM

namespace Coupled

variable {R : Machine → Machine → Prop} (h : Coupled R) (s : Site)
include h

theorem run (mode : Mode) (names : List String) : Relates R (s.run mode names) :=
  relates_of_tracks (h.lockstep.run s mode names)

theorem siteVisit (depth levels : Nat) (mode : Mode) (found : Resolved) :
    Relates R (s.visit depth (s.runWithin levels) mode found) :=
  relates_of_tracks (h.lockstep.siteVisit s (h.lockstep.runWithin s levels) mode found)

/-- Two runs of an operation stay related up to the flush. -/
theorem staging (op : Operation) : Relates R (op.staging s) :=
  relates_of_tracks (h.lockstep.staging s op)

/-- Whoever relates displays, and lets both machines go on with a display and go back afterwards, relates
whole operations. -/
theorem transition (hf : Relates R flush)
    (ht : ∀ m m' text, R m m' →
      R { m with backend := m.backend.setTitle text } { m' with backend := m'.backend.setTitle text })
    (hb : ∀ m m' b, R m m' → R { m with backend := b } { m' with backend := b })
    (hr : ∀ m m' n n', R m m' → R n n' →
      R { n with backend := m.backend } { n' with backend := m'.backend }) (op : Operation) :
    Relates R (op.transition s) := by
  by_cases hop : ∃ names, op = .display names
  · obtain ⟨names, rfl⟩ := hop
    exact relates_display (fun _ found _ => h.siteVisit s 0 _ .display found) hf ht hb hr names
  · rw [op.transition_eq s fun names he => hop ⟨names, he⟩]
    exact (h.staging s op).bind fun _ => hf

end Coupled

/-- Streams that take all that is written. -/
structure Streams.Open (t : Streams) : Prop where
  commands : t.commands.room = none
  diagnostics : t.diagnostics.room = none

theorem Streams.open_unlimited (emphasis : Bool) : Open ⟨.unlimited, .unlimited, emphasis⟩ := ⟨rfl, rfl⟩

/-- Two machines that differ at most in how they hand changes on, and whose streams take everything. -/
structure Machine.Parallel (m m' : Machine) : Prop where
  env : m.env = m'.env
  visits : m.visits = m'.visits
  isDisplay : m.backend.isDisplay = m'.backend.isDisplay
  streams : m.streams.Open
  streams' : m'.streams.Open

namespace Machine

theorem env_setVariable (m : Machine) (forward : Bool) (value name : String) :
    (m.setVariable forward value name).env =
      if m.backend.isDisplay then m.env else (m.env.changeVariable forward value name).1 := by
  cases hd : m.backend.isDisplay with
  | true => rw [setVariable_of_isDisplay _ _ _ _ hd, report, if_pos rfl]
  | false => rw [setVariable_of_not_isDisplay _ _ _ _ hd, if_neg Bool.false_ne_true]

theorem env_setPath (m : Machine) (forward : Bool) (value name : String) :
    (m.setPath forward value name).env =
      if m.backend.isDisplay then m.env else (m.env.changePath forward value name).1 := by
  cases hd : m.backend.isDisplay with
  | true => rw [setPath_of_isDisplay _ _ _ _ hd, report, if_pos rfl]
  | false => rw [setPath_of_not_isDisplay _ _ _ _ hd, if_neg Bool.false_ne_true]

theorem coupled_parallel : Coupled Parallel where
  env h := h.env
  isDisplay h := h.isDisplay
  setVariable forward value name h :=
    ⟨by rw [env_setVariable, env_setVariable, h.env, h.isDisplay], h.visits, by simpa using h.isDisplay,
      h.streams, h.streams'⟩
  setPath forward value name h :=
    ⟨by rw [env_setPath, env_setPath, h.env, h.isDisplay], h.visits, by simpa using h.isDisplay,
      h.streams, h.streams'⟩
  report effect name value h :=
    ⟨h.env, h.visits, by simpa [report] using h.isDisplay, h.streams, h.streams'⟩
  visit visit h := ⟨h.env, congrArg (· ++ [visit]) h.visits, h.isDisplay, h.streams, h.streams'⟩

end Machine

namespace TransitionM

/-- A flush to open streams succeeds, and brings about the unsets that were put off. -/
theorem flush_of_open {m : Machine} (h : m.streams.Open) :
    (flush m).1 = .ok () ∧ (flush m).2.env = m.env.applyUnsets ∧ (flush m).2.streams.Open := by
  obtain ⟨env, backend, streams, visits⟩ := m
  obtain ⟨hc, hd⟩ := h
  cases backend with
  | commands dialect batch =>
    simp only [flush, Backend.flush, Stream.write_of_room_eq_none hc, if_true, true_and]
    exact ⟨rfl, hd⟩
  | silent => exact ⟨rfl, rfl, hc, hd⟩
  | display report =>
    simp only [flush, Backend.flush, Stream.write_of_room_eq_none hd, if_true,
      Stream.write_of_room_eq_none, true_and]
    exact ⟨hc, rfl⟩

theorem relates_flush : Relates Machine.Parallel flush := by
  intro m m' h
  obtain ⟨ho, he, hs⟩ := flush_of_open h.streams
  obtain ⟨ho', he', hs'⟩ := flush_of_open h.streams'
  refine ⟨ho.trans ho'.symm, ?_, h.visits, ?_, hs, hs'⟩
  · rw [he, he', h.env]
  · rw [isDisplay_flush, isDisplay_flush, h.isDisplay]

theorem relates_transition (s : Site) (op : Operation) :
    Relates Machine.Parallel (op.transition s) := by
  apply Machine.coupled_parallel.transition s relates_flush
  · intro m m' text h
    exact ⟨h.env, h.visits, by simpa using h.isDisplay, h.streams, h.streams'⟩
  · intro m m' b h
    exact ⟨h.env, h.visits, rfl, h.streams, h.streams'⟩
  · intro m m' n n' h hn
    exact ⟨hn.env, hn.visits, h.isDisplay, hn.streams, hn.streams'⟩

end TransitionM

/-- What can be asked of a machine: that it takes modules through a mode without writing anything, that it
performs an operation, or that it writes what is staged. -/
inductive Action where
  | run (mode : Mode) (names : List String)
  | perform (operation : Operation)
  | flush
  deriving DecidableEq, Repr

namespace Action

def transition (s : Site) : Action → TransitionM Unit
  | .run mode names => s.run mode names
  | .perform op => op.transition s
  | .flush => TransitionM.flush

theorem relates_transition (s : Site) (a : Action) : Relates Machine.Parallel (a.transition s) := by
  cases a with
  | run mode names => exact Machine.coupled_parallel.run s mode names
  | perform op => exact TransitionM.relates_transition s op
  | flush => exact relates_flush

end Action

namespace Site

/-- What has come of actions on one machine, whether they failed or not: of each its outcome, and the
environment after it. Every action finds files of its own. -/
def history (s : Site) : List (FileTree × Action) → Machine → List (Except Fault Unit × Environment)
  | [], _ => []
  | (tree, a) :: rest, m =>
    let done := a.transition { s with tree } m
    (done.1, done.2.env) :: history s rest done.2

/-- Parallel machines have one history. -/
theorem history_of_parallel (s : Site) (actions : List (FileTree × Action)) {m m' : Machine}
    (h : m.Parallel m') : s.history actions m = s.history actions m' := by
  -- An action that fails leaves parallel machines behind as well, so that the next one starts on a pair again.
  induction actions generalizing m m' with
  | nil => rfl
  | cons action rest ih =>
    obtain ⟨tree, a⟩ := action
    obtain ⟨ho, hr⟩ := a.relates_transition { s with tree } m m' h
    rw [history, history, ho, hr.env, ih hr]

end Site

namespace Session

variable (s : Session) (tree : FileTree) (op : Operation)

/-- With open streams a session cannot tell two backends apart of which neither or both display. -/
theorem perform_of_isDisplay_eq {b b' : Backend} (hb : b.isDisplay = b'.isDisplay) {t t' : Streams}
    (ht : t.Open) (ht' : t'.Open) :
    (s.perform tree op b t).outcome = (s.perform tree op b' t').outcome ∧
      (s.perform tree op b t).session = (s.perform tree op b' t').session ∧
      (s.perform tree op b t).visits = (s.perform tree op b' t').visits := by
  have hp : (s.machine b t).Parallel (s.machine b' t') := ⟨rfl, rfl, hb, ht, ht'⟩
  obtain ⟨ho, hr⟩ := TransitionM.relates_transition (s.site tree) op _ _ hp
  obtain ⟨hd, hs⟩ := s.perform_eq tree op b t
  obtain ⟨hd', hs'⟩ := s.perform_eq tree op b' t'
  refine ⟨?_, ?_, hr.visits⟩
  · rw [hd, hd', ho]
  · rw [hs, hs', ho, hr.env]

end Session

/-- To change the environment alone, or to write commands as well, comes to the same: every action has the
same outcome and leaves the same environment behind, the variables that await their unset included. Sessions
that work silently are no exception. -/
theorem Site.history_silent (s : Site) (actions : List (FileTree × Action)) (env : Environment)
    (dialect : Dialect) (batch : Bindings Change) {t t' : Streams} (ht : t.Open) (ht' : t'.Open) :
    s.history actions ⟨env, .silent, t, []⟩ =
        s.history actions ⟨env, .commands dialect batch, t', []⟩ ∧
      ∀ (session : Session) (tree : FileTree) (op : Operation),
        let done := session.perform tree op (.commands dialect batch) t'
        session.performSilently tree op = (done.outcome, done.session) := by
  constructor
  · exact s.history_of_parallel actions ⟨rfl, rfl, rfl, ht, ht'⟩
  · intro session tree op done
    have hd : Backend.silent.isDisplay = (Backend.commands dialect batch).isDisplay := rfl
    obtain ⟨ho, hs, -⟩ :=
      session.perform_of_isDisplay_eq tree op hd (Streams.open_unlimited false) ht'
    exact Prod.ext ho hs

/-- A load fails half way and what it has changed stays, a module is unloaded, one that brings in another is
swapped in and then refused, and at last all that is staged is written. -/
theorem Site.history_silent_of_fault :
    let tree := FileTree.ofDescriptors [("a", ["setVar 1 A", "setPath /a P"]),
      ("b", ["load a", "setVar $A B"]), ("c", ["setPath /c P", "conflict b"])]
    let s : Site := ⟨tree, ⟨[⟨"/mods"⟩]⟩, .default⟩
    let actions : List (FileTree × Action) := [(tree, .run .load ["a", "none"]),
      (tree, .run .unload ["a"]), (tree, .perform (.swap "c" "b")), (tree, .perform (.display ["c"])),
      (tree, .perform (.load ["c"])), (tree, .flush)]
    let env : Environment := .ofVars (.ofList [("P", "/usr")])
    s.history actions ⟨env, .silent, .unlimited, []⟩ =
        s.history actions ⟨env, .commands .csh .empty, .unlimited, []⟩ ∧
      ∀ (session : Session) (tree : FileTree) (op : Operation),
        let done := session.perform tree op (.commands .csh .empty) .unlimited
        session.performSilently tree op = (done.outcome, done.session) := by
  intro tree s actions env
  have ht : Streams.unlimited.Open := Streams.open_unlimited false
  exact s.history_silent actions env .csh .empty ht ht

end EnvModules
