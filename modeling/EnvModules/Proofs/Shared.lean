import EnvModules.Proofs.Commands

/-!
Operations that share one backend. One that fails takes its changes of the environment back, but not what it
has staged, so that the next flush writes it as well.
-/

namespace EnvModules

open TransitionM

namespace Bindings

variable {α : Type}

/-- The bindings of both maps. Of a name that both bind the second one counts. -/
def overlay (lower upper : Bindings α) : Bindings α :=
  upper.entries.foldr (fun e m => m.insert e.1 e.2) lower

@[simp] theorem get?_overlay (lower upper : Bindings α) (k : String) :
    (lower.overlay upper).get? k = (upper.get? k).or (lower.get? k) := by
  show (upper.entries.foldr _ lower).get? k = (upper.entries.lookup k).or _
  -- The first entry is inserted last, and it is the first one that a look-up comes to.
  induction upper.entries with
  | nil => rfl
  | cons e rest ih =>
    rw [List.foldr_cons, get?_insert, lookup_cons_eq_ite, ih]
    split <;> rfl

theorem overlay_insert (lower upper : Bindings α) (name : String) (value : α) :
    lower.overlay (upper.insert name value) = (lower.overlay upper).insert name value := by
  apply ext_get?
  intro k
  simp only [get?_overlay, get?_insert]
  split <;> rfl

/-- Nothing shows of bindings that are all replaced. -/
theorem overlay_eq_right {lower upper : Bindings α} (h : ∀ k, upper.get? k = none → lower.get? k = none) :
    lower.overlay upper = upper := by
  apply ext_get?
  intro k
  rw [get?_overlay]
  cases hk : upper.get? k with
  | none => rw [h k hk, Option.or_none]
  | some value => rfl

end Bindings

namespace Machine

/-- Two parallel machines that stage commands. The first has staged some more at the start, and in front of
these both have staged the same since. -/
structure Upon (dialect : Dialect) (left : Bindings Change) (m m' : Machine) : Prop
    extends Parallel m m' where
  staged : ∃ own, m.backend = .commands dialect (left.overlay own) ∧ m'.backend = .commands dialect own

variable {dialect : Dialect} {left : Bindings Change}

theorem Upon.of_stage {m m' n n' : Machine} (h : Upon dialect left m m') (hp : n.Parallel n')
    (name : String) {change : Change} (hn : n.backend = m.backend.stage name change)
    (hn' : n'.backend = m'.backend.stage name change) : Upon dialect left n n' := by
  obtain ⟨own, hb, hb'⟩ := h.staged
  refine ⟨hp, own.insert name change, ?_, ?_⟩
  · rw [hn, hb, Bindings.overlay_insert]
    rfl
  · rw [hn', hb']
    rfl

theorem Upon.live {m m' : Machine} (h : Upon dialect left m m') :
    m.backend.isDisplay = false ∧ m'.backend.isDisplay = false := by
  obtain ⟨own, hb, hb'⟩ := h.staged
  rw [hb, hb']
  exact ⟨rfl, rfl⟩

-- The change that is staged depends on the environment alone, and so it is the same on both machines.
theorem coupled_upon : Coupled (Upon dialect left) where
  env h := h.env
  isDisplay h := h.isDisplay
  setVariable forward value name h := by
    obtain ⟨hd, hd'⟩ := h.live
    apply h.of_stage (coupled_parallel.setVariable forward value name h.toParallel) name
    · rw [setVariable_of_not_isDisplay _ _ _ _ hd]
    · rw [setVariable_of_not_isDisplay _ _ _ _ hd', h.env]
  setPath forward value name h := by
    obtain ⟨hd, hd'⟩ := h.live
    apply h.of_stage (coupled_parallel.setPath forward value name h.toParallel) name
    · rw [setPath_of_not_isDisplay _ _ _ _ hd]
    · rw [setPath_of_not_isDisplay _ _ _ _ hd', h.env]
  report effect name value h := by
    obtain ⟨own, hb, hb'⟩ := h.staged
    refine ⟨coupled_parallel.report effect name value h.toParallel, own, ?_, ?_⟩
    · rw [report, hb]
      rfl
    · rw [report, hb']
      rfl
  visit visit h := ⟨coupled_parallel.visit visit h.toParallel, h.staged⟩

end Machine

namespace Session

/-- The changes that an operation stages, whether it comes to its flush or not. -/
def staged (s : Session) (t : Streams) (turn : Turn) : Bindings Change :=
  (turn.operation.staging (s.site turn.tree)
    (s.machine (.commands turn.dialect .empty) t)).2.backend.staged

end Session

/-- A session with the backend and the streams that its operations share. -/
structure Desk where
  session : Session
  backend : Backend
  streams : Streams

/-- What an operation leaves for the next one. -/
def Performed.desk (p : Performed) : Desk := ⟨p.session, p.backend, p.streams⟩

namespace Desk

def machine (d : Desk) : Machine := d.session.machine d.backend d.streams

def perform (d : Desk) (tree : FileTree) (op : Operation) : Performed :=
  d.session.perform tree op d.backend d.streams

/-- Whether an operation has written a text as commands, and all of it. -/
def Wrote (d : Desk) (p : Performed) (text : String) : Prop :=
  p.streams.commands = ⟨d.streams.commands.written ++ text.toUTF8, none⟩

/-- Performs operations one after the other, whether they fail or not. Each finds files of its own. -/
def performAll (d : Desk) : List (FileTree × Operation) → Desk
  | [] => d
  | (tree, op) :: rest => (d.perform tree op).desk.performAll rest

/-- The operations that succeed when all are performed. -/
def succeeding (d : Desk) : List (FileTree × Operation) → List (FileTree × Operation)
  | [] => []
  | (tree, op) :: rest =>
    let done := d.perform tree op
    match done.outcome with
    | .ok () => (tree, op) :: succeeding done.desk rest
    | .error _ => succeeding done.desk rest

section Wrote

variable {d : Desk} {tree : FileTree} {op : Operation} (ht : d.streams.Open)
include ht

theorem wrote_empty {p : Performed} (h : p.streams.commands = d.streams.commands) : d.Wrote p "" := by
  unfold Wrote
  rw [h, ← ht.commands]
  simp

theorem wrote_of_ne_ok (h : (d.perform tree op).outcome ≠ .ok ()) : d.Wrote (d.perform tree op) "" :=
  wrote_empty ht (Session.commands_perform_of_ne_ok ht.commands h)

theorem wrote_of_display {names : List String} : d.Wrote (d.perform tree (.display names)) "" :=
  wrote_empty ht (Session.commands_perform_display names)

end Wrote

/-- Two desks for one session. On the first some changes are staged, on the second there are none. -/
structure Over (dialect : Dialect) (left : Bindings Change) (d d' : Desk) : Prop where
  session : d.session = d'.session
  backend : d.backend = .commands dialect left
  backend' : d'.backend = .commands dialect .empty
  streams : d.streams.Open
  streams' : d'.streams.Open

namespace Over

variable {dialect : Dialect} {left : Bindings Change} {d d' : Desk} (h : Over dialect left d d')
variable (tree : FileTree) (op : Operation)
include h

theorem upon : Machine.Upon dialect left d.machine d'.machine := by
  have parallel : d.machine.Parallel d'.machine := by
    refine ⟨congrArg Session.env h.session, rfl, ?_, h.streams, h.streams'⟩
    show d.backend.isDisplay = d'.backend.isDisplay
    rw [h.backend, h.backend']
    rfl
  exact ⟨parallel, .empty, h.backend, h.backend'⟩

/-- Up to the flush both have staged the same, the first one in front of what was there before. -/
theorem staging :
    let own := d'.session.staged d'.streams ⟨tree, op, dialect⟩
    ∃ outcome m m', op.staging (d.session.site tree) d.machine = (outcome, m) ∧
      op.staging (d'.session.site tree) d'.machine = (outcome, m') ∧
      m.backend = .commands dialect (left.overlay own) ∧ m'.backend = .commands dialect own := by
  intro own
  obtain ⟨ho, hu⟩ := Machine.coupled_upon.staging (d'.session.site tree) op _ _ h.upon
  have hown : (op.staging (d'.session.site tree) d'.machine).2.backend.staged = own := by
    show _ = (op.staging (d'.session.site tree)
      (d'.session.machine (.commands dialect .empty) d'.streams)).2.backend.staged
    rw [← h.backend']
    rfl
  obtain ⟨staged, hb, hb'⟩ := hu.staged
  obtain rfl : staged = own := by
    rw [← hown, hb']
    rfl
  refine ⟨_, _, _, ?_, rfl, hb, hb'⟩
  rw [h.session]
  exact Prod.ext ho rfl

theorem perform_eq :
    (d.perform tree op).outcome = (d'.perform tree op).outcome ∧
      (d.perform tree op).session = (d'.perform tree op).session ∧
      (d.perform tree op).visits = (d'.perform tree op).visits := by
  have hd : d.backend.isDisplay = d'.backend.isDisplay := h.upon.isDisplay
  unfold perform
  rw [h.session]
  exact d'.session.perform_of_isDisplay_eq tree op hd h.streams h.streams'

theorem open_perform : (d.perform tree op).streams.Open ∧ (d'.perform tree op).streams.Open := by
  obtain ⟨-, hr⟩ := TransitionM.relates_transition (d'.session.site tree) op _ _ h.upon.toParallel
  refine ⟨?_, hr.streams'⟩
  have hsite : d.session.site tree = d'.session.site tree := by rw [h.session]
  rw [← hsite] at hr
  exact hr.streams

/-- On the second desk an operation writes its own changes, or nothing. -/
theorem wrote_perform :
    d'.Wrote (d'.perform tree op)
      (dialect.script (d'.session.emitted d'.streams ⟨tree, op, dialect⟩)) := by
  have alone : d'.perform tree op = d'.session.play d'.streams ⟨tree, op, dialect⟩ := by
    rw [perform, h.backend']
    rfl
  rw [alone]
  exact Session.commands_play ⟨tree, op, dialect⟩ h.streams'.commands

/-- If it succeeds, it writes on the first one what was staged before as well. -/
theorem perform_ok (hop : ∀ names, op ≠ .display names) (hok : (d'.perform tree op).outcome = .ok ()) :
    (d.perform tree op).backend = .commands dialect .empty ∧
      (d'.perform tree op).backend = .commands dialect .empty ∧
      d.Wrote (d.perform tree op)
        (dialect.script (left.overlay (d'.session.emitted d'.streams ⟨tree, op, dialect⟩))) := by
  obtain ⟨outcome, m, m', hm, hm', hb, hb'⟩ := h.staging tree op
  cases outcome with
  | error fault =>
    have he := Operation.transition_of_staging_error hop hm'
    have hf : (d'.perform tree op).outcome = .error fault := congrArg Prod.fst he
    rw [hf] at hok
    exact nomatch hok
  | ok u =>
    have hown : d'.session.emitted d'.streams ⟨tree, op, dialect⟩ =
        d'.session.staged d'.streams ⟨tree, op, dialect⟩ := by
      have hs : op.staging (d'.session.site tree)
          (d'.session.machine (.commands dialect .empty) d'.streams) = (.ok (), m') := by
        rw [← h.backend']
        exact hm'
      simp only [Session.emitted, Session.staged, hs]
    obtain ⟨-, hbk, hc⟩ := Operation.transition_of_staging_ok hop h.streams.commands hb hm
    obtain ⟨-, hbk', -⟩ := Operation.transition_of_staging_ok hop h.streams'.commands hb' hm'
    rw [hown]
    exact ⟨hbk, hbk', hc⟩

/-- What an operation that fails has staged is added to what was staged before. -/
theorem backend_perform_of_ne_ok (hop : ∀ names, op ≠ .display names)
    (hne : (d'.perform tree op).outcome ≠ .ok ()) :
    (d.perform tree op).backend =
      .commands dialect (left.overlay (d'.session.staged d'.streams ⟨tree, op, dialect⟩)) := by
  obtain ⟨outcome, m, m', hm, hm', hb, hb'⟩ := h.staging tree op
  cases outcome with
  | error fault =>
    have he := Operation.transition_of_staging_error hop hm
    exact (congrArg (fun r => r.2.backend) he).trans hb
  | ok u =>
    obtain ⟨ho, -, -⟩ := Operation.transition_of_staging_ok hop h.streams'.commands hb' hm'
    exact absurd ho hne

/-- Whatever succeeds on the first desk succeeds on the second, and what fails need not be tried there. -/
theorem performAll (orders : List (FileTree × Operation)) :
    ∃ left', Over dialect left' (d.performAll orders) (d'.performAll (d.succeeding orders)) := by
  -- A failure may add to what is left over, and a success writes all of it, so it varies along the induction.
  induction orders generalizing left d d' with
  | nil => exact ⟨left, h⟩
  | cons order rest ih =>
    obtain ⟨tree, op⟩ := order
    obtain ⟨ho, hs, -⟩ := h.perform_eq tree op
    obtain ⟨ht, ht'⟩ := h.open_perform tree op
    rw [Desk.performAll, succeeding]
    rcases hd : (d.perform tree op).outcome with fault | u
    · -- The failure has left the session alone. It may have staged something on the first desk.
      have hne : (d'.perform tree op).outcome ≠ .ok () := by
        rw [← ho, hd]
        exact nofun
      have hsession : (d'.perform tree op).session = d'.session := Session.session_of_ne_ok op hne
      by_cases hop : ∃ names, op = .display names
      · obtain ⟨names, rfl⟩ := hop
        exact ih ⟨hs.trans hsession, h.backend, h.backend', ht, h.streams'⟩
      · have hb := h.backend_perform_of_ne_ok tree op (fun names he => hop ⟨names, he⟩) hne
        exact ih ⟨hs.trans hsession, hb, h.backend', ht, h.streams'⟩
    · have hok : (d'.perform tree op).outcome = .ok () := ho.symm.trans hd
      show ∃ left', Over dialect left' _ ((d'.perform tree op).desk.performAll _)
      by_cases hop : ∃ names, op = .display names
      · obtain ⟨names, rfl⟩ := hop
        exact ih ⟨hs, h.backend, h.backend', ht, ht'⟩
      · obtain ⟨hb, hb', -⟩ := h.perform_ok tree op (fun names he => hop ⟨names, he⟩) hok
        exact ih ⟨hs, hb, hb', ht, ht'⟩

end Over

/-- Operations that fail do not count for the session: it ends as if they had never been tried, and so does
whatever is performed next, apart from the commands that it writes. To these the changes are added that
failed operations have staged since the last flush. Only changes of variables that are changed once more do
not show. -/
theorem performAll_succeeding (s : Session) (dialect : Dialect) (t : Streams) (ht : t.Open)
    (orders : List (FileTree × Operation)) :
    let desk : Desk := ⟨s, .commands dialect .empty, t⟩
    let now := desk.performAll orders
    let clean := desk.performAll (desk.succeeding orders)
    now.session = clean.session ∧ clean.backend = .commands dialect .empty ∧
      ∀ tree op,
        let p := now.perform tree op
        let q := clean.perform tree op
        let left := now.backend.staged
        let own := clean.session.emitted clean.streams ⟨tree, op, dialect⟩
        p.outcome = q.outcome ∧ p.session = q.session ∧ p.visits = q.visits ∧
          (q.outcome = .ok () → (∀ names, op ≠ .display names) →
            Wrote clean q (dialect.script own) ∧ Wrote now p (dialect.script (left.overlay own)) ∧
              ((∀ k, own.get? k = none → left.get? k = none) → Wrote now p (dialect.script own))) ∧
          (q.outcome ≠ .ok () ∨ (∃ names, op = .display names) → Wrote clean q "" ∧ Wrote now p "") := by
  intro desk now clean
  have start : Over dialect .empty desk desk := ⟨rfl, rfl, rfl, ht, ht⟩
  obtain ⟨left, h⟩ : ∃ left, Over dialect left now clean := start.performAll orders
  refine ⟨h.session, h.backend', ?_⟩
  intro tree op p q staged own
  obtain rfl : left = staged := by
    simp only [staged, h.backend, Backend.staged]
  obtain ⟨ho, hs, hv⟩ := h.perform_eq tree op
  refine ⟨ho, hs, hv, ?_, ?_⟩
  · intro hok hop
    obtain ⟨-, -, hc⟩ := h.perform_ok tree op hop hok
    refine ⟨h.wrote_perform tree op, hc, ?_⟩
    intro hleft
    rwa [Bindings.overlay_eq_right hleft] at hc
  · rintro (hne | ⟨names, rfl⟩)
    · have hne' : p.outcome ≠ .ok () := fun hok => hne (ho.symm.trans hok)
      exact ⟨wrote_of_ne_ok h.streams' hne, wrote_of_ne_ok h.streams hne'⟩
    · exact ⟨wrote_of_display h.streams', wrote_of_display h.streams⟩

/-- Two loads succeed. One fails on its second name, and a swap and another load fail in a module that they
bring in. -/
theorem performAll_succeeding_of_nested_failure :
    let tree := FileTree.ofDescriptors [("a", ["setVar 1 A", "setPath /a P"]), ("b", ["setVar 2 B"]),
      ("c", ["setPath /c P", "load d"]), ("d", ["setVar $A D", "conflict a"])]
    let desk : Desk := ⟨.ofVars [("P", "/usr")], .commands .csh .empty, .unlimited⟩
    let orders := [(tree, .load ["a"]), (tree, .load ["b", "none"]), (tree, .display ["c"]),
      (tree, .swap "b" "c"), (tree, .load ["b"]), (tree, .load ["c"])]
    let now := desk.performAll orders
    let clean := desk.performAll (desk.succeeding orders)
    now.session = clean.session ∧ clean.backend = .commands .csh .empty ∧
      ∀ tree op,
        let p := now.perform tree op
        let q := clean.perform tree op
        let left := now.backend.staged
        let own := clean.session.emitted clean.streams ⟨tree, op, .csh⟩
        p.outcome = q.outcome ∧ p.session = q.session ∧ p.visits = q.visits ∧
          (q.outcome = .ok () → (∀ names, op ≠ .display names) →
            Wrote clean q (Dialect.csh.script own) ∧
              Wrote now p (Dialect.csh.script (left.overlay own)) ∧
              ((∀ k, own.get? k = none → left.get? k = none) → Wrote now p (Dialect.csh.script own))) ∧
          (q.outcome ≠ .ok () ∨ (∃ names, op = .display names) → Wrote clean q "" ∧ Wrote now p "") := by
  intro tree desk orders
  exact performAll_succeeding (.ofVars [("P", "/usr")]) .csh .unlimited (Streams.open_unlimited false)
    orders

/-- What a load that failed has staged is written by the next one, although the variable is not set. -/
theorem written_performAll_ne_succeeding :
    let tree := FileTree.ofDescriptors [("a", ["setVar 1 A"]), ("b", ["setVar 2 B", "prereq none"])]
    let desk : Desk := ⟨.ofVars [], .commands .posix .empty, .unlimited⟩
    let orders := [(tree, .load ["b"]), (tree, .load ["a"])]
    let now := desk.performAll orders
    let clean := desk.performAll (desk.succeeding orders)
    (desk.succeeding orders).map Prod.snd = [.load ["a"]] ∧ now.session.env.get? "B" = none ∧
      now.streams.commands.written =
        "export A='1';\nexport B='2';\nexport LOADEDENVMASTER='a';\n".toUTF8 ∧
      now.streams.commands.written ≠ clean.streams.commands.written := by
  decide +kernel

end Desk

end EnvModules
