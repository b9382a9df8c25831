import EnvModules.Proofs.Layers
import EnvModules.Proofs.Perform
import EnvModules.Proofs.Reading
import EnvModules.Proofs.Resolution

/-!
Loading a module and unloading it again. The statements of a module are taken back in the order in which
they were made, while what they refer to is being unset. It stays readable, so that every text stands for
the same on the way back.
-/

namespace EnvModules

/-- The intent of a statement that sets a variable or changes a list, for the module of this name. -/
def Name.intent? (n : Name) : Statement → Option Intent
  | .setVariable value name => some (.assign value name)
  | .setPackageVariable value ending => some (.assign value (n.varName ending))
  | .prependPath value name => some (.prepend value name)
  | _ => none

theorem Subject.runStatement_of_intent? (s : Subject) {st : Statement} {i : Intent}
    (h : s.name.intent? st = some i) (e : Evaluation) :
    s.runStatement st e = (.ok (), ⟨Intent.performAll s.mode.isForward e.machine [i], e.policy⟩) := by
  cases st with
  | setVariable value name =>
    obtain rfl := Option.some.inj h
    have hp : s.IsPlain (.setVariable value name) := trivial
    rw [s.runStatement_of_isPlain hp]
    rfl
  | setPackageVariable value ending =>
    obtain rfl := Option.some.inj h
    have hp : s.IsPlain (.setPackageVariable value ending) := trivial
    rw [s.runStatement_of_isPlain hp]
    rfl
  | prependPath value name =>
    obtain rfl := Option.some.inj h
    have hp : s.IsPlain (.prependPath value name) := trivial
    rw [s.runStatement_of_isPlain hp]
    rfl
  | _ => exact nomatch h

theorem Subject.runBlock_of_intents (s : Subject) {statements : List Statement} {intents : List Intent}
    (h : statements.map s.name.intent? = intents.map some) (e : Evaluation) :
    s.runBlock statements e =
      (.ok (), ⟨Intent.performAll s.mode.isForward e.machine intents, e.policy⟩) := by
  induction statements generalizing intents e with
  | nil =>
    obtain rfl : intents = [] := by simpa using h.symm
    exact s.runBlock_nil_apply e
  | cons st rest ih =>
    cases intents with
    | nil => exact nomatch h
    | cons i intents =>
      obtain ⟨hi, hr⟩ := List.cons.inj h
      rw [s.runBlock_cons_apply, s.runStatement_of_intent? hi, proceed_ok, ih hr]
      rfl

namespace Intent

/-- The variables that a text of an intent refers to. -/
def references (i : Intent) : List String := (i.texts true).flatMap EnvModules.references

theorem get?_changeAll {k : String} (forward : Bool) {intents : List Intent} {env : Environment}
    (h : ∀ i ∈ intents, i.target? ≠ some k) : (changeAll forward env intents).get? k = env.get? k := by
  induction intents generalizing env with
  | nil => rfl
  | cons i rest ih =>
    obtain ⟨hi, hr⟩ := List.forall_mem_cons.1 h
    exact (ih hr).trans (change_of_target_ne hi forward env).1

/-- What does not depend on the texts of an intent is still there when they are replaced. -/
theorem exists_of_mem_settle {α : Type} {f : Intent → α}
    (hf : ∀ (env : Environment) (i : Intent), f (i.expanded env) = f i) {forward : Bool}
    {env : Environment} {intents : List Intent} {i : Intent} (hi : i ∈ settle forward env intents) :
    ∃ j ∈ intents, f j = f i := by
  induction intents generalizing env with
  | nil => exact nomatch hi
  | cons j rest ih =>
    rcases List.mem_cons.1 hi with rfl | hi
    · exact ⟨j, List.mem_cons_self, (hf env j).symm⟩
    · obtain ⟨k, hk, he⟩ := ih hi
      exact ⟨k, List.mem_cons_of_mem _ hk, he⟩

theorem settle_append (forward : Bool) (env : Environment) (l r : List Intent) :
    settle forward env (l ++ r) =
      settle forward env l ++ settle forward (changeAll forward env (settle forward env l)) r := by
  induction l generalizing env with
  | nil => rfl
  | cons i rest ih =>
    rw [List.cons_append, settle, settle, ih]
    rfl

theorem changeAll_append (forward : Bool) (env : Environment) (l r : List Intent) :
    changeAll forward env (l ++ r) = changeAll forward (changeAll forward env l) r :=
  List.foldl_append

theorem expanded_congr {env env' : Environment} {i : Intent}
    (h : ∀ n ∈ i.references, env.get? n = env'.get? n) : i.expanded env = i.expanded env' := by
  cases i with
  | assign text name =>
    rw [expanded, expand_congr fun n hn => h n (by simpa [references, texts] using hn), expanded]
  | prepend text name =>
    rw [expanded, expand_congr fun n hn => h n (by simpa [references, texts] using hn), expanded]
  | report effect name value => rfl

/-- If each text stands for the same in its turn as it does in one environment, that one can be taken for
all. -/
theorem settle_eq_map (forward : Bool) {env fixed : Environment} {intents : List Intent}
    (h : ∀ pre i post, intents = pre ++ i :: post → ∀ n ∈ i.references,
      (changeAll forward env (settle forward env pre)).get? n = fixed.get? n) :
    settle forward env intents = intents.map (expanded fixed) := by
  -- The hypothesis goes on to the rest with the first intent put in front of each prefix.
  induction intents generalizing env with
  | nil => rfl
  | cons i rest ih =>
    have hi : i.expanded env = i.expanded fixed := expanded_congr (h [] i rest rfl)
    rw [settle, List.map_cons, hi, ih]
    intro pre j post hj n hn
    rw [← hi]
    exact h (i :: pre) j post (by rw [hj]; rfl) n hn

/-- Environments that differ in one variable alone give the same, if no text refers to it. -/
theorem settle_congr {k : String} {env env' : Environment} {intents : List Intent}
    (ho : ∀ n, n ≠ k → env.get? n = env'.get? n) (hr : ∀ i ∈ intents, k ∉ i.references) :
    settle true env intents = settle true env' intents := by
  induction intents generalizing env env' with
  | nil => rfl
  | cons i rest ih =>
    obtain ⟨hi, hr⟩ := List.forall_mem_cons.1 hr
    have he : i.expanded env = i.expanded env' :=
      expanded_congr fun n hn => ho n fun hk => hi (hk ▸ hn)
    rw [settle, settle, ← he, ih (fun n hn => ?_) hr]
    -- The same change of both leaves `k` as their only difference.
    cases i.expanded env with
    | assign value name => simp [change, ho n hn]
    | prepend value name =>
      rw [change, change, Environment.get?_changePath, Environment.get?_changePath]
      split
      · next hname =>
        subst hname
        have hg : env.getNonEmpty? n = env'.getNonEmpty? n := by
          rw [Environment.getNonEmpty?, ho n hn, Environment.getNonEmpty?]
        rw [Environment.merged_congr true value hg]
      · exact ho n hn
    | report effect name value => exact ho n hn

/-- Backwards a variable keeps its value, unless it is a list. -/
theorem get?_changeAll_backwards {k : String} {intents : List Intent} {env : Environment}
    (h : ∀ i ∈ intents, i.list? ≠ some k) : (changeAll false env intents).get? k = env.get? k := by
  induction intents generalizing env with
  | nil => rfl
  | cons i rest ih =>
    obtain ⟨hi, hr⟩ := List.forall_mem_cons.1 h
    refine (ih hr).trans ?_
    cases i with
    | assign value name => simp [change]
    | prepend value name =>
      have hk : k ≠ name := fun he => hi (congrArg some he.symm)
      rw [change, Environment.get?_changePath, if_neg hk]
    | report effect name value => rfl

end Intent

/-- Intents of one module that can be undone on top of an environment. They set no variable twice, use none
both as a value and as a list, and refer to no variable of theirs but one that was set before. -/
structure Intent.Undoable (env : Environment) (intents : List Intent) : Prop where
  nodup : (assigned intents).Nodup
  disjoint : ∀ n ∈ listed intents, n ∉ assigned intents
  not_assigned_loaded : loadedVariable ∉ assigned intents
  not_listed_loaded : loadedVariable ∉ listed intents
  reads : ∀ k : Fin intents.length, ∀ n ∈ intents[k].references, n ≠ loadedVariable ∧
    (n ∈ assigned intents ∨ n ∈ listed intents → n ∈ assigned (intents.take k))
  pending : env.pending = []
  values : ∀ n ∈ assigned intents, env.get? n = none
  lists : ∀ n ∈ listed intents, env.get? n ≠ some ""
  loaded : env.get? loadedVariable ≠ some ""
  segments : ∀ n ∈ listed intents, ∀ value ∈ segmentsFor n (settle true env intents), IsSegment value

namespace Intent.Undoable

variable {env : Environment} {intents : List Intent} (h : Undoable env intents)
include h

/-- The roles that the intents give to variables. -/
def roles : Roles where
  lists n := n ∈ listed intents
  values n := n ∈ assigned intents
  disjoint := h.disjoint
  not_lists_loaded := h.not_listed_loaded
  not_values_loaded := h.not_assigned_loaded

theorem bare : env.Bare h.roles where
  pending := h.pending
  lists := h.lists
  values := h.values
  loaded := h.loaded

theorem reads_of_append {pre post : List Intent} {i : Intent} (hs : intents = pre ++ i :: post)
    {n : String} (hn : n ∈ i.references) : n ≠ loadedVariable ∧
      (n ∈ assigned intents ∨ n ∈ listed intents → n ∈ assigned pre) := by
  subst hs
  have hk : pre.length < (pre ++ i :: post).length := by simp
  have hr := h.reads ⟨pre.length, hk⟩ n (by simpa using hn)
  simpa using hr

/-- What an intent refers to is not changed by it, and by none after it. -/
theorem target?_ne_of_reads {pre post : List Intent} {i : Intent} (hs : intents = pre ++ i :: post)
    {n : String} (hn : n ∈ i.references) : ∀ j ∈ i :: post, j.target? ≠ some n := by
  intro j hj ht
  have hr := (h.reads_of_append hs hn).2
  have hm : j ∈ intents := by
    rw [hs]
    exact List.mem_append_right _ hj
  have hpre : n ∈ assigned pre := hr (target?_eq_some hm ht)
  rcases target?_eq_some hj ht with ha | hl
  · -- It would be set twice.
    have hd := h.nodup
    rw [hs, assigned_append, List.nodup_append] at hd
    exact hd.2.2 n hpre n ha rfl
  · have hal : n ∈ assigned intents := by
      rw [hs, assigned_append]
      exact List.mem_append_left _ hpre
    have hll : n ∈ listed intents := by
      rw [hs, listed_append]
      exact List.mem_append_right _ hl
    exact h.disjoint n hll hal

/-- Every text stands for the same in its turn as it does once all intents were taken up. -/
theorem settle_eq_map {start : Environment} :
    settle true start intents =
      intents.map (expanded (changeAll true start (settle true start intents))) := by
  apply Intent.settle_eq_map
  intro pre i post hs n hn
  have hk := h.target?_ne_of_reads hs hn
  rw [hs, settle_append, changeAll_append]
  symm
  apply get?_changeAll
  intro j hj ht
  obtain ⟨j', hj', he⟩ := exists_of_mem_settle target?_expanded hj
  exact hk j' hj' (he.trans ht)

/-- So it does on the way back, although the variables that it refers to await their unset by then. -/
theorem settle_backwards_eq_map {loaded : Environment} :
    settle false loaded intents = intents.map (expanded loaded) := by
  apply Intent.settle_eq_map
  intro pre i post hs n hn
  -- An unset is put off, so that on the way back only a list could have changed.
  apply get?_changeAll_backwards
  intro j hj hl
  obtain ⟨j', hj', he⟩ := exists_of_mem_settle list?_expanded hj
  have hl' : n ∈ listed pre := List.mem_filterMap.2 ⟨j', hj', he.trans hl⟩
  have hll : n ∈ listed intents := by
    rw [hs, listed_append]
    exact List.mem_append_left _ hl'
  have hpre : n ∈ assigned pre := (h.reads_of_append hs hn).2 (.inr hll)
  have ha : n ∈ assigned intents := by
    rw [hs, assigned_append]
    exact List.mem_append_left _ hpre
  exact h.disjoint n hll ha

theorem fits_settle : ∀ i ∈ settle true env intents, i.Fits h.roles := by
  intro i hi
  have key (k : Intent → Option String) (hk : ∀ (env : Environment) (i : Intent), k (i.expanded env) = k i)
      (n : String) (hn : k i = some n) : n ∈ intents.filterMap k := by
    obtain ⟨j, hj, he⟩ := exists_of_mem_settle hk hi
    exact List.mem_filterMap.2 ⟨j, hj, he.trans hn⟩
  cases i with
  | assign value n => exact key assigned? assigned?_expanded n rfl
  | prepend value n =>
    have hl : n ∈ listed intents := key list? list?_expanded n rfl
    exact ⟨hl, h.segments n hl value (List.mem_filterMap.2 ⟨_, hi, segmentFor?_prepend value n⟩)⟩
  | report effect name value => trivial

/-- A module is recorded and its intents are taken up. Nothing awaits an unset, and the module is the most
recent one in the record. -/
theorem loaded_spec {text : String} (ht : IsSegment text) :
    let registered := (env.changePath true text loadedVariable).1
    let loaded := changeAll true registered (settle true registered intents)
    settle true registered intents = settle true env intents ∧ loaded.pending = [] ∧
      loaded.Lists loadedVariable (text :: env.segments loadedVariable) ∧
      loaded.Rests h.roles env (settle true registered intents) := by
  intro registered loaded
  have hsettle : settle true registered intents = settle true env intents := by
    apply settle_congr (k := loadedVariable)
    · intro n hn
      rw [Environment.get?_changePath, if_neg hn]
    · intro i hi hr
      obtain ⟨pre, post, hs⟩ := List.append_of_mem hi
      exact (h.reads_of_append hs hr).1 rfl
  have hf : ∀ i ∈ settle true registered intents, i.Fits h.roles := by
    rw [hsettle]
    exact h.fits_settle
  -- The record has an entry now, so that not even it awaits an unset.
  have hl : registered.Lists loadedVariable (text :: env.segments loadedVariable) :=
    (h.bare.lists_segments h.loaded).prepend ht
  have hp : registered.pending = [] := by
    apply List.eq_nil_iff_forall_not_mem.2
    intro k hk
    by_cases he : k = loadedVariable
    · rw [he] at hk
      exact nomatch (hl.pending hk).1
    · rw [Environment.mem_pending_changePath, if_neg he, h.pending] at hk
      exact nomatch hk
  refine ⟨hsettle, pending_changeAll hf hp, lists_loaded_changeAll hf true hl, ?_⟩
  have hr := (h.bare.rests.record true text).addAll hf
  rwa [List.append_nil] at hr

/-- What was taken up is taken back from there, and the module is taken out of the record. -/
theorem vars_undone {text : String} (ht : IsSegment text) :
    let registered := (env.changePath true text loadedVariable).1
    let loaded := changeAll true registered (settle true registered intents)
    let undone := changeAll false loaded (settle false loaded intents)
    (undone.changePath false text loadedVariable).1.applyUnsets.vars = env.vars := by
  intro registered loaded undone
  obtain ⟨-, -, hl, hr⟩ := h.loaded_spec ht
  have hsame : settle false loaded intents = settle true registered intents := by
    rw [h.settle_backwards_eq_map]
    exact h.settle_eq_map.symm
  have hundone : undone.Rests h.roles env [] := by
    show (changeAll false loaded (settle false loaded intents)).Rests _ _ _
    rw [hsame]
    exact Environment.Rests.takeAll (by rwa [List.append_nil])
  have hlu : undone.Lists loadedVariable (text :: env.segments loadedVariable) := by
    show (changeAll false loaded (settle false loaded intents)).Lists _ _
    rw [hsame]
    exact lists_loaded_changeAll hr.fits false hl
  have he : (text :: env.segments loadedVariable).erase text = env.segments loadedVariable :=
    List.erase_cons_head _ _
  refine h.bare.vars_eq (hundone.record false text) ?_
  have hrem : (undone.changePath false text loadedVariable).1.Lists loadedVariable
      ((text :: env.segments loadedVariable).erase text) :=
    hlu.remove (by rw [he]; exact env.isEntries_segments loadedVariable)
  rwa [he] at hrem

end Intent.Undoable

namespace Site

variable {s : Site} {found : Resolved} {intents : List Intent}

/-- A module that is given by its full name, and whose descriptor has these intents. -/
structure Describes (s : Site) (found : Resolved) (intents : List Intent) : Prop where
  resolve : s.registry.resolve s.tree found.name = .ok (some found)
  parse : Name.parse found.name.text = found.name
  free : ':' ∉ found.name.text.toList
  statements : (s.statements found.path).map (·.map found.name.intent?) = .ok (intents.map some)

namespace Describes

theorem isSegment (h : s.Describes found intents) : IsSegment found.name.text :=
  ⟨Registry.text_ne_empty_of_resolve h.resolve, h.free⟩

theorem find (h : s.Describes found intents) : s.find found.name.text = .ok found := by
  rw [Site.find, h.parse, h.resolve]

theorem visit (h : s.Describes found intents) (depth : Nat)
    (nested : Mode → List String → TransitionM Unit) (mode : Mode) (m : Machine) :
    s.visit depth nested mode found m =
      (.ok (), (Intent.performAll mode.isForward (m.entering depth mode found.name) intents).leaving
        mode found.name) := by
  have hi := h.statements
  rw [s.visit_apply]
  cases hst : s.statements found.path with
  | error fault =>
    rw [hst] at hi
    exact nomatch hi
  | ok statements =>
  rw [hst] at hi
  have hb := Subject.runBlock_of_intents ⟨s, found.name, mode, nested⟩ (Except.ok.inj hi)
    ⟨m.entering depth mode found.name, .equal⟩
  simp only [EvaluationM.toTransition, hb, proceed_ok]

theorem run_load (h : s.Describes found intents) {m : Machine} (hd : m.backend.isDisplay = false)
    (hn : found.name ∉ m.loaded.entries) :
    ∃ m', s.run .load [found.name.text] m = (.ok (), m') ∧
      m'.env = Intent.changeAll true (m.env.changePath true found.name.text loadedVariable).1
        (Intent.settle true (m.env.changePath true found.name.text loadedVariable).1 intents) := by
  have hv : s.visited m.loaded found.name.text .load = .ok (some found) := by
    have hc : m.loaded.contains found.name = false := by simpa [Loaded.contains] using hn
    rw [Site.visited, h.find, Except.map, hc]
    rfl
  rw [s.run_singleton_apply, s.runOne_apply, hv]
  refine ⟨_, h.visit _ _ _ _, ?_⟩
  rw [Machine.leaving_load, ← Machine.env_entering_load 0 found.name hd]
  exact Intent.env_performAll true intents (by simpa using hd)

theorem run_unload (h : s.Describes found intents) {m : Machine} (hd : m.backend.isDisplay = false)
    {entries : List String} (hl : m.env.Lists loadedVariable (found.name.text :: entries)) :
    ∃ m', s.run .unload [found.name.text] m = (.ok (), m') ∧
      m'.env = ((Intent.changeAll false m.env (Intent.settle false m.env intents)).changePath false
        found.name.text loadedVariable).1 := by
  have he : ∃ others, m.loaded.entries = found.name :: others := by
    rw [Machine.loaded, Loaded.ofEnvironment, hl.segments, List.filter_cons_of_pos, List.map_cons,
      h.parse]
    · exact ⟨_, rfl⟩
    · simpa using h.isSegment.ne_empty
  obtain ⟨others, he⟩ := he
  have hv : s.visited m.loaded found.name.text .unload = .ok (some found) := by
    have hfind : m.loaded.find? found.name = some found.name := by
      rw [Loaded.find?, he, List.find?_cons_of_pos]
      simp
    have hc : m.loaded.contains found.name = true := by simp [Loaded.contains, he]
    rw [Site.visited, h.parse, Registry.findLoaded, hfind]
    simp only [h.resolve, hc, if_true]
  rw [s.run_singleton_apply, s.runOne_apply, hv]
  refine ⟨_, h.visit _ _ _ _, ?_⟩
  have hde : (m.entering 0 .unload found.name).backend.isDisplay = false := by simpa using hd
  rw [Machine.env_leaving_unload _ (by rwa [Intent.isDisplay_performAll])]
  show (Environment.changePath (Intent.performAll false _ _).env _ _ _).1 = _
  rw [Intent.env_performAll false intents hde, Machine.env_entering_unload]

end Describes

end Site

namespace Session

/-- Loading a module and then unloading it brings back the variables as they were, whatever its statements
refer to among the variables that they have set before. -/
theorem perform_load_unload (s : Session) (tree : FileTree) (found : Resolved) (intents : List Intent)
    (h : (s.site tree).Describes found intents) (hu : Intent.Undoable s.env intents)
    (hn : found.name ∉ s.loaded.entries) {b b' : Backend} (hd : b.isDisplay = false)
    (hd' : b'.isDisplay = false) (t t' : Streams) :
    let load := s.perform tree (.load [found.name.text]) b t
    let unload := load.session.perform tree (.unload [found.name.text]) b' t'
    (t.commands.room = none → t'.commands.room = none →
        load.outcome = .ok () ∧ unload.outcome = .ok ()) ∧
      (load.outcome = .ok () → unload.outcome = .ok () →
        unload.session.env.vars = s.env.vars ∧ unload.session.env.pending = []) := by
  intro load unload
  obtain ⟨m, hm, henv⟩ := h.run_load (m := s.machine b t) hd hn
  obtain ⟨-, hp, hl, -⟩ := hu.loaded_spec h.isSegment
  have hload : load.outcome = .ok () → load.session = { s with env := m.env } := by
    intro ho
    rcases session_perform (.load [found.name.text]) nofun hd with ⟨hne, -⟩ | ⟨m₁, hs, hsession⟩
    · exact absurd ho hne
    · obtain rfl : m = m₁ := congrArg Prod.snd (hm.symm.trans hs)
      -- Nothing awaits an unset after the load, so that its flush leaves the variables as they are.
      have hpm : m.env.pending = [] := by
        rw [henv]
        exact hp
      rw [Environment.applyUnsets_of_pending_eq_nil hpm] at hsession
      exact hsession
  have hunload : load.outcome = .ok () → ∃ m', (load.session.site tree).run .unload [found.name.text]
      (load.session.machine b' t') = (.ok (), m') ∧ m'.env.applyUnsets.vars = s.env.vars := by
    intro ho
    rw [hload ho]
    have hrecord : m.env.Lists loadedVariable
        (found.name.text :: s.env.segments loadedVariable) := by
      rw [henv]
      exact hl
    obtain ⟨m', hm', henv'⟩ :=
      h.run_unload (m := ({ s with env := m.env } : Session).machine b' t') hd' hrecord
    refine ⟨m', hm', ?_⟩
    rw [henv', machine, henv]
    exact hu.vars_undone h.isSegment
  constructor
  · intro hr hr'
    have ho : load.outcome = .ok () := (perform_of_staging_ok (.load [found.name.text]) nofun ⟨hd, hr⟩ hm).1
    obtain ⟨m', hm', -⟩ := hunload ho
    exact ⟨ho, (perform_of_staging_ok (.unload [found.name.text]) nofun ⟨hd', hr'⟩ hm').1⟩
  · intro ho ho'
    obtain ⟨m', hm', hv⟩ := hunload ho
    rcases session_perform (.unload [found.name.text]) nofun hd' with ⟨hne, -⟩ | ⟨m₁, hs, hsession⟩
    · exact absurd ho' hne
    · obtain rfl : m' = m₁ := congrArg Prod.snd (hm'.symm.trans hs)
      have hfinal : unload.session = { load.session with env := m'.env.applyUnsets } := hsession
      rw [hfinal]
      exact ⟨hv, rfl⟩

/-- A module that refers to its own variables, on lists that are there and lists that are not. -/
theorem perform_load_unload_of_reference :
    let s : Session := .ofVars [("LOADEDENVMASTER", "other"), ("P", "/usr/bin:/opt/a/bin")]
    let tree := FileTree.ofDescriptors [("a",
      ["setVar /opt/a ROOT", "setPkgVar $ROOT/lib LIB", "setPath ${ROOT}/bin P", "setPath $A_LIB Q"])]
    let found : Resolved := ⟨⟨"a", none⟩, ⟨"/mods/a"⟩⟩
    let load := s.perform tree (.load [found.name.text]) (.commands .posix .empty) .unlimited
    let unload := load.session.perform tree (.unload [found.name.text]) .silent .unlimited
    (Streams.unlimited.commands.room = none → Streams.unlimited.commands.room = none →
        load.outcome = .ok () ∧ unload.outcome = .ok ()) ∧
      (load.outcome = .ok () → unload.outcome = .ok () →
        unload.session.env.vars = s.env.vars ∧ unload.session.env.pending = []) := by
  intro s tree found
  refine perform_load_unload s tree found [.assign "/opt/a" "ROOT", .assign "$ROOT/lib" "A_LIB",
    .prepend "${ROOT}/bin" "P", .prepend "$A_LIB" "Q"] ?_ ?_ ?_ rfl rfl _ _
  · constructor <;> decide +kernel
  · constructor <;> decide +kernel
  · decide +kernel

end Session

end EnvModules
