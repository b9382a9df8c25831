import EnvModules.Proofs.Origin
import EnvModules.Proofs.Stable
import Mathlib.Data.List.Perm.Subperm

/-!
How deep loads nest. A load that is refused for its depth is the last of a chain of loads, each in the
descriptor of the module that the one before it brings in. A module is recorded before its statements run, so
that no module is twice in such a chain, and cycles do not make it any longer.
-/

namespace EnvModules

open Statement TransitionM

section Faults

variable {asked : List String}

theorem FileTree.readPin_ne_tooDeep (t : FileTree) (pin : Path) : t.readPin pin ≠ .error (.tooDeep asked) := by
  rw [readPin]
  repeat' split
  all_goals simp

theorem FileTree.findDefault_ne_tooDeep (t : FileTree) (directory : Path) (package : String) :
    t.findDefault directory package ≠ .error (.tooDeep asked) := by
  rw [findDefault]
  split
  · have hp : t.readPin (directory.join ⟨pinName⟩) ≠ .error (.tooDeep asked) :=
      t.readPin_ne_tooDeep (directory.join ⟨pinName⟩)
    rcases hr : t.readPin (directory.join ⟨pinName⟩) with fault | version <;> rw [hr] at hp
    · simpa [bind, Except.bind] using hp
    · simp only [bind, Except.bind]
      split <;> simp
  · repeat' split
    all_goals simp

theorem Registry.resolve_ne_tooDeep (r : Registry) (t : FileTree) (name : Name) :
    r.resolve t name ≠ .error (.tooDeep asked) := by
  rw [resolve]
  split
  · simp
  · next candidate _ =>
    -- What fails is the search for a default, or the check of what has been come to.
    have checked {x : Except Fault Resolved} (hx : x ≠ .error (.tooDeep asked)) : (x >>= fun found =>
        if t.isDescriptor found.path then Except.ok (some found)
        else .error (.content found.path .notModule)) ≠ .error (.tooDeep asked) := by
      rcases x with fault | found
      · simpa [bind, Except.bind] using hx
      · simp only [bind, Except.bind]
        split <;> simp
    split
    · exact checked (t.findDefault_ne_tooDeep candidate name.package)
    · exact checked (by simp)

namespace Site

variable (s : Site)

theorem find_ne_tooDeep (name : String) : s.find name ≠ .error (.tooDeep asked) := by
  have hr : s.registry.resolve s.tree (.parse name) ≠ .error (.tooDeep asked) :=
    s.registry.resolve_ne_tooDeep s.tree (.parse name)
  rw [find]
  rcases h : s.registry.resolve s.tree (.parse name) with fault | _ | found
  · rw [h] at hr
    simpa using hr
  · simp
  · simp

theorem visited_load_ne_tooDeep (loaded : Loaded) (name : String) :
    s.visited loaded name .load ≠ .error (.tooDeep asked) := by
  have hf : s.find name ≠ .error (.tooDeep asked) := s.find_ne_tooDeep name
  rw [visited]
  rcases h : s.find name with fault | found
  · rw [h] at hf
    simpa [Except.map] using hf
  · simp [Except.map]

theorem statements_ne_tooDeep (path : Path) : s.statements path ≠ .error (.tooDeep asked) := by
  rw [statements]
  repeat' split
  all_goals simp

end Site

/-- A statement that its subject carries out alone is not refused for its depth. -/
theorem Subject.verdict_ne_tooDeep (s : Subject) (e : Evaluation) (st : Statement) :
    s.verdict e st ≠ .error (.tooDeep asked) := by
  cases st with
  | installTree root | require names =>
    simp only [verdict]
    split <;> simp
  | conflict names =>
    simp only [verdict]
    repeat' split
    all_goals simp
  | _ => simp [verdict]

end Faults

namespace Subject

variable {s : Subject} {deeper : Mode → List String → Machine → List Step} {P : Machine → Prop}
variable {fault : Fault} {e e' : Evaluation}

/-- One of these statements fails, on a machine of this kind, and the steps that it takes are among these. -/
def Culprit (s : Subject) (deeper : Mode → List String → Machine → List Step) (P : Machine → Prop)
    (fault : Fault) (e' : Evaluation) (statements : List Statement) (steps : List Step) : Prop :=
  ∃ st ∈ statements, ∃ e, P e.machine ∧ s.runStatement st e = (.error fault, e') ∧
    s.traceStatement deeper st e ⊆ steps

theorem Culprit.mono {statements statements' : List Statement} {steps steps' : List Step}
    (h : s.Culprit deeper P fault e' statements steps) (hs : statements ⊆ statements')
    (ht : steps ⊆ steps') : s.Culprit deeper P fault e' statements' steps' := by
  obtain ⟨st, hm, e, he, hf, hx⟩ := h
  exact ⟨st, hs hm, e, he, hf, List.Subset.trans hx ht⟩

theorem culprit_cons {st : Statement} {rest : List Statement}
    (hst : s.runStatement st e = (.error fault, e') →
      s.Culprit deeper P fault e' st.leaves (s.traceStatement deeper st e))
    (hkeep : P (s.runStatement st e).2.machine)
    (hrest : ∀ e₁ : Evaluation, P e₁.machine → s.runBlock rest e₁ = (.error fault, e') →
      s.Culprit deeper P fault e' (blockLeaves rest) (s.traceBlock deeper rest e₁))
    (h : s.runBlock (st :: rest) e = (.error fault, e')) :
    s.Culprit deeper P fault e' (blockLeaves (st :: rest)) (s.traceBlock deeper (st :: rest) e) := by
  rw [s.runBlock_cons_apply] at h
  rw [blockLeaves, traceBlock]
  rcases proceed_eq_error h with hf | ⟨_, e₁, hf, h⟩
  · exact (hst hf).mono (List.subset_append_left _ _) (List.subset_append_left _ _)
  · rw [hf] at hkeep ⊢
    exact (hrest e₁ hkeep h).mono (List.subset_append_right _ _) (List.subset_append_right _ _)

theorem blockLeaves_chosen_subset (s : Subject) (e : Evaluation) (otherwise : List Statement)
    (branches : List (Condition × List Statement)) :
    blockLeaves (s.chosen e otherwise branches) ⊆ (Statement.choose branches otherwise).leaves := by
  rw [leaves]
  apply s.chosen_induction (P := fun block =>
    blockLeaves block ⊆ branchLeaves branches ++ blockLeaves otherwise) e
  · intro b hm
    exact List.Subset.trans (blockLeaves_subset_branchLeaves hm) (List.subset_append_left _ _)
  · exact List.subset_append_right _ _

/-- If a block fails, then one of its statements does, on a machine to which the statements before it have
led. -/
theorem culprit_of_runBlock (deeper : Mode → List String → Machine → List Step) {block : List Statement}
    (hk : ∀ st ∈ blockLeaves block, ∀ e, P e.machine → P (s.runStatement st e).2.machine)
    (he : P e.machine) (h : s.runBlock block e = (.error fault, e')) :
    s.Culprit deeper P fault e' (blockLeaves block) (s.traceBlock deeper block e) := by
  induction block using Statement.block_induction generalizing e with
  | nil =>
    rw [s.runBlock_nil_apply] at h
    exact absurd h.symm error_ne_ok
  | simple st rest hst ih =>
    rw [blockLeaves, List.forall_mem_append] at hk
    obtain ⟨hfirst, hrest⟩ := hk
    have hown : st ∈ st.leaves := by
      rw [leaves_of_ne_choose hst]
      exact List.mem_singleton_self st
    refine culprit_cons ?_ (hfirst st hown e he) (fun _ he₁ h => ih hrest he₁ h) h
    exact fun hf => ⟨st, hown, e, he, hf, List.Subset.refl _⟩
  | choose branches otherwise rest hb ho ih =>
    rw [blockLeaves, List.forall_mem_append] at hk
    obtain ⟨hinside, hrest⟩ := hk
    -- The block that is chosen has its statements inside the choice, and keeps what they keep.
    have hleaves := s.blockLeaves_chosen_subset e otherwise branches
    have hchosen : ∀ st ∈ blockLeaves (s.chosen e otherwise branches), ∀ e, P e.machine →
        P (s.runStatement st e).2.machine := fun st hm => hinside st (hleaves hm)
    have hkeep : P (s.runStatement (.choose branches otherwise) e).2.machine := by
      rw [s.runStatement_choose_apply]
      exact s.runBlock_keeps hchosen e he
    refine culprit_cons ?_ hkeep (fun _ he₁ h => ih hrest he₁ h) h
    intro hf
    rw [s.runStatement_choose_apply] at hf
    let Found (block : List Statement) : Prop :=
      (∀ st ∈ blockLeaves block, ∀ e, P e.machine → P (s.runStatement st e).2.machine) →
        s.runBlock block e = (.error fault, e') →
        s.Culprit deeper P fault e' (blockLeaves block) (s.traceBlock deeper block e)
    have hfound : Found (s.chosen e otherwise branches) := by
      apply s.chosen_induction (P := Found) e
      · exact fun b hm hk hr => hb b hm hk he hr
      · exact fun hk hr => ho hk he hr
    rw [traceStatement, traceBranches_eq]
    exact (hfound hchosen hf).mono hleaves (List.subset_cons_self _ _)

end Subject

namespace Machine

variable {start m m' : Machine} {name : Name}

/-- Whatever the record is at the start, a module that is loaded comes in front of its entries. -/
theorem entries_entering (hn : name.IsCanonical) (depth : Nat) (hd : m.backend.isDisplay = false) :
    (m.entering depth .load name).loaded.entries = name :: m.loaded.entries := by
  have hs := (Environment.Lists.of_prepend m.env loadedVariable hn.isSegment).segments
  have hne : name.text ≠ "" := hn.isSegment.ne_empty
  rw [loaded, env_entering_load _ _ hd, Loaded.ofEnvironment, hs,
    List.filter_cons_of_pos (by simpa using hne), List.map_cons, hn.parse]
  rfl

/-- A machine that loads have led to from a start. What was loaded then still is, and the visits until then
are the first ones. -/
structure Follows (start m : Machine) : Prop where
  live : m.backend.isDisplay = false
  entries : start.loaded.entries ⊆ m.loaded.entries
  visits : start.visits <+: m.visits

namespace Follows

theorem refl (hd : m.backend.isDisplay = false) : m.Follows m :=
  ⟨hd, List.Subset.refl _, List.prefix_refl _⟩

theorem agrees (ha : m.AgreesAt loadedVariable m') (h : start.Follows m) : start.Follows m' where
  live := ha.isDisplay.trans h.live
  entries := by
    have hl : m'.loaded = m.loaded := by
      apply Loaded.ofEnvironment_congr
      rw [Environment.getNonEmpty?, ha.value, Environment.getNonEmpty?]
    rw [hl]
    exact h.entries
  visits := by
    rw [ha.visits]
    exact h.visits

theorem enters (hn : name.IsCanonical) (depth : Nat) (h : start.Follows m) :
    start.Follows (m.entering depth .load name) where
  live := by simpa using h.live
  entries := by
    rw [entries_entering hn depth h.live]
    exact List.Subset.trans h.entries (List.subset_cons_self _ _)
  visits := by
    rw [visits_entering]
    exact h.visits.trans (List.prefix_append _ _)

end Follows

end Machine

namespace Site

variable {s : Site} {used : String → Prop}

theorem stable_follows (hr : s.Regular used) (hs : ¬ s.Swaps used) (start : Machine) :
    s.Stable used start.Follows where
  agrees ha hm := hm.agrees ha
  enters {_ found} depth hf _ hm := hm.enters (hr.canonical found hf) depth
  unloads hswaps := absurd hswaps hs

/-- If a level fails, then it does so for one of the names, on a machine to which the names before it have
led. -/
theorem exists_of_runWithin_error (s : Site) {levels : Nat} {mode : Mode}
    (deeper : Mode → List String → Machine → List Step) {P : Machine → Prop} {names : List String}
    (hk : ∀ n ∈ names,
      Maintains P P (s.runOne (s.visit (nestingLimit - levels) (s.nestedWithin levels)) mode n))
    {fault : Fault} {m m' : Machine} (hm : P m) (h : s.runWithin levels mode names m = (.error fault, m')) :
    ∃ n ∈ names, ∃ m₁, P m₁ ∧
      s.runOne (s.visit (nestingLimit - levels) (s.nestedWithin levels)) mode n m₁ = (.error fault, m') ∧
      s.traceOne (s.traceVisit (nestingLimit - levels) (s.nestedWithin levels) deeper) mode n m₁ ⊆
        s.traceLevel levels deeper mode names m := by
  rw [s.runWithin_eq] at h
  induction names generalizing m with
  | nil => exact absurd h.symm error_ne_ok
  | cons name rest ih =>
    obtain ⟨hname, hrest⟩ := List.forall_mem_cons.1 hk
    rw [forM_cons_apply] at h
    rw [traceLevel]
    rcases proceed_eq_error h with hf | ⟨_, m₁, h₁, h₂⟩
    · exact ⟨name, List.mem_cons_self, m, hm, hf, List.subset_append_left _ _⟩
    · obtain ⟨n, hn, m₂, hm₂, hf, ht⟩ := ih hrest (hname.of_ok hm h₁) h₂
      refine ⟨n, List.mem_cons_of_mem _ hn, m₂, hm₂, hf, ?_⟩
      rw [h₁]
      exact List.Subset.trans ht (List.subset_append_right _ _)

end Site

/-- A step ends with a fault that leaves this machine behind. Of the steps that are under way when a fault comes
up, each ends so. -/
def Step.FailsWith (x : Step) (fault : Fault) (m : Machine) : Prop :=
  ∃ e, x.subject.runStatement x.statement x.evaluation = (.error fault, e) ∧ e.machine = m

theorem Step.FailsWith.nested {x : Step} {texts : List String} {fault : Fault} {m : Machine}
    (h : x.FailsWith fault m) (hm : x.subject.mode = .load) (hst : x.statement = .load texts) :
    x.subject.nested .load (texts.map x.machine.env.expand) x.machine = (.error fault, m) := by
  obtain ⟨e, he, rfl⟩ := h
  rw [hst, Subject.runStatement_load_apply _ _ _ hm] at he
  exact Subject.ofTransition_eq he

/-- A load in the descriptor of a module that one of these names leads to. -/
structure Step.Loads (s : Site) (x : Step) (names texts : List String) (found : Resolved) : Prop where
  requested : ∃ name ∈ names, s.find name = .ok found
  subject : x.subject.name = found.name
  mode : x.subject.mode = .load
  statement : x.statement = .load texts
  within : .load texts ∈ blockLeaves (s.body found.path)

/-- A load that is refused for its depth, in a run between two machines. It is in the descriptor of a module
that was not loaded yet when one of the names led to it. -/
structure Step.Refused (s : Site) (used : String → Prop) (depth : Nat) (x : Step)
    (names texts asked : List String) (found : Resolved) (m m' : Machine) : Prop where
  loads : x.Loads s names texts found
  offers : s.Offers used found
  entered : ∃ m₁, m.Follows m₁ ∧ found.name ∉ m₁.loaded.entries ∧
    (m₁.entering depth .load found.name).Follows x.machine
  fails : x.FailsWith (.tooDeep asked) m'

/-- Loads that nest. Each is in the descriptor of a module that the one before it asks for, and the last one
asks for the names at the end. -/
inductive Site.Chain (s : Site) : List String → List Step → List String → Prop where
  | nil (names : List String) : Chain s names [] names
  | cons {names texts asked : List String} {found : Resolved} {x : Step} {rest : List Step}
      (loads : x.Loads s names texts found)
      (next : Chain s (texts.map x.machine.env.expand) rest asked) : Chain s names (x :: rest) asked

/-- The visits in which the steps of a chain are run, from a depth on. -/
def Step.chainVisits (depth : Nat) (chain : List Step) : List Visit :=
  (chain.zipIdx depth).map fun p => ⟨p.2, .load, p.1.subject.name⟩

theorem Step.chainVisits_cons (depth : Nat) (x : Step) (chain : List Step) :
    chainVisits depth (x :: chain) = ⟨depth, .load, x.subject.name⟩ :: chainVisits (depth + 1) chain := by
  rw [chainVisits, List.zipIdx_cons, List.map_cons, chainVisits]

/-- Loads that are all under way when one more is refused for its depth, in the run of these steps between two
machines. Each is in a visit of its own, one level below the one before it. Their modules are different, and
none of them was loaded before. -/
structure Site.Refusal (s : Site) (used : String → Prop) (depth : Nat) (steps : List Step)
    (names asked : List String) (m m' : Machine) (chain : List Step) : Prop where
  linked : s.Chain names chain asked
  offers : ∀ x ∈ chain, ∃ found, s.Offers used found ∧ x.subject.name = found.name
  fresh : ∀ x ∈ chain, x.subject.name ∉ m.loaded.entries
  nodup : (chain.map fun x => x.subject.name).Nodup
  taken : chain ⊆ steps
  fails : ∀ x ∈ chain, x.FailsWith (.tooDeep asked) m'
  visits : List.Sublist (m.visits ++ Step.chainVisits depth chain) m'.visits

namespace Site.Refusal

variable {s : Site} {used : String → Prop} {depth : Nat} {steps deeper : List Step}
variable {names texts asked : List String} {m m' : Machine} {x : Step} {found : Resolved}
variable {chain : List Step}

theorem nil (s : Site) (used : String → Prop) (depth : Nat) (steps : List Step) (asked : List String)
    (m : Machine) : s.Refusal used depth steps asked asked m m [] where
  linked := .nil asked
  offers := by simp
  fresh := by simp
  nodup := List.nodup_nil
  taken := List.nil_subset _
  fails := by simp
  visits := by simp [Step.chainVisits]

/-- A load is put in front of those that it has brought about. By then its module is recorded, so that they are
in other modules. -/
theorem cons (hr : s.Regular used) (hx : x.Refused s used depth names texts asked found m m')
    (hs : x :: deeper ⊆ steps)
    (h : s.Refusal used (depth + 1) deeper (texts.map x.machine.env.expand) asked x.machine m' chain) :
    s.Refusal used depth steps names asked m m' (x :: chain) := by
  obtain ⟨hl, ho, ⟨m₁, hm, hfresh, hx⟩, hf⟩ := hx
  have hc : found.name.IsCanonical := hr.canonical found ho
  have hentries := hx.entries
  rw [Machine.entries_entering hc depth hm.live] at hentries
  obtain ⟨hself, hbefore⟩ := List.cons_subset.1 hentries
  have hall : m.loaded.entries ⊆ x.machine.loaded.entries := List.Subset.trans hm.entries hbefore
  have hother : ∀ y ∈ chain, y.subject.name ≠ found.name := by
    intro y hy he
    exact h.fresh y hy (he ▸ hself)
  refine ⟨.cons hl h.linked, ?_, ?_, ?_, ?_, ?_, ?_⟩
  · exact List.forall_mem_cons.2 ⟨⟨found, ho, hl.subject⟩, h.offers⟩
  · refine List.forall_mem_cons.2 ⟨?_, fun y hy hmem => h.fresh y hy (hall hmem)⟩
    rw [hl.subject]
    exact fun hmem => hfresh (hm.entries hmem)
  · refine List.nodup_cons.2 ⟨?_, h.nodup⟩
    intro hmem
    obtain ⟨y, hy, he⟩ := List.mem_map.1 hmem
    exact hother y hy (he.trans hl.subject)
  · obtain ⟨hfirst, hrest⟩ := List.cons_subset.1 hs
    exact List.cons_subset.2 ⟨hfirst, List.Subset.trans h.taken hrest⟩
  · exact List.forall_mem_cons.2 ⟨hf, h.fails⟩
  · -- The visit of the module is recorded on entering, and those below it come after that.
    have hentered : List.Sublist (m.visits ++ [⟨depth, .load, found.name⟩]) x.machine.visits := by
      have hv := hx.visits.sublist
      rw [Machine.visits_entering] at hv
      exact (hm.visits.sublist.append_right _).trans hv
    rw [Step.chainVisits_cons, hl.subject, List.append_cons]
    exact (hentered.append_right _).trans h.visits

end Site.Refusal

namespace Site

variable {s : Site} {used : String → Prop} (hr : s.Regular used) (hs : ¬ s.Swaps used)
include hr hs

/-- A visit that is refused for its depth has come to a load in the descriptor. -/
theorem exists_load_of_visit {depth : Nat} {nested : Mode → List String → TransitionM Unit}
    (deeper : Mode → List String → Machine → List Step)
    (hl : ∀ start names, (∀ n ∈ names, used n) →
      Maintains (Machine.Follows start) (Machine.Follows start) (nested .load names))
    {found : Resolved} (ho : s.Offers used found) {asked : List String} {m m' : Machine}
    (hd : m.backend.isDisplay = false)
    (h : s.visit depth nested .load found m = (.error (.tooDeep asked), m')) :
    let subject : Subject := ⟨s, found.name, .load, nested⟩
    ∃ texts e, .load texts ∈ blockLeaves (s.body found.path) ∧
      (m.entering depth .load found.name).Follows e.machine ∧
      Step.FailsWith ⟨subject, .load texts, e⟩ (.tooDeep asked) m' ∧
      subject.traceStatement deeper (.load texts) e ⊆ s.traceVisit depth nested deeper .load found m := by
  intro subject
  rw [s.visit_apply] at h
  rw [traceVisit]
  cases hst : s.statements found.path with
  | error fault =>
    rw [hst] at h
    obtain rfl : fault = .tooDeep asked := Except.error.inj (congrArg Prod.fst h)
    exact absurd hst (s.statements_ne_tooDeep found.path)
  | ok statements =>
    obtain rfl : s.body found.path = statements := by rw [body, hst]; rfl
    rw [hst] at h
    rcases proceed_eq_error h with hbody | ⟨_, m₁, -, hleft⟩
    · obtain ⟨e', hblock, rfl⟩ := Subject.toTransition_eq hbody
      have hlive : (m.entering depth .load found.name).backend.isDisplay = false := by simpa using hd
      have hstable := stable_follows hr hs (m.entering depth .load found.name)
      obtain ⟨st, hmem, e, he, hfail, hsteps⟩ := Subject.culprit_of_runBlock deeper
        (fun st hmem e he => hstable.runStatement hr ho (hl _) (fun hswaps => absurd hswaps hs) hmem he)
        (.refl hlive) hblock
      -- Of all statements only one that brings in others can be refused for its depth.
      have plain (hp : subject.IsPlain st) : False := by
        rw [Subject.runStatement_of_isPlain _ hp] at hfail
        exact subject.verdict_ne_tooDeep e st (congrArg Prod.fst hfail)
      cases st with
      | load texts => exact ⟨texts, e, hmem, he, ⟨e', hfail, rfl⟩, hsteps⟩
      | swap old new => exact absurd ⟨found, ho, _, hmem, rfl⟩ hs
      | choose branches otherwise => exact absurd hmem (choose_not_mem_blockLeaves _)
      | _ => exact (plain trivial).elim
    · exact absurd hleft.symm error_ne_ok

/-- If a level is refused for its depth, then a load in the descriptor of one of its modules is. -/
theorem exists_refused_of_tooDeep {levels : Nat} (deeper : Mode → List String → Machine → List Step)
    (hl : ∀ start names, (∀ n ∈ names, used n) →
      Maintains (Machine.Follows start) (Machine.Follows start) (s.nestedWithin levels .load names))
    {names asked : List String} (hn : ∀ n ∈ names, used n) {m m' : Machine}
    (hd : m.backend.isDisplay = false)
    (h : s.runWithin levels .load names m = (.error (.tooDeep asked), m')) :
    ∃ x found texts, x.Refused s used (nestingLimit - levels) names texts asked found m m' ∧
      s.nestedWithin levels .load (texts.map x.machine.env.expand) x.machine =
        (.error (.tooDeep asked), m') ∧
      x :: deeper .load (texts.map x.machine.env.expand) x.machine ⊆
        s.traceLevel levels deeper .load names m := by
  obtain ⟨name, hname, m₁, hm₁, hone, htrace⟩ := s.exists_of_runWithin_error deeper
    (fun n hmem => (stable_follows hr hs m).runOne hr (hl m) (fun hswaps => absurd hswaps hs)
      (nestingLimit - levels) (hn n hmem))
    (.refl hd) h
  rw [s.runOne_apply] at hone
  unfold traceOne at htrace
  -- The name has led to a module, since otherwise the fault would be another one, or there would be none.
  rcases hv : s.visited m₁.loaded name .load with fault | _ | found <;> rw [hv] at hone htrace
  · obtain rfl : fault = .tooDeep asked := Except.error.inj (congrArg Prod.fst hone)
    exact absurd hv (s.visited_load_ne_tooDeep m₁.loaded name)
  · exact absurd hone.symm error_ne_ok
  obtain ⟨hf, hc⟩ := s.visited_load_eq_ok_iff.1 hv
  have ho : s.Offers used found := offers_of_visited_load (hn name hname) hv
  have hfresh : found.name ∉ m₁.loaded.entries := by
    intro hmem
    rw [Loaded.contains, List.contains_iff_mem.2 hmem] at hc
    cases hc
  obtain ⟨texts, e, hmem, he, hfails, hsteps⟩ := exists_load_of_visit hr hs deeper hl ho hm₁.live hone
  have hnested := hfails.nested rfl rfl
  rw [Subject.traceStatement, if_pos rfl] at hsteps
  exact ⟨⟨_, .load texts, e⟩, found, texts,
    ⟨⟨⟨name, hname, hf⟩, rfl, rfl, rfl, hmem⟩, ho, ⟨m₁, hm₁, hfresh, he⟩, hfails⟩, hnested,
    List.Subset.trans hsteps htrace⟩

theorem maintains_nestedWithin (start : Machine) (levels : Nat) {names : List String}
    (hn : ∀ n ∈ names, used n) :
    Maintains start.Follows start.Follows (s.nestedWithin levels .load names) :=
  (stable_follows hr hs start).nestedWithin hr levels hn

/-- A load with some levels left that is refused for its depth has gone through all of them. -/
theorem exists_refusal_of_tooDeep {levels : Nat} (hlevels : levels ≤ nestingLimit)
    {names asked : List String} (hn : ∀ n ∈ names, used n) {m m' : Machine}
    (hd : m.backend.isDisplay = false)
    (h : s.runWithin levels .load names m = (.error (.tooDeep asked), m')) :
    ∃ chain : List Step, chain.length = levels + 1 ∧
      s.Refusal used (nestingLimit - levels) (s.traceWithin levels .load names m) names asked m m' chain := by
  -- The induction is on the levels that are left. On the last one, the load itself is refused.
  induction levels generalizing names m with
  | zero =>
    obtain ⟨x, found, texts, hx, hnested, hsteps⟩ := exists_refused_of_tooDeep hr hs (fun _ _ _ => [])
      (fun start _ hn => maintains_nestedWithin hr hs start 0 hn) hn hd h
    obtain rfl : texts.map x.machine.env.expand = asked :=
      Fault.tooDeep.inj (Except.error.inj (congrArg Prod.fst hnested))
    obtain rfl : x.machine = m' := congrArg Prod.snd hnested
    exact ⟨[x], rfl, .cons hr hx hsteps (.nil s used _ _ _ _)⟩
  | succ levels ih =>
    obtain ⟨x, found, texts, hx, hnested, hsteps⟩ := exists_refused_of_tooDeep hr hs (s.traceWithin levels)
      (fun start _ hn => maintains_nestedWithin hr hs start (levels + 1) hn) hn hd h
    have hused : ∀ n ∈ texts.map x.machine.env.expand, used n := by
      intro n hmem
      obtain ⟨text, ht, rfl⟩ := List.mem_map.1 hmem
      exact hr.incoming found hx.offers _ hx.loads.within text ht x.machine.env
    have hlive : x.machine.backend.isDisplay = false := by
      obtain ⟨m₁, -, -, hinside⟩ := hx.entered
      exact hinside.live
    obtain ⟨chain, hlength, hchain⟩ := ih (by omega) hused hlive hnested
    have hdepth : nestingLimit - levels = nestingLimit - (levels + 1) + 1 := by omega
    rw [hdepth] at hchain
    exact ⟨x :: chain, by rw [List.length_cons, hlength], .cons hr hx hsteps hchain⟩

/-- A load is refused for its depth only when one more module than the limit allows for is being loaded, each by
a load in the descriptor of the one before it, and no two of them are the same. So as many modules as the limit
says, or fewer, can load each other in any way, be it in cycles, without such a refusal. -/
theorem run_tooDeep (names : List String) (hn : ∀ n ∈ names, used n) {m : Machine}
    (hd : m.backend.isDisplay = false) :
    (∀ asked m', s.run .load names m = (.error (.tooDeep asked), m') →
      ∃ chain : List Step, chain.length = nestingLimit + 1 ∧
        s.Refusal used 0 (s.trace .load names m) names asked m m' chain) ∧
      ∀ modules : List Name, modules.length ≤ nestingLimit →
        (∀ found, s.Offers used found → found.name ∈ modules) →
        ∀ asked, (s.run .load names m).1 ≠ .error (.tooDeep asked) := by
  have refused (asked : List String) (m' : Machine)
      (h : s.run .load names m = (.error (.tooDeep asked), m')) :
      ∃ chain : List Step, chain.length = nestingLimit + 1 ∧
        s.Refusal used 0 (s.trace .load names m) names asked m m' chain := by
    have hchain := exists_refusal_of_tooDeep hr hs (Nat.le_refl nestingLimit) hn hd h
    rwa [Nat.sub_self] at hchain
  refine ⟨refused, ?_⟩
  intro modules hlength hall asked h
  obtain ⟨chain, hchain, hrefusal⟩ := refused asked (s.run .load names m).2 (Prod.ext h rfl)
  -- The modules of the chain are different ones of these, of which there are too few.
  have hsubset : (chain.map fun x => x.subject.name) ⊆ modules := by
    intro name hname
    obtain ⟨x, hx, rfl⟩ := List.mem_map.1 hname
    obtain ⟨found, ho, he⟩ := hrefusal.offers x hx
    rw [he]
    exact hall found ho
  have hcount := (List.subperm_of_subset hrefusal.nodup hsubset).length_le
  rw [List.length_map] at hcount
  omega

omit hr hs in
/-- Modules that load themselves and each other, in a diamond and under conditions. The record that is there at
the start has a name twice, and empty segments. -/
theorem run_tooDeep_of_cycle :
    let tree := FileTree.ofDescriptors [("a", ["load a b", "load c"]), ("b", ["load d a"]),
      ("c", ["load d", "if loaded b", "load b c", "end"]), ("d", ["if not defined D", "load a", "end", "setVar 1 D"])]
    let s : Site := ⟨tree, ⟨[⟨"/mods"⟩]⟩, .default⟩
    let used := ["a", "b", "c", "d"]
    let names := ["a", "c", "d"]
    let m : Machine := ⟨.ofVars (.ofList [(loadedVariable, ":x/::x/")]), .silent, .unlimited, []⟩
    (∀ asked m', s.run .load names m = (.error (.tooDeep asked), m') →
      ∃ chain : List Step, chain.length = nestingLimit + 1 ∧
        s.Refusal (· ∈ used) 0 (s.trace .load names m) names asked m m' chain) ∧
      ∀ modules : List Name, modules.length ≤ nestingLimit →
        (∀ found, s.Offers (· ∈ used) found → found.name ∈ modules) →
        ∀ asked, (s.run .load names m).1 ≠ .error (.tooDeep asked) := by
  intro tree s used names m
  let modules : List Resolved := used.map fun n => ⟨⟨n, none⟩, ⟨"/mods/" ++ n⟩⟩
  have resolved : ∀ n ∈ used, s.registry.resolve s.tree (.parse n) ∈
      modules.map fun found => .ok (some found) := by
    decide +kernel
  have described : ∀ found ∈ modules, ∀ st ∈ blockLeaves (s.body found.path),
      loadedVariable ∉ s.config.targets found.name st ∧
        (∀ text ∈ st.incoming, '$' ∉ text.toList ∧ text ∈ used) ∧ st.isSwap = false := by
    decide +kernel
  have regular : s.Regular (· ∈ used) := by
    refine .of_names resolved ?_ ?_ ?_
    · decide +kernel
    · exact fun found hf st hst => (described found hf st hst).1
    · exact fun found hf st hst => (described found hf st hst).2.1
  have noswap : ¬ s.Swaps (· ∈ used) := by
    rintro ⟨found, hf, st, hst, hswap⟩
    rw [(described found (offers_of_names resolved hf) st hst).2.2] at hswap
    exact nomatch hswap
  exact run_tooDeep regular noswap names (by decide) rfl

end Site

end EnvModules
