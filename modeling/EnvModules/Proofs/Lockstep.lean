import EnvModules.Proofs.Trace

/-!
Two runs of one transition side by side. If the steps of the first find in both states what they read,
and changes keep two states related, then the runs end alike and in related states. With equality as the
relation this says what a single run keeps.
-/

namespace EnvModules

/-- A relation of machines that a transition keeps, as long as its steps are safe. -/
structure Lockstep (Safe : Step → Prop) (R : Machine → Machine → Prop) : Prop where
  view : ∀ {x m'}, Safe x → R x.machine m' →
    SameView x.machine.env m'.env x.refersTo x.consults
  isDisplay : ∀ {m m'}, R m m' → m.backend.isDisplay = m'.backend.isDisplay
  loaded : ∀ {m m'}, R m m' →
    m.env.getNonEmpty? loadedVariable = m'.env.getNonEmpty? loadedVariable
  assign : ∀ {x text name m m'} forward value, Safe x → .assign text name ∈ x.intents → R m m' →
    R (m.setVariable forward value name) (m'.setVariable forward value name)
  prepend : ∀ {x text name m m'} forward value, Safe x → .prepend text name ∈ x.intents → R m m' →
    m.env.getNonEmpty? name = m'.env.getNonEmpty? name →
    R (m.setPath forward value name) (m'.setPath forward value name)
  record : ∀ {m m'} forward value, R m m' →
    R (m.setPath forward value loadedVariable) (m'.setPath forward value loadedVariable)
  report : ∀ {m m'} effect name value, R m m' → R (m.report effect name value) (m'.report effect name value)
  visit : ∀ {m m'} visit, R m m' →
    R { m with visits := m.visits ++ [visit] } { m' with visits := m'.visits ++ [visit] }

section Tracks

variable {σ : Type} {Safe : Step → Prop} {A : σ → σ → Prop}

/-- Related states lead to the same result and to related states, as long as all steps are safe. -/
def Tracks (Safe : Step → Prop) (A : σ → σ → Prop) (x : σ → Except Fault Unit × σ)
    (steps : σ → List Step) : Prop :=
  ∀ a a', A a a' → (∀ y ∈ steps a, Safe y) → (x a).1 = (x a').1 ∧ A (x a).2 (x a').2

/-- Two runs with one result have either failed for the same reason or both come through. -/
theorem cases_of_fst_eq {p p' : Except Fault Unit × σ} (h : p.1 = p'.1) :
    (∃ fault a a', p = (.error fault, a) ∧ p' = (.error fault, a')) ∨
      ∃ a a', p = (.ok (), a) ∧ p' = (.ok (), a') := by
  obtain ⟨outcome, a⟩ := p
  obtain ⟨outcome', a'⟩ := p'
  obtain rfl : outcome = outcome' := h
  cases outcome with
  | error fault => exact .inl ⟨fault, a, a', rfl, rfl⟩
  | ok u => exact .inr ⟨a, a', rfl, rfl⟩

theorem Tracks.proceed {x y : σ → Except Fault Unit × σ} {xs ys : σ → List Step}
    (hx : Tracks Safe A x xs) (hy : Tracks Safe A y ys) :
    Tracks Safe A (fun a => proceed (x a) fun _ => y) (fun a => xs a ++ following (x a) ys) := by
  intro a a' ha hs
  obtain ⟨ho, hr⟩ := hx a a' ha fun z hz => hs z (List.mem_append_left _ hz)
  simp only
  rcases cases_of_fst_eq ho with ⟨fault, b, b', hb, hb'⟩ | ⟨b, b', hb, hb'⟩
  · rw [hb, hb'] at hr ⊢
    exact ⟨rfl, hr⟩
  · rw [hb, hb'] at hr
    -- The second part has run from `b`, so that its steps are among those that are safe.
    have hsafe : ∀ z ∈ ys b, Safe z := by
      intro z hz
      apply hs z
      apply List.mem_append_right
      rw [hb]
      exact hz
    rw [hb, hb']
    exact hy b b' hr hsafe

theorem Tracks.andThen {x : σ → Except Fault Unit × σ} {xs : σ → List Step} {f : σ → σ}
    (hx : Tracks Safe A x xs) (hf : ∀ a a', A a a' → A (f a) (f a')) :
    Tracks Safe A (fun a => EnvModules.proceed (x a) fun _ a => (.ok (), f a)) xs := by
  intro a a' ha hs
  obtain ⟨ho, hr⟩ := hx a a' ha hs
  simp only
  rcases cases_of_fst_eq ho with ⟨fault, b, b', hb, hb'⟩ | ⟨b, b', hb, hb'⟩
  · rw [hb, hb'] at hr ⊢
    exact ⟨rfl, hr⟩
  · rw [hb, hb'] at hr ⊢
    exact ⟨rfl, hf b b' hr⟩

end Tracks

/-- Two evaluations with related machines. -/
structure Alike (R : Machine → Machine → Prop) (e e' : Evaluation) : Prop where
  machine : R e.machine e'.machine
  policy : e.policy = e'.policy

namespace Lockstep

variable {Safe : Step → Prop} {R : Machine → Machine → Prop} (h : Lockstep Safe R)
variable {x : Step} {m m' : Machine} {refs lists : List String}
include h

theorem apply_assign (hx : Safe x) {text name : String} (hi : .assign text name ∈ x.intents)
    (forward : Bool) (hR : R m m') (hv : SameView m.env m'.env refs lists)
    (ht : forward || m.backend.isDisplay → references text ⊆ refs) :
    R (((Intent.assign text name).expanded m.env).apply forward m)
        (((Intent.assign text name).expanded m'.env).apply forward m') ∧
      SameView (((Intent.assign text name).expanded m.env).apply forward m).env
        (((Intent.assign text name).expanded m'.env).apply forward m').env refs lists := by
  have hd := h.isDisplay hR
  simp only [Intent.expanded, Intent.apply]
  -- On an unset the value is thrown away, so that its references need not agree.
  by_cases hval : forward || m.backend.isDisplay
  · have he : m.env.expand text = m'.env.expand text :=
      expand_congr fun n hn => hv.refs n (ht hval hn)
    rw [← he]
    refine ⟨h.assign forward _ hx hi hR, ?_⟩
    cases hb : m.backend.isDisplay with
    | true =>
      rw [Machine.setVariable_of_isDisplay _ _ _ _ hb,
        Machine.setVariable_of_isDisplay _ _ _ _ (hd ▸ hb)]
      exact hv
    | false =>
      have hf : forward = true := by simpa [hb] using hval
      subst hf
      rw [Machine.setVariable_of_not_isDisplay _ _ _ _ hb,
        Machine.setVariable_of_not_isDisplay _ _ _ _ (hd ▸ hb)]
      refine hv.of_get? name (fun k hk => ?_) ?_
      · simp [hk]
      · simp
  · have hb : m.backend.isDisplay = false := by
      cases hb : m.backend.isDisplay <;> simp_all
    have hf : forward = false := by simpa [hb] using hval
    subst hf
    have hR' := h.assign false (m.env.expand text) hx hi hR
    rw [Machine.setVariable_of_not_isDisplay _ _ _ _ hb,
      Machine.setVariable_of_not_isDisplay _ _ _ _ (hd ▸ hb)] at hR' ⊢
    exact ⟨hR', hv.of_get?_eq (fun k => by simp) (fun k => by simp)⟩

theorem apply_prepend (hx : Safe x) {text name : String} (hi : .prepend text name ∈ x.intents)
    (forward : Bool) (hR : R m m') (hv : SameView m.env m'.env refs lists)
    (ht : references text ⊆ refs) (hn : name ∈ lists) :
    R (((Intent.prepend text name).expanded m.env).apply forward m)
        (((Intent.prepend text name).expanded m'.env).apply forward m') ∧
      SameView (((Intent.prepend text name).expanded m.env).apply forward m).env
        (((Intent.prepend text name).expanded m'.env).apply forward m').env refs lists := by
  have hd := h.isDisplay hR
  have he : m.env.expand text = m'.env.expand text :=
    expand_congr fun n hn => hv.refs n (ht hn)
  simp only [Intent.expanded, Intent.apply]
  rw [← he]
  refine ⟨h.prepend forward _ hx hi hR (hv.lists name hn), ?_⟩
  cases hb : m.backend.isDisplay with
  | true =>
    rw [Machine.setPath_of_isDisplay _ _ _ _ hb, Machine.setPath_of_isDisplay _ _ _ _ (hd ▸ hb)]
    exact hv
  | false =>
    rw [Machine.setPath_of_not_isDisplay _ _ _ _ hb,
      Machine.setPath_of_not_isDisplay _ _ _ _ (hd ▸ hb)]
    refine hv.of_get? name (fun k hk => ?_) ?_
    · simp [hk]
    · simp [Environment.merged_congr forward _ (hv.lists name hn)]

theorem performAll (hx : Safe x) (forward : Bool) {intents : List Intent}
    (hi : ∀ i ∈ intents, i ∈ x.intents) (hR : R m m') (hv : SameView m.env m'.env refs lists)
    (ht : ∀ i ∈ intents, ∀ t ∈ i.texts (forward || m.backend.isDisplay), references t ⊆ refs)
    (hl : ∀ i ∈ intents, ∀ n ∈ i.list?, n ∈ lists) :
    R (Intent.performAll forward m intents) (Intent.performAll forward m' intents) := by
  induction intents generalizing m m' with
  | nil => exact hR
  | cons i rest ih =>
    have hii := hi i List.mem_cons_self
    have hti := ht i List.mem_cons_self
    have hli := hl i List.mem_cons_self
    have hs : R ((i.expanded m.env).apply forward m) ((i.expanded m'.env).apply forward m') ∧
        SameView ((i.expanded m.env).apply forward m).env
          ((i.expanded m'.env).apply forward m').env refs lists := by
      cases i with
      | assign text name =>
        exact h.apply_assign hx hii forward hR hv fun hf => hti text (by simp [Intent.texts, hf])
      | prepend text name =>
        exact h.apply_prepend hx hii forward hR hv (hti text (by simp [Intent.texts]))
          (hli name (by simp [Intent.list?]))
      | report effect name value => exact ⟨h.report effect name value hR, hv⟩
    refine ih (fun j hj => hi j (List.mem_cons_of_mem _ hj)) hs.1 hs.2 (fun j hj => ?_)
      fun j hj => hl j (List.mem_cons_of_mem _ hj)
    rw [Machine.isDisplay_apply]
    exact ht j (List.mem_cons_of_mem _ hj)

theorem refersTo_view (hx : Safe x) (hR : R x.machine m') :
    SameView x.machine.env m'.env
      ((x.subject.texts x.evaluation x.statement).flatMap references) x.consults :=
  (h.view hx hR).mono (by simp [Step.refersTo]) (List.Subset.refl _)

theorem runStatement_of_isPlain {s : Subject} {st : Statement} (hp : s.IsPlain st) :
    Tracks Safe (Alike R) (s.runStatement st) fun e => [⟨s, st, e⟩] := by
  intro e e' ha hs
  have hx : Safe ⟨s, st, e⟩ := hs _ (List.mem_singleton_self _)
  have hv := h.refersTo_view hx ha.machine
  have hi : s.intents e.machine.env st = s.intents e'.machine.env st := s.intents_congr hv
  have ho : s.verdict e st = s.verdict e' st :=
    s.verdict_congr hv (Loaded.ofEnvironment_congr (h.loaded ha.machine)) ha.policy
  rw [s.runStatement_of_isPlain hp, s.runStatement_of_isPlain hp, ← hi, ← ho, ← ha.policy]
  refine ⟨rfl, ?_, rfl⟩
  apply h.performAll hx _ (fun i hi => hi) ha.machine (h.view hx ha.machine)
  · intro i hi t ht n hn
    have htext := List.mem_append_right (s.texts e st) (List.mem_flatMap.2 ⟨i, hi, ht⟩)
    exact List.mem_flatMap.2 ⟨t, htext, hn⟩
  · intro i hi n hn
    exact List.mem_append_right _ (List.mem_filterMap.2 ⟨i, hi, hn⟩)

end Lockstep

section Block

variable {Safe : Step → Prop} {R : Machine → Machine → Prop} {s : Subject}
variable {deeper : Mode → List String → Machine → List Step}

theorem Tracks.ofTransition {x : TransitionM Unit} {steps : Machine → List Step}
    (hx : Tracks Safe R x steps) :
    Tracks Safe (Alike R) (EvaluationM.ofTransition x) fun e => steps e.machine := by
  intro e e' ha hs
  obtain ⟨ho, hr⟩ := hx _ _ ha.machine hs
  exact ⟨ho, hr, ha.policy⟩

theorem Tracks.toTransition {x : EvaluationM Unit} {steps : Evaluation → List Step}
    (hx : Tracks Safe (Alike R) x steps) :
    Tracks Safe R x.toTransition fun m => steps ⟨m, .equal⟩ := by
  intro m m' hR hs
  obtain ⟨ho, ha⟩ := hx ⟨m, .equal⟩ ⟨m', .equal⟩ ⟨hR, rfl⟩ hs
  exact ⟨ho, ha.machine⟩

theorem following_ofTransition {x : TransitionM Unit} (e : Evaluation) (f : Machine → List Step) :
    following (EvaluationM.ofTransition x e) (fun e => f e.machine) = following (x e.machine) f := by
  rw [Subject.ofTransition_apply]
  rcases x e.machine with ⟨_ | _, m⟩ <;> rfl

variable (h : Lockstep Safe R)
include h

theorem Lockstep.traceStatement_of_isPlain {st : Statement} (hp : s.IsPlain st) :
    Tracks Safe (Alike R) (s.runStatement st) (s.traceStatement deeper st) := by
  intro e e' ha hs
  rw [Subject.traceStatement_of_isPlain hp] at hs
  exact h.runStatement_of_isPlain hp e e' ha hs

variable (hn : ∀ mode names, Tracks Safe R (s.nested mode names) (deeper mode names))
include hn

theorem Lockstep.runStatement_load (names : List String) :
    Tracks Safe (Alike R) (s.runStatement (.load names)) (s.traceStatement deeper (.load names)) := by
  by_cases hm : s.mode = .load
  · intro e e' ha hs
    rw [Subject.traceStatement, if_pos hm] at hs
    -- Both runs bring in modules of the same names.
    have hv := h.refersTo_view (hs _ List.mem_cons_self) ha.machine
    have he : names.map e.machine.env.expand = names.map e'.machine.env.expand := by
      apply List.map_congr_left
      intro t ht
      exact hv.expand t (by simpa [Subject.texts, hm] using ht)
    rw [s.runStatement_load_apply _ _ hm, s.runStatement_load_apply _ _ hm, ← he]
    exact (hn .load _).ofTransition e e' ha fun y hy => hs y (List.mem_cons_of_mem _ hy)
  · have hp : s.IsPlain (.load names) := hm
    exact h.traceStatement_of_isPlain hp

theorem Lockstep.runStatement_swap (old new : String) :
    Tracks Safe (Alike R) (s.runStatement (.swap old new))
      (s.traceStatement deeper (.swap old new)) := by
  by_cases hm : s.mode = .load
  · intro e e' ha hs
    rw [Subject.traceStatement, if_pos hm, ← following_ofTransition] at hs
    have hv := h.refersTo_view (hs _ List.mem_cons_self) ha.machine
    have ho : e.machine.env.expand old = e'.machine.env.expand old :=
      hv.expand _ (by simp [Subject.texts, hm])
    have hw : e.machine.env.expand new = e'.machine.env.expand new :=
      hv.expand _ (by simp [Subject.texts, hm])
    rw [s.runStatement_swap_apply _ _ _ hm, s.runStatement_swap_apply _ _ _ hm, ← ho, ← hw]
    exact (hn .unload _).ofTransition.proceed (hn .load _).ofTransition e e' ha
      fun y hy => hs y (List.mem_cons_of_mem _ hy)
  · have hp : s.IsPlain (.swap old new) := hm
    exact h.traceStatement_of_isPlain hp

theorem Lockstep.runStatement {st : Statement}
    (hst : ∀ branches otherwise, st ≠ .choose branches otherwise) :
    Tracks Safe (Alike R) (s.runStatement st) (s.traceStatement deeper st) := by
  cases st with
  | load names => exact h.runStatement_load hn names
  | swap old new => exact h.runStatement_swap hn old new
  | choose branches otherwise => exact absurd rfl (hst branches otherwise)
  | _ => exact h.traceStatement_of_isPlain trivial

/-- Blocks that start in related states do the same, whatever they bring in. -/
theorem Lockstep.runBlock (block : List Statement) :
    Tracks Safe (Alike R) (s.runBlock block) (s.traceBlock deeper block) := by
  have cons {st : Statement} {rest : List Statement}
      (hst : Tracks Safe (Alike R) (s.runStatement st) (s.traceStatement deeper st))
      (hr : Tracks Safe (Alike R) (s.runBlock rest) (s.traceBlock deeper rest)) :
      Tracks Safe (Alike R) (s.runBlock (st :: rest)) (s.traceBlock deeper (st :: rest)) := by
    intro e e' ha hs
    rw [s.runBlock_cons_apply, s.runBlock_cons_apply]
    rw [Subject.traceBlock] at hs
    exact hst.proceed hr e e' ha hs
  induction block using Statement.block_induction with
  | nil =>
    intro e e' ha _
    rw [s.runBlock_nil_apply, s.runBlock_nil_apply]
    exact ⟨rfl, ha⟩
  | simple st rest hst ih => exact cons (h.runStatement hn hst) ih
  | choose branches otherwise rest hb ho hr =>
    refine cons ?_ hr
    intro e e' ha hs
    rw [Subject.traceStatement, Subject.traceBranches_eq] at hs
    -- Both runs choose the same block, which the induction hypotheses know as one of those inside.
    have hv : SameView e.machine.env e'.machine.env
        (((s.tried e branches).flatMap Condition.texts).flatMap references)
        ((s.tried e branches).flatMap Condition.tested) :=
      (h.view (hs _ List.mem_cons_self) ha.machine).mono
        (by simp [Step.refersTo, Subject.texts]) (by simp [Step.consults, Subject.tested])
    have hc : s.chosen e otherwise branches = s.chosen e' otherwise branches :=
      s.chosen_congr otherwise hv (h.loaded ha.machine) ha.policy
    rw [s.runStatement_choose_apply, s.runStatement_choose_apply, ← hc]
    let Good (block : List Statement) : Prop :=
      Tracks Safe (Alike R) (s.runBlock block) (s.traceBlock deeper block)
    have hch : Good (s.chosen e otherwise branches) := s.chosen_induction e hb ho
    exact hch e e' ha fun y hy => hs y (List.mem_cons_of_mem _ hy)

end Block

section Site

variable {Safe : Step → Prop} {R : Machine → Machine → Prop} (s : Site) {depth : Nat}
variable {nested : Mode → List String → TransitionM Unit}
variable {deeper : Mode → List String → Machine → List Step}
variable (h : Lockstep Safe R)
include h

theorem Lockstep.entering {m m' : Machine} (hR : R m m') (mode : Mode) (name : Name) :
    R (m.entering depth mode name) (m'.entering depth mode name) := by
  have hv := h.visit ⟨depth, mode, name⟩ hR
  simp only [Machine.entering, ← h.isDisplay hv]
  split
  · exact h.record true name.text hv
  · exact hv

theorem Lockstep.leaving {m m' : Machine} (hR : R m m') (mode : Mode) (name : Name) :
    R (m.leaving mode name) (m'.leaving mode name) := by
  unfold Machine.leaving
  split
  · exact h.record false name.text hR
  · exact hR

theorem Lockstep.siteVisit
    (hn : ∀ mode names, Tracks Safe R (nested mode names) (deeper mode names)) (mode : Mode)
    (found : Resolved) :
    Tracks Safe R (s.visit depth nested mode found) (s.traceVisit depth nested deeper mode found) := by
  intro m m' hR hs
  rw [s.visit_apply, s.visit_apply]
  unfold Site.traceVisit at hs
  cases hst : s.statements found.path with
  | error fault => exact ⟨rfl, hR⟩
  | ok statements =>
    rw [hst] at hs
    let subject : Subject := ⟨s, found.name, mode, nested⟩
    have hb : Tracks Safe R (subject.runBlock statements).toTransition _ :=
      (h.runBlock hn statements).toTransition
    exact hb.andThen (fun _ _ hR => h.leaving hR mode found.name) _ _ (h.entering hR mode found.name) hs

theorem Lockstep.runOne {visit : Mode → Resolved → TransitionM Unit}
    {steps : Mode → Resolved → Machine → List Step}
    (hv : ∀ mode found, Tracks Safe R (visit mode found) (steps mode found)) (mode : Mode)
    (name : String) : Tracks Safe R (s.runOne visit mode name) (s.traceOne steps mode name) := by
  intro m m' hR hs
  have hl : m.loaded = m'.loaded := Loaded.ofEnvironment_congr (h.loaded hR)
  rw [s.runOne_apply, s.runOne_apply, ← hl]
  unfold Site.traceOne at hs
  rcases hf : s.visited m.loaded name mode with fault | _ | found
  · exact ⟨rfl, hR⟩
  · exact ⟨rfl, hR⟩
  · rw [hf] at hs
    exact hv mode found m m' hR hs

theorem Lockstep.level {levels : Nat}
    (hn : ∀ mode names, Tracks Safe R (s.nestedWithin levels mode names) (deeper mode names))
    (mode : Mode) (names : List String) :
    Tracks Safe R (s.runWithin levels mode names) (s.traceLevel levels deeper mode names) := by
  rw [s.runWithin_eq]
  induction names with
  | nil => exact fun m m' hR _ => ⟨rfl, hR⟩
  | cons name rest ih =>
    intro m m' hR hs
    rw [forM_cons_apply, forM_cons_apply]
    rw [Site.traceLevel] at hs
    exact (h.runOne s (h.siteVisit s hn) mode name).proceed ih m m' hR hs

theorem Lockstep.runWithin (levels : Nat) (mode : Mode) (names : List String) :
    Tracks Safe R (s.runWithin levels mode names) (s.traceWithin levels mode names) := by
  induction levels generalizing mode names with
  | zero =>
    have hn (mode : Mode) (names : List String) :
        Tracks Safe R (s.nestedWithin 0 mode names) fun _ => [] := fun _ _ hR _ => ⟨rfl, hR⟩
    exact h.level s hn mode names
  | succ levels ih =>
    have hn (mode : Mode) (names : List String) :
        Tracks Safe R (s.nestedWithin (levels + 1) mode names) (s.traceWithin levels mode names) :=
      ih mode names
    exact h.level s hn mode names

/-- Transitions that start in related states end alike and in related states. -/
theorem Lockstep.run (mode : Mode) (names : List String) :
    Tracks Safe R (s.run mode names) (s.trace mode names) :=
  h.runWithin s nestingLimit mode names

end Site

section Operation

variable {Safe : Step → Prop} {R : Machine → Machine → Prop}

theorem Tracks.bind {x y : TransitionM Unit} {xs ys : Machine → List Step} (hx : Tracks Safe R x xs)
    (hy : Tracks Safe R y ys) :
    Tracks Safe R (x >>= fun _ => y) fun m => xs m ++ following (x m) ys := by
  intro m m' hR hs
  rw [bind_apply, bind_apply]
  exact hx.proceed hy m m' hR hs

theorem Tracks.forM {β : Type} {f : β → TransitionM PUnit} {steps : β → Machine → List Step}
    (hf : ∀ b, Tracks Safe R (f b) (steps b)) (l : List β) :
    Tracks Safe R (l.forM f) (traceEach f steps l) := by
  induction l with
  | nil => exact fun m m' hR _ => ⟨rfl, hR⟩
  | cons b rest ih =>
    show Tracks Safe R (f b >>= fun _ => rest.forM f) _
    exact (hf b).bind ih

variable (s : Site) (h : Lockstep Safe R)
include h

theorem Lockstep.exchange (old new : String) :
    Tracks Safe R (s.exchange old new) (s.traceExchange old new) :=
  (h.run s .unload [old]).bind (h.run s .load [new])

/-- Operations that start in related states come to their flush in related states. -/
theorem Lockstep.staging (op : Operation) : Tracks Safe R (op.staging s) (op.trace s) := by
  cases op with
  | load names => exact h.run s .load names
  | unload names => exact h.run s .unload names
  | swap old new => exact h.exchange s old new
  | reload names => exact Tracks.forM (fun n => h.exchange s n n) names
  | reloadAll =>
    intro m m' hR hs
    -- Both runs begin with the same modules, which are settled before any of them goes.
    have hl : m.loaded = m'.loaded := Loaded.ofEnvironment_congr (h.loaded hR)
    have hall := Tracks.forM (fun entry : Name => h.exchange s entry.text entry.package)
      m.loaded.oldestFirst m m' hR hs
    simp only [Operation.staging]
    rw [bind_apply, bind_apply, get_apply, get_apply, proceed_ok, proceed_ok, ← hl]
    exact hall
  | unloadAll =>
    intro m m' hR hs
    have hl : m.loaded = m'.loaded := Loaded.ofEnvironment_congr (h.loaded hR)
    have hall := Tracks.forM (fun entry : Name => h.run s .unload [entry.text])
      m.loaded.entries m m' hR hs
    simp only [Operation.staging]
    rw [bind_apply, bind_apply, get_apply, get_apply, proceed_ok, proceed_ok, ← hl]
    exact hall
  | display names => exact fun m m' hR _ => ⟨rfl, hR⟩

end Operation

/-- A relation between machines of one environment that every single change keeps. -/
structure Coupled (R : Machine → Machine → Prop) : Prop where
  env : ∀ {m m'}, R m m' → m.env = m'.env
  isDisplay : ∀ {m m'}, R m m' → m.backend.isDisplay = m'.backend.isDisplay
  setVariable : ∀ {m m'} forward value name, R m m' →
    R (m.setVariable forward value name) (m'.setVariable forward value name)
  setPath : ∀ {m m'} forward value name, R m m' →
    R (m.setPath forward value name) (m'.setPath forward value name)
  report : ∀ {m m'} effect name value, R m m' → R (m.report effect name value) (m'.report effect name value)
  visit : ∀ {m m'} visit, R m m' →
    R { m with visits := m.visits ++ [visit] } { m' with visits := m'.visits ++ [visit] }

/-- Whatever a step reads, it finds the same in one environment. -/
theorem Coupled.lockstep {R : Machine → Machine → Prop} (h : Coupled R) :
    Lockstep (fun _ => True) R where
  view := by
    intro x m' _ hR
    have he : x.machine.env = m'.env := h.env hR
    exact ⟨fun _ _ => by rw [he], fun _ _ => by rw [he]⟩
  isDisplay := h.isDisplay
  loaded hR := by rw [h.env hR]
  assign forward value _ _ hR := h.setVariable forward value _ hR
  prepend forward value _ _ hR _ := h.setPath forward value _ hR
  record forward value hR := h.setPath forward value loadedVariable hR
  report := h.report
  visit := h.visit

/-- A property of machines that every single change keeps. -/
structure Kept (P : Machine → Prop) : Prop where
  setVariable : ∀ {m} forward value name, P m → P (m.setVariable forward value name)
  setPath : ∀ {m} forward value name, P m → P (m.setPath forward value name)
  report : ∀ {m} effect name value, P m → P (m.report effect name value)
  visit : ∀ {m} visit, P m → P { m with visits := m.visits ++ [visit] }

namespace Kept

variable {P : Machine → Prop}

theorem maintains {x : TransitionM Unit} {steps : Machine → List Step}
    (hx : Tracks (fun _ => True) (fun m m' => m = m' ∧ P m) x steps) :
    TransitionM.Maintains P P x :=
  TransitionM.maintains_iff_snd.2 fun m hm => (hx m m ⟨rfl, hm⟩ fun _ _ => trivial).2.2

variable (h : Kept P)
include h

/-- A single run is a pair of runs that stay equal. -/
theorem coupled : Coupled fun m m' => m = m' ∧ P m where
  env hR := by rw [hR.1]
  isDisplay hR := by rw [hR.1]
  setVariable forward value name := by
    rintro ⟨rfl, hm⟩
    exact ⟨rfl, h.setVariable forward value name hm⟩
  setPath forward value name := by
    rintro ⟨rfl, hm⟩
    exact ⟨rfl, h.setPath forward value name hm⟩
  report effect name value := by
    rintro ⟨rfl, hm⟩
    exact ⟨rfl, h.report effect name value hm⟩
  visit visit := by
    rintro ⟨rfl, hm⟩
    exact ⟨rfl, h.visit visit hm⟩

/-- What every single change keeps is kept by whole transitions, whether they fail or not. -/
theorem run (s : Site) (mode : Mode) (names : List String) :
    TransitionM.Maintains P P (s.run mode names) :=
  maintains (h.coupled.lockstep.run s mode names)

theorem siteVisit (s : Site) (depth levels : Nat) (mode : Mode) (found : Resolved) :
    TransitionM.Maintains P P (s.visit depth (s.runWithin levels) mode found) :=
  maintains (h.coupled.lockstep.siteVisit s (h.coupled.lockstep.runWithin s levels) mode found)

theorem staging (s : Site) (op : Operation) : TransitionM.Maintains P P (op.staging s) :=
  Operation.staging_maintains (fun names => h.run s .unload names)
    (fun names _ => h.run s .load names) (fun _ _ _ _ => trivial) fun _ _ => trivial

end Kept

end EnvModules
