import EnvModules.Proofs.Perform
import EnvModules.Proofs.Record

/-!
A swap beside an unload that is followed by a load. Only the first half of a swap is not written before
the second half begins, so that the variables it unsets can still be read there. Apart from such reads
the two come to the same.
-/

namespace EnvModules

/-- Whether a step reads a variable that has a value: it refers to it, or the variable is not empty and
the step tests it or changes its list. -/
def Step.Reads (x : Step) (name : String) : Prop :=
  (name ∈ x.refersTo ∧ x.machine.env.get? name ≠ none) ∨
    (name ∈ x.consults ∧ x.machine.env.getNonEmpty? name ≠ none)

instance (x : Step) (name : String) : Decidable (x.Reads name) := inferInstanceAs (Decidable (_ ∨ _))

/-- Two environments of which the second has been flushed earlier: a late variable that still awaits its
unset in the first is undefined in the second. All others agree. -/
structure Environment.Ahead (late : List String) (env env' : Environment) : Prop where
  vars : ∀ n, (env.get? n = env'.get? n ∧ (n ∈ env.pending ↔ n ∈ env'.pending)) ∨
    (n ∈ late ∧ n ∈ env.pending ∧ env'.get? n = none)
  loaded : env.getNonEmpty? loadedVariable = env'.getNonEmpty? loadedVariable

namespace Environment.Ahead

variable {late : List String} {env env' : Environment}

theorem refl (env : Environment) : Ahead [] env env := ⟨fun _ => .inl ⟨rfl, Iff.rfl⟩, rfl⟩

theorem change (h : Ahead late env env') {env₁ env₁' : Environment} (name : String)
    (ho : ∀ k, k ≠ name → env₁.get? k = env.get? k ∧ (k ∈ env₁.pending ↔ k ∈ env.pending) ∧
      env₁'.get? k = env'.get? k ∧ (k ∈ env₁'.pending ↔ k ∈ env'.pending))
    (hn : env₁.get? name = env₁'.get? name ∧ (name ∈ env₁.pending ↔ name ∈ env₁'.pending)) :
    Ahead late env₁ env₁' := by
  constructor
  · intro k
    by_cases hk : k = name
    · rw [hk]
      exact .inl hn
    · obtain ⟨hg, hp, hg', hp'⟩ := ho k hk
      rw [hg, hp, hg', hp']
      exact h.vars k
  · by_cases hk : loadedVariable = name
    · simp only [getNonEmpty?, hk, hn.1]
    · obtain ⟨hg, -, hg', -⟩ := ho _ hk
      simpa only [getNonEmpty?, hg, hg'] using h.loaded

theorem changeVariable (h : Ahead late env env') (forward : Bool) (value name : String) :
    Ahead late (env.changeVariable forward value name).1
      (env'.changeVariable forward value name).1 := by
  cases forward with
  | true =>
    refine h.change name (fun k hk => ?_) ?_
    · simp [hk, mem_pending_changeVariable]
    · simp [mem_pending_changeVariable]
  | false =>
    -- The unset variable keeps its value in both, and this need not be the same if it was a late one.
    constructor
    · intro k
      simp only [get?_changeVariable, mem_pending_changeVariable, Bool.false_eq_true, false_and,
        if_false]
      rcases h.vars k with ⟨hg, hp⟩ | ⟨hl, hp, hg⟩
      · exact .inl ⟨hg, or_congr_left hp⟩
      · exact .inr ⟨hl, .inl hp, hg⟩
    · simpa [getNonEmpty?] using h.loaded

theorem changePath (h : Ahead late env env') (forward : Bool) (value : String) {name : String}
    (hn : env.getNonEmpty? name = env'.getNonEmpty? name) :
    Ahead late (env.changePath forward value name).1 (env'.changePath forward value name).1 := by
  refine h.change name (fun k hk => ?_) ?_
  · simp [hk, mem_pending_changePath]
  · simp [mem_pending_changePath, merged_congr forward value hn]

theorem applyUnsets (h : Ahead [] env env')
    (hl : loadedVariable ∈ env.pending → env.getNonEmpty? loadedVariable = none) :
    Ahead env.pending env env'.applyUnsets := by
  have agree (n : String) : env.get? n = env'.get? n ∧ (n ∈ env.pending ↔ n ∈ env'.pending) :=
    (h.vars n).resolve_right (by simp)
  constructor
  · intro n
    obtain ⟨hg, hp⟩ := agree n
    -- Whatever awaits its unset in the first is undefined in the second from now on.
    by_cases hn : n ∈ env.pending
    · exact .inr ⟨hn, hn, by simp [hp.1 hn]⟩
    · refine .inl ⟨?_, ?_⟩
      · simp [hg, mt hp.2 hn]
      · simp [hn, Environment.applyUnsets]
  · obtain ⟨hg, hp⟩ := agree loadedVariable
    by_cases hn : loadedVariable ∈ env.pending
    · rw [hl hn]
      simp [getNonEmpty?, hp.1 hn]
    · simpa [getNonEmpty?, mt hp.2 hn] using h.loaded

/-- What was not flushed in time is made up for by the next flush. -/
theorem vars_applyUnsets_eq (h : Ahead late env env') :
    env.applyUnsets.vars = env'.applyUnsets.vars := by
  apply Bindings.ext_get?
  intro k
  show env.applyUnsets.get? k = env'.applyUnsets.get? k
  simp only [get?_applyUnsets]
  rcases h.vars k with ⟨hg, hp⟩ | ⟨-, hp, hg⟩
  · simp only [hg, hp]
  · simp only [hp, hg, if_true, ite_self]

end Environment.Ahead

/-- Two machines that change variables, of which the second has been flushed earlier. -/
structure Machine.Ahead (late : List String) (m m' : Machine) : Prop where
  env : m.env.Ahead late m'.env
  live : m.backend.isDisplay = false
  live' : m'.backend.isDisplay = false

/-- As long as no late variable is read, both runs go on in the same way. -/
theorem Machine.lockstep_ahead (late : List String) :
    Lockstep (fun x => ∀ n ∈ late, n ∈ x.machine.env.pending → ¬ x.Reads n) (Machine.Ahead late) where
  view := by
    intro x m' hx h
    -- A late variable that a step takes in must have had no value, since it would be read otherwise.
    constructor
    · intro n hn
      rcases h.env.vars n with ⟨hg, -⟩ | ⟨hl, hp, hg⟩
      · exact hg
      · rw [hg]
        by_contra hne
        exact hx n hl hp (.inl ⟨hn, hne⟩)
    · intro n hn
      rcases h.env.vars n with ⟨hg, -⟩ | ⟨hl, hp, hg⟩
      · simp only [Environment.getNonEmpty?, hg]
      · have hg' : m'.env.getNonEmpty? n = none := by simp [Environment.getNonEmpty?, hg]
        rw [hg']
        by_contra hne
        exact hx n hl hp (.inr ⟨hn, hne⟩)
  isDisplay h := h.live.trans h.live'.symm
  loaded h := h.env.loaded
  assign := by
    intro x text name m m' forward value _ _ h
    refine ⟨?_, by simpa using h.live, by simpa using h.live'⟩
    rw [setVariable_of_not_isDisplay _ _ _ _ h.live, setVariable_of_not_isDisplay _ _ _ _ h.live']
    exact h.env.changeVariable forward value name
  prepend := by
    intro x text name m m' forward value _ _ h hn
    refine ⟨?_, by simpa using h.live, by simpa using h.live'⟩
    rw [setPath_of_not_isDisplay _ _ _ _ h.live, setPath_of_not_isDisplay _ _ _ _ h.live']
    exact h.env.changePath forward value hn
  record := by
    intro m m' forward value h
    refine ⟨?_, by simpa using h.live, by simpa using h.live'⟩
    rw [setPath_of_not_isDisplay _ _ _ _ h.live, setPath_of_not_isDisplay _ _ _ _ h.live']
    exact h.env.changePath forward value h.env.loaded
  report effect name value h := ⟨h.env, by simpa [report] using h.live, by simpa [report] using h.live'⟩
  visit visit h := ⟨h.env, h.live, h.live'⟩

namespace Machine

variable {m : Machine}

theorem recordStands_unregister (name : Name) (h : (m.unregister name).backend.isDisplay = false) :
    (m.unregister name).env.RecordStands := by
  have hu : m.unregister name = m.setPath false name.text loadedVariable := rfl
  rw [hu, isDisplay_setPath] at h
  rw [hu, setPath_of_not_isDisplay _ _ _ _ h]
  exact m.env.recordStands_changePath false name.text

end Machine

namespace Site

variable (s : Site)

/-- Whatever a descriptor has asked for the record of loaded modules, taking its module out of the record
comes after it. -/
theorem recordStands_unload {m m' : Machine} {name : String} (hd : m.backend.isDisplay = false)
    (hm : m.env.RecordStands) (h : s.run .unload [name] m = (.ok (), m')) :
    m'.env.RecordStands := by
  have hd' : m'.backend.isDisplay = false := (Machine.kept_live.run s .unload [name]).of_ok hd h
  rw [s.run_singleton_apply] at h
  rcases s.runOne_eq_ok h with rfl | ⟨found, -, hv⟩
  · exact hm
  · obtain ⟨_, e, -, -, rfl⟩ := s.visit_eq_ok hv
    exact Machine.recordStands_unregister found.name hd'

end Site

namespace Session

/-- A swap succeeds exactly when an unload and a load after it do, and then it leaves the same variables
behind. It is asked that, while the second module is loaded, no statement reads a variable whose unset the
first module has put off and that still awaits it. -/
theorem perform_swap_iff (s : Session) (tree : FileTree) (old new : String)
    {b b₁ b₂ : Backend} {t t₁ t₂ : Streams}
    (hd : ∀ x ∈ [b, b₁, b₂], x.isDisplay = false) (hr : ∀ x ∈ [t, t₁, t₂], x.commands.room = none)
    (hl : s.env.RecordStands)
    (hread : ∀ m, (s.site tree).run .unload [old] (s.machine b t) = (.ok (), m) →
      ∀ x ∈ (s.site tree).trace .load [new] m,
        ∀ n ∈ m.env.pending, n ∈ x.machine.env.pending → ¬ x.Reads n) :
    let swap := s.perform tree (.swap old new) b t
    let unload := s.perform tree (.unload [old]) b₁ t₁
    let load := unload.session.perform tree (.load [new]) b₂ t₂
    (swap.outcome = .ok () ↔ unload.outcome = .ok () ∧ load.outcome = .ok ()) ∧
      (swap.outcome = .ok () → swap.session.env.vars = load.session.env.vars) := by
  intro swap unload load
  simp only [List.forall_mem_cons, List.not_mem_nil, IsEmpty.forall_iff, implies_true, and_true]
    at hd hr
  obtain ⟨hd, hd₁, hd₂⟩ := hd
  obtain ⟨hr, hr₁, hr₂⟩ := hr
  have staging : Operation.staging (s.site tree) (.swap old new) (s.machine b t) =
      proceed ((s.site tree).run .unload [old] (s.machine b t)) fun _ =>
        (s.site tree).run .load [new] := bind_apply _ _ _
  -- Up to the middle the two runs have only their backends and streams of their own.
  obtain ⟨ho, ha⟩ := (Machine.lockstep_ahead []).run (s.site tree) .unload [old] (s.machine b t)
    (s.machine b₁ t₁) ⟨.refl _, hd, hd₁⟩ (by simp)
  rcases cases_of_fst_eq ho with ⟨fault, m, m', hu, hu'⟩ | ⟨m, m', hu, hu'⟩
  · rw [hu, proceed_error] at staging
    have hs : swap.outcome = .error fault := (perform_of_staging_error (.swap old new) nofun staging).1
    have hf : unload.outcome = .error fault :=
      (perform_of_staging_error (.unload [old]) nofun hu').1
    simp [hs, hf]
  · rw [hu, proceed_ok] at staging
    rw [hu, hu'] at ha
    obtain ⟨hf, hs⟩ : unload.outcome = .ok () ∧ unload.session = { s with env := m'.env.applyUnsets } :=
      perform_of_staging_ok (.unload [old]) nofun ⟨hd₁, hr₁⟩ hu'
    have hsite : unload.session.site tree = s.site tree := by rw [hs, site, site]
    -- The unload is flushed in the middle, and the swap is not.
    have hl' : m.env.RecordStands := (s.site tree).recordStands_unload hd hl hu
    have ha' : Machine.Ahead m.env.pending m (unload.session.machine b₂ t₂) := by
      refine ⟨?_, ha.live, hd₂⟩
      rw [hs]
      exact ha.env.applyUnsets hl'
    obtain ⟨ho', hb⟩ := (Machine.lockstep_ahead m.env.pending).run (s.site tree) .load [new] m _ ha'
      fun x hx => hread m hu x hx
    rcases cases_of_fst_eq ho' with ⟨fault, n, n', hn, hn'⟩ | ⟨n, n', hn, hn'⟩
    · have hs : swap.outcome = .error fault :=
        (perform_of_staging_error (.swap old new) nofun (staging.trans hn)).1
      have hf : load.outcome = .error fault :=
        (perform_of_staging_error (.load [new]) nofun (hsite.symm ▸ hn')).1
      simp [hs, hf]
    · rw [hn, hn'] at hb
      obtain ⟨hso, hsw⟩ : swap.outcome = .ok () ∧ swap.session = { s with env := n.env.applyUnsets } :=
        perform_of_staging_ok (.swap old new) nofun ⟨hd, hr⟩ (staging.trans hn)
      obtain ⟨hlo, hlw⟩ : load.outcome = .ok () ∧
          load.session = { unload.session with env := n'.env.applyUnsets } :=
        perform_of_staging_ok (.load [new]) nofun ⟨hd₂, hr₂⟩ (hsite.symm ▸ hn')
      have hvars : n.env.applyUnsets.vars = n'.env.applyUnsets.vars := hb.env.vars_applyUnsets_eq
      rw [hsw, hlw]
      exact ⟨by simp [hso, hf, hlo], fun _ => hvars⟩

/-- The second module takes back the unset of `A` and finds `P` empty, but reads neither. -/
theorem perform_swap_iff_of_reassignment :
    let s : Session := .ofVars [("A", "1"), ("LOADEDENVMASTER", "old"), ("P", "/old")]
    let tree := FileTree.ofDescriptors
      [("old", ["setVar 1 A", "setPath /old P"]), ("new", ["setVar 2 A", "setPath /new P"])]
    let swap := s.perform tree (.swap "old" "new") (.commands .posix .empty) .unlimited
    let unload := s.perform tree (.unload ["old"]) .silent .unlimited
    let load := unload.session.perform tree (.load ["new"]) .silent .unlimited
    (swap.outcome = .ok () ↔ unload.outcome = .ok () ∧ load.outcome = .ok ()) ∧
      (swap.outcome = .ok () → swap.session.env.vars = load.session.env.vars) := by
  intro s tree
  refine s.perform_swap_iff tree "old" "new" ?_ ?_ ?_ fun m hm => ?_
  · decide
  · decide
  · intro h
    exact absurd h (by decide)
  · obtain rfl : ((s.site tree).run .unload ["old"] (s.machine (.commands .posix .empty) .unlimited)).2 = m :=
      congrArg Prod.snd hm
    decide +kernel

/-- A second module that refers to a variable of the first still finds it during a swap, but not after an
unload. -/
theorem swap_ne_unload_then_load :
    let s : Session := .ofVars [("A", "1"), ("LOADEDENVMASTER", "old")]
    let tree := FileTree.ofDescriptors [("old", ["setVar 1 A"]), ("new", ["setVar $A B"])]
    let swap := s.perform tree (.swap "old" "new") .silent .unlimited
    let unload := s.perform tree (.unload ["old"]) .silent .unlimited
    let load := unload.session.perform tree (.load ["new"]) .silent .unlimited
    swap.outcome = .ok () ∧ unload.outcome = .ok () ∧ load.outcome = .ok () ∧
      swap.session.env.vars ≠ load.session.env.vars := by
  decide +kernel

end Session

end EnvModules
