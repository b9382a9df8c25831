import EnvModules.Proofs.Perform

/-!
How the name of a module is matched against those that are loaded. A guard that requires one of some modules, a
guard that forbids all of them and the condition that one is loaded find the same, and so does the search for
the module to unload, if versions have to be equal.
-/

namespace EnvModules

namespace Policy

/-- Equality is the narrowest policy. -/
theorem admits_of_admits_equal {requested entry : Name} (h : equal.admits requested entry = true)
    (p : Policy) : p.admits requested entry = true := by
  obtain ⟨package, wanted⟩ := requested
  obtain ⟨package', version⟩ := entry
  -- The policy has a say in two versions alone. If these are equal, then so are the names.
  cases wanted with
  | none => simpa [admits] using h
  | some want =>
    cases version with
    | none => simp [admits] at h
    | some found =>
      have heq : package = package' ∧ want = found := by
        simpa [admits, accepts] using h
      obtain ⟨rfl, rfl⟩ := heq
      simp [admits]

end Policy

namespace Loaded

variable {l : Loaded} {policy : Policy} {requested hit : Name}

/-- The search for the module to unload goes by equality. -/
theorem find?_eq_findMatching? (l : Loaded) (requested : Name) :
    l.find? requested = l.findMatching? .equal requested := by
  rw [find?, findMatching?]
  congr 1
  funext entry
  obtain ⟨package, wanted⟩ := requested
  obtain ⟨package', version⟩ := entry
  cases wanted <;> cases version <;> grind [Policy.admits, Policy.accepts]

/-- What is found is the most recent of the entries that match. -/
theorem findMatching?_eq_some_iff :
    l.findMatching? policy requested = some hit ↔
      policy.admits requested hit = true ∧ ∃ newer older, l.entries = newer ++ hit :: older ∧
        ∀ entry ∈ newer, policy.admits requested entry = false := by
  simp [findMatching?, List.find?_eq_some_iff_append]

end Loaded

namespace Subject

variable (s : Subject) (e : Evaluation)

/-- The entry that a name in a descriptor is matched by, once its references are replaced. -/
def matched? (name : String) : Option Name :=
  e.machine.loaded.findMatching? e.policy (.parse (e.machine.env.expand name))

theorem runStatement_require (hm : s.mode = .load) (names : List String) :
    (s.runStatement (.require names) e).1 =
      if names.any fun name => (matched? e name).isSome then .ok ()
      else .error (.unmetPrerequisite s.name (names.map e.machine.env.expand)) := by
  have hp : s.IsPlain (.require names) := trivial
  rw [s.runStatement_of_isPlain hp, verdict]
  simp only [hm, true_and, List.any_map, Bool.not_eq_true', ← Bool.not_eq_true]
  exact ite_not _ _ _

theorem runStatement_conflict (hm : s.mode = .load) (names : List String) :
    (s.runStatement (.conflict names) e).1 =
      match names.findSome? (matched? e) with
      | some hit => .error (.conflict s.name hit)
      | none => .ok () := by
  have hp : s.IsPlain (.conflict names) := trivial
  rw [s.runStatement_of_isPlain hp, verdict]
  simp only [hm, if_true, List.findSome?_map]
  rfl

variable {e} {names : List String}

theorem require_eq_ok_iff (hm : s.mode = .load) :
    (s.runStatement (.require names) e).1 = .ok () ↔ ∃ name ∈ names, (matched? e name).isSome = true := by
  rw [s.runStatement_require e hm, ← List.any_eq_true]
  split <;> simp_all

theorem conflict_ne_ok_iff (hm : s.mode = .load) :
    (s.runStatement (.conflict names) e).1 ≠ .ok () ↔ ∃ name ∈ names, (matched? e name).isSome = true := by
  rw [s.runStatement_conflict e hm, ← List.findSome?_isSome_iff]
  cases names.findSome? (matched? e) <;> simp

theorem conflict_eq_error_iff (hm : s.mode = .load) {fault : Fault} :
    (s.runStatement (.conflict names) e).1 = .error fault ↔
      ∃ hit, names.findSome? (matched? e) = some hit ∧ fault = .conflict s.name hit := by
  rw [s.runStatement_conflict e hm]
  cases names.findSome? (matched? e) with
  | none => simp
  | some hit => simp [eq_comm]

/-- While a module is loaded, a requirement of some modules is met exactly if a conflict with them is found, and
if one of them is loaded for a condition under the same policy. What is in conflict is the most recent entry for
the first of the names that has any. The module that an unload takes is looked up by equality, and what is
matched by equality is matched by every policy. -/
theorem guards_agree (s : Subject) (hm : s.mode = .load) (e : Evaluation) (names : List String) :
    let isLoaded (name : String) := (Condition.loaded name).holds e.machine.env e.policy s.mode
    let admits (name : String) (entry : Name) := e.policy.admits (.parse (e.machine.env.expand name)) entry
    let required := (s.runStatement (.require names) e).1
    let forbidden := (s.runStatement (.conflict names) e).1
    (required = .ok () ↔ ∃ name ∈ names, isLoaded name = true) ∧
      (forbidden ≠ .ok () ↔ ∃ name ∈ names, isLoaded name = true) ∧
      (∀ fault, forbidden = .error fault → ∃ before name after newer hit older,
        names = before ++ name :: after ∧ (∀ n ∈ before, isLoaded n = false) ∧
        e.machine.loaded.entries = newer ++ hit :: older ∧ admits name hit = true ∧
        (∀ entry ∈ newer, admits name entry = false) ∧ fault = .conflict s.name hit) ∧
      (∀ (l : Loaded) (requested : Name), l.find? requested = l.findMatching? .equal requested) ∧
      ∀ requested entry, Policy.equal.admits requested entry = true →
        ∀ p : Policy, p.admits requested entry = true := by
  intro isLoaded admits required forbidden
  refine ⟨s.require_eq_ok_iff hm, s.conflict_ne_ok_iff hm, ?_, Loaded.find?_eq_findMatching?,
    fun requested entry => Policy.admits_of_admits_equal⟩
  intro fault hf
  obtain ⟨hit, hhit, rfl⟩ := (s.conflict_eq_error_iff hm).1 hf
  obtain ⟨before, name, after, hnames, hname, hbefore⟩ := List.findSome?_eq_some_iff.1 hhit
  obtain ⟨hadmits, newer, older, hentries, hnewer⟩ := Loaded.findMatching?_eq_some_iff.1 hname
  refine ⟨before, name, after, newer, hit, older, hnames, ?_, hentries, hadmits, hnewer, rfl⟩
  intro n hn
  show (matched? e n).isSome = false
  rw [hbefore n hn, Option.isSome_none]

/-- Of two versions that are recent enough, the one that was loaded last is in conflict. -/
theorem guards_agree_of_versions :
    let env : Environment := .ofVars (.ofList [("LOADEDENVMASTER", "icc:gcc/5:gcc/4.8:gcc/4"), ("V", "4.5")])
    let s : Subject := ⟨⟨⟨.directory [], []⟩, ⟨[]⟩, .default⟩, ⟨"a", none⟩, .load, fun _ _ => pure ()⟩
    let e : Evaluation := ⟨⟨env, .silent, .unlimited, []⟩, .atLeast⟩
    let names := ["gcc/6", "gcc/$V", "icc"]
    let forbidden := (s.runStatement (.conflict names) e).1
    s.mode = .load ∧ (s.runStatement (.require names) e).1 = .ok () ∧ forbidden ≠ .ok () ∧
      forbidden = .error (.conflict ⟨"a", none⟩ ⟨"gcc", some "5"⟩) ∧
      Policy.atMost.admits (.parse "gcc/4.8") ⟨"gcc", some "4.8"⟩ = true := by
  intro env s e names forbidden
  obtain ⟨hrequired, hforbidden, -, -, hadmits⟩ := guards_agree s rfl e names
  have hloaded : ∃ name ∈ names, (Condition.loaded name).holds e.machine.env e.policy s.mode = true :=
    ⟨"gcc/$V", by decide, by decide +kernel⟩
  refine ⟨rfl, hrequired.2 hloaded, hforbidden.2 hloaded, ?_, hadmits _ _ ?_ .atMost⟩
  · decide +kernel
  · decide +kernel

end Subject

end EnvModules
