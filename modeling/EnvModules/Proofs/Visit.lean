import EnvModules.Proofs.Intent

/-!
The transitions of a site as equations: which module a name leads to, what is done before and after its
statements, and what an operation does before it writes.
-/

namespace EnvModules

namespace Machine

/-- The machine on which the statements of a module begin. -/
def entering (m : Machine) (depth : Nat) (mode : Mode) (name : Name) : Machine :=
  let m := { m with visits := m.visits ++ [⟨depth, mode, name⟩] }
  if mode = .load ∧ m.backend.isDisplay = false then m.register name else m

theorem visits_entering (m : Machine) (depth : Nat) (mode : Mode) (name : Name) :
    (m.entering depth mode name).visits = m.visits ++ [⟨depth, mode, name⟩] := by
  rw [entering]
  split <;> rfl

/-- The machine that a module leaves behind. -/
def leaving (m : Machine) (mode : Mode) (name : Name) : Machine :=
  if mode = .unload then m.unregister name else m

theorem visits_leaving (m : Machine) (mode : Mode) (name : Name) :
    (m.leaving mode name).visits = m.visits := by
  rw [leaving]
  split <;> rfl

end Machine

namespace Site

variable (s : Site)

def find (name : String) : Except Fault Resolved :=
  match s.registry.resolve s.tree (.parse name) with
  | .ok (some found) => .ok found
  | .ok none => .error (.noModule name)
  | .error fault => .error fault

/-- The module that is visited for a name, if any. -/
def visited (loaded : Loaded) (name : String) : Mode → Except Fault (Option Resolved)
  | .load => (s.find name).map fun found => if loaded.contains found.name then none else some found
  | .unload =>
    match s.registry.findLoaded s.tree loaded (.parse name) with
    | .error fault => .error fault
    | .ok (some found) => .ok (if loaded.contains found.name then some found else none)
    | .ok none =>
      if (loaded.find? (.parse name)).isSome then .error (.noModule name)
      else (s.find name).map fun _ => none
  | .display => (s.find name).map some

theorem resolveOrFail_apply (name : String) (m : Machine) :
    s.resolveOrFail name m = (s.find name, m) := by
  unfold resolveOrFail find
  rw [bind_apply, ofExcept_apply]
  rcases s.registry.resolve s.tree (.parse name) with fault | _ | found <;> rfl

theorem visit_apply (depth : Nat) (nested : Mode → List String → TransitionM Unit) (mode : Mode)
    (found : Resolved) (m : Machine) :
    s.visit depth nested mode found m =
      match s.statements found.path with
      | .error fault => (.error fault, m)
      | .ok statements =>
        proceed ((Subject.runBlock ⟨s, found.name, mode, nested⟩ statements).toTransition
          (m.entering depth mode found.name)) fun _ m => (.ok (), m.leaving mode found.name) := by
  unfold visit
  rw [bind_apply, ofExcept_apply]
  cases s.statements found.path with
  | error fault => rfl
  | ok statements =>
    rw [proceed_ok, bind_apply, modify_apply, proceed_ok]
    -- Each mode has a shape of its own: a load is recorded first, an unload is taken out of the record last.
    cases mode with
    | load =>
      simp only [if_true]
      rw [bind_apply, modify_apply, proceed_ok, bind_apply]
      cases hd : m.backend.isDisplay <;>
        simp only [Machine.entering, Machine.leaving, hd, reduceCtorEq, if_false, if_true,
          Bool.false_eq_true, and_false, and_true] <;> rfl
    | unload =>
      simp only [reduceCtorEq, if_false, if_true]
      rw [bind_apply]
      rfl
    | display =>
      simp only [reduceCtorEq, if_false]
      rw [bind_apply]
      rfl

/-- A visit that succeeds has gone through all statements. -/
theorem visit_eq_ok {depth : Nat} {nested : Mode → List String → TransitionM Unit} {mode : Mode}
    {found : Resolved} {m m' : Machine} (h : s.visit depth nested mode found m = (.ok (), m')) :
    ∃ statements e, s.statements found.path = .ok statements ∧
      Subject.runBlock ⟨s, found.name, mode, nested⟩ statements
        ⟨m.entering depth mode found.name, .equal⟩ = (.ok (), e) ∧
      m' = e.machine.leaving mode found.name := by
  rw [s.visit_apply] at h
  cases hst : s.statements found.path with
  | error fault =>
    rw [hst] at h
    exact absurd h error_ne_ok
  | ok statements =>
    rw [hst] at h
    obtain ⟨_, m₁, hb, hl⟩ := proceed_eq_ok h
    obtain ⟨e, he, rfl⟩ := Subject.toTransition_eq hb
    have hm : e.machine.leaving mode found.name = m' := congrArg Prod.snd hl
    exact ⟨statements, e, rfl, he, hm.symm⟩

theorem runOne_apply (visit : Mode → Resolved → TransitionM Unit) (mode : Mode) (name : String)
    (m : Machine) :
    s.runOne visit mode name m =
      match s.visited m.loaded name mode with
      | .error fault => (.error fault, m)
      | .ok none => (.ok (), m)
      | .ok (some found) => visit mode found m := by
  cases mode with
  | load =>
    show s.loadOne (visit .load) name m = _
    unfold loadOne
    rw [bind_apply, resolveOrFail_apply]
    unfold visited
    rcases s.find name with fault | found
    · rfl
    · rw [proceed_ok, bind_apply, get_apply, proceed_ok]
      cases hl : m.loaded.contains found.name <;> simp only [Except.map, hl] <;> rfl
  | unload =>
    show s.unloadOne (visit .unload) name m = _
    unfold unloadOne visited find
    rw [bind_apply, get_apply, proceed_ok, bind_apply, ofExcept_apply]
    rcases s.registry.findLoaded s.tree m.loaded (.parse name) with fault | _ | found
    · rfl
    · -- Either what is loaded under the name has gone, or nothing is, and then the name has to lead somewhere.
      rw [proceed_ok]
      cases hl : (m.loaded.find? (.parse name)).isSome with
      | true =>
        simp only [if_true]
        rfl
      | false =>
        simp only [Bool.false_eq_true, if_false]
        rw [bind_apply, ofExcept_apply]
        rcases s.registry.resolve s.tree (.parse name) with fault | _ | found <;> rfl
    · rw [proceed_ok]
      cases hl : m.loaded.contains found.name with
      | true => simp only [hl, if_true]
      | false =>
        simp only [hl, Bool.false_eq_true, if_false]
        rfl
  | display =>
    show (s.resolveOrFail name >>= visit .display) m = _
    rw [bind_apply, resolveOrFail_apply]
    unfold visited
    cases s.find name <;> rfl

/-- If all went well for a name, then no module was visited for it, or the visit went well. -/
theorem runOne_eq_ok {visit : Mode → Resolved → TransitionM Unit} {mode : Mode} {name : String}
    {m m' : Machine} (h : s.runOne visit mode name m = (.ok (), m')) :
    m = m' ∨ ∃ found, s.visited m.loaded name mode = .ok (some found) ∧
      visit mode found m = (.ok (), m') := by
  rw [s.runOne_apply] at h
  split at h
  · exact absurd h error_ne_ok
  · exact .inl (congrArg Prod.snd h)
  · next found hv => exact .inr ⟨found, hv, h⟩

theorem find_eq_ok_iff {name : String} {found : Resolved} :
    s.find name = .ok found ↔ s.registry.resolve s.tree (.parse name) = .ok (some found) := by
  rw [find]
  rcases s.registry.resolve s.tree (.parse name) with fault | _ | other <;> simp

theorem visited_load_eq_ok_iff {loaded : Loaded} {name : String} {found : Resolved} :
    s.visited loaded name .load = .ok (some found) ↔
      s.find name = .ok found ∧ loaded.contains found.name = false := by
  rw [visited]
  cases s.find name with
  | error fault => simp [Except.map]
  | ok other =>
    simp only [Except.map, Except.ok.injEq]
    constructor
    · intro h
      split at h
      · exact nomatch h
      · next hc =>
        obtain rfl := Option.some.inj h
        exact ⟨rfl, by simpa using hc⟩
    · rintro ⟨rfl, hc⟩
      rw [if_neg (by simp [hc])]

theorem visited_load_eq_none_iff {loaded : Loaded} {name : String} :
    s.visited loaded name .load = .ok none ↔
      ∃ found, s.find name = .ok found ∧ loaded.contains found.name = true := by
  rw [visited]
  cases s.find name with
  | error fault => simp [Except.map]
  | ok found => simp [Except.map]

/-- What is loaded under a name is looked up as it is recorded. -/
theorem visited_unload_of_find? {loaded : Loaded} {name : String} {entry : Name}
    (h : loaded.find? (.parse name) = some entry) :
    s.visited loaded name .unload =
      match s.registry.resolve s.tree entry with
      | .error fault => .error fault
      | .ok none => .error (.noModule name)
      | .ok (some found) => .ok (if loaded.contains found.name then some found else none) := by
  rw [visited, Registry.findLoaded, h]
  simp only
  cases s.registry.resolve s.tree entry with
  | error fault => rfl
  | ok found => cases found <;> rfl

theorem visited_unload_eq_ok {loaded : Loaded} {name : String} {found : Resolved}
    (h : s.visited loaded name .unload = .ok (some found)) :
    ∃ entry, loaded.find? (.parse name) = some entry ∧
      s.registry.resolve s.tree entry = .ok (some found) ∧ loaded.contains found.name = true := by
  cases he : loaded.find? (.parse name) with
  | none =>
    -- If nothing is loaded under the name, then at most it is looked up, but no module is visited.
    rw [visited, Registry.findLoaded, he] at h
    cases hf : s.find name with
    | error fault => simp [hf, Except.map] at h
    | ok other => simp [hf, Except.map] at h
  | some entry =>
    rw [s.visited_unload_of_find? he] at h
    refine ⟨entry, rfl, ?_⟩
    rcases hr : s.registry.resolve s.tree entry with fault | _ | other <;> rw [hr] at h
    · exact nomatch h
    · exact nomatch h
    · by_cases hc : loaded.contains other.name
      · obtain rfl : other = found := by simpa [hc] using h
        exact ⟨rfl, hc⟩
      · simp [hc] at h

/-- How modules are taken through a mode inside a descriptor, with a number of levels left. -/
def nestedWithin : Nat → Mode → List String → TransitionM Unit
  | 0, _, names => throw (.tooDeep names)
  | levels + 1, mode, names => s.runWithin levels mode names

theorem runWithin_eq (levels : Nat) (mode : Mode) (names : List String) :
    s.runWithin levels mode names =
      names.forM (s.runOne (s.visit (nestingLimit - levels) (s.nestedWithin levels)) mode) := by
  cases levels <;> rfl

theorem run_eq (mode : Mode) (names : List String) :
    s.run mode names = s.runWithin nestingLimit mode names := rfl

theorem run_singleton_apply (mode : Mode) (name : String) (m : Machine) :
    s.run mode [name] m =
      s.runOne (s.visit 0 (s.nestedWithin nestingLimit)) mode name m := by
  rw [s.run_eq, s.runWithin_eq, forM_cons_apply, Nat.sub_self]
  rcases s.runOne (s.visit 0 (s.nestedWithin nestingLimit)) mode name m with ⟨_ | _, m'⟩ <;> rfl

end Site

namespace TransitionM

variable {α β : Type}

/-- From a state that satisfies the first property a success leads to one that does so again, and a
fault to one that satisfies the second. -/
def Maintains (P E : Machine → Prop) (x : TransitionM α) : Prop :=
  ∀ m, P m → match x m with
    | (.ok _, m') => P m'
    | (.error _, m') => E m'

variable {P E : Machine → Prop}

theorem maintains_pure (a : α) : Maintains P E (pure a) := fun _ h => h

theorem Maintains.bind {x : TransitionM α} {f : α → TransitionM β} (hx : Maintains P E x)
    (hf : ∀ a, Maintains P E (f a)) : Maintains P E (x >>= f) := by
  intro m hm
  have h := hx m hm
  rw [bind_apply]
  rcases hr : x m with ⟨fault | a, m'⟩ <;> rw [hr] at h
  · exact h
  · exact hf a m' h

theorem Maintains.forM {f : β → TransitionM PUnit} (l : List β)
    (hf : ∀ b ∈ l, Maintains P E (f b)) : Maintains P E (l.forM f) := by
  induction l with
  | nil => exact maintains_pure _
  | cons b rest ih =>
    obtain ⟨hb, hr⟩ := List.forall_mem_cons.1 hf
    show Maintains P E (f b >>= fun _ => rest.forM f)
    exact hb.bind fun _ => ih hr

theorem maintains_get_bind {f : Machine → TransitionM α} (hf : ∀ m, P m → Maintains P E (f m)) :
    Maintains P E (get >>= f) := by
  intro m hm
  rw [bind_apply, get_apply, proceed_ok]
  exact hf m hm m hm

theorem maintains_iff_snd {x : TransitionM α} : Maintains P P x ↔ ∀ m, P m → P (x m).2 := by
  constructor
  · intro h m hm
    have hx := h m hm
    rcases hr : x m with ⟨_ | _, m'⟩ <;> rwa [hr] at hx
  · intro h m hm
    have hx := h m hm
    rcases hr : x m with ⟨_ | _, m'⟩ <;> rwa [hr] at hx

theorem maintains_of_ok {x : TransitionM Unit}
    (h : ∀ m m', P m → x m = (.ok (), m') → P m') : Maintains P (fun _ => True) x := by
  intro m hm
  rcases hr : x m with ⟨_ | _, m'⟩
  · trivial
  · exact h m m' hm hr

theorem Maintains.of_ok {x : TransitionM α} (hx : Maintains P E x) {m m' : Machine} {a : α}
    (hm : P m) (h : x m = (.ok a, m')) : P m' := by
  have hp := hx m hm
  rwa [h] at hp

end TransitionM

namespace Operation

open TransitionM

/-- What an operation does before it writes. A display stages nothing. -/
def staging (s : Site) : Operation → TransitionM Unit
  | .load names => s.run .load names
  | .unload names => s.run .unload names
  | .swap old new => do
    s.run .unload [old]
    s.run .load [new]
  | .reload names => names.forM fun name => do
    s.run .unload [name]
    s.run .load [name]
  | .reloadAll => do
    (← get).loaded.oldestFirst.forM fun entry => do
      s.run .unload [entry.text]
      s.run .load [entry.package]
  | .unloadAll => do
    (← get).loaded.entries.forM fun entry => s.run .unload [entry.text]
  | .display _ => pure ()

/-- Every operation that is no display writes once, after all its modules were taken through. -/
theorem transition_eq (s : Site) (op : Operation) (h : ∀ names, op ≠ .display names) :
    op.transition s = op.staging s >>= fun _ => flush := by
  cases op with
  | load names => rfl
  | unload names => rfl
  | swap old new =>
    show s.swap old new = _
    simp only [Site.swap, staging, bind_assoc]
  | reload names => rfl
  | reloadAll =>
    show s.reloadAll = _
    simp only [Site.reloadAll, staging, bind_assoc]
  | unloadAll =>
    show s.unloadAll = _
    simp only [Site.unloadAll, staging, bind_assoc]
  | display names => exact absurd rfl (h names)

/-- The names of the modules that an operation asks to load. -/
def loads : Operation → List String
  | .load names => names
  | .swap _ new => [new]
  | .reload names => names
  | _ => []

/-- What every unload maintains, and every load of names that are in use. A reload of all modules asks for
their packages. -/
theorem staging_maintains {P E : Machine → Prop} {s : Site} {used : String → Prop}
    (hu : ∀ names, Maintains P E (s.run .unload names))
    (hl : ∀ names, (∀ n ∈ names, used n) → Maintains P E (s.run .load names))
    (hp : ∀ m, P m → ∀ entry ∈ m.loaded.entries, used entry.package) {op : Operation}
    (ho : ∀ n ∈ op.loads, used n) : Maintains P E (op.staging s) := by
  have load_one {name : String} (hn : used name) : Maintains P E (s.run .load [name]) := by
    apply hl
    intro n hm
    rw [List.mem_singleton.1 hm]
    exact hn
  cases op with
  | load names => exact hl names ho
  | unload names => exact hu names
  | swap old new => exact (hu _).bind fun _ => hl _ ho
  | reload names =>
    apply Maintains.forM
    intro name hn
    exact (hu _).bind fun _ => load_one (ho name hn)
  | reloadAll =>
    apply maintains_get_bind
    intro m hm
    -- The modules are those of the machine at the start, so that their packages are known to be in use.
    apply Maintains.forM
    intro entry he
    have hused : used entry.package := hp m hm entry (List.mem_reverse.1 he)
    exact (hu _).bind fun _ => load_one hused
  | unloadAll =>
    apply maintains_get_bind
    intro m _
    exact Maintains.forM _ fun entry _ => hu _
  | display names => exact maintains_pure ()

end Operation

end EnvModules
