import EnvModules.Proofs.Convergence
import EnvModules.Proofs.Targets

/-!
What the loading of modules keeps. It is enough that the record can be changed by the transition alone, and
that what is kept survives a module that is recorded. How modules bring in each other does not matter then,
be it in cycles.
-/

namespace EnvModules

open Statement TransitionM

namespace Site

variable (s : Site) (used : String → Prop)

/-- A registry whose descriptors leave the record of loaded modules to the transition, as far as names in use
lead to them. The full names of its modules are read back from the record as they are, and whatever they bring
in is in use, which says nothing if every name is. -/
structure Regular : Prop where
  free : ∀ found, s.Offers used found → ':' ∉ found.name.text.toList
  parse : ∀ found, s.Offers used found → Name.parse found.name.text = found.name
  spares : ∀ found, s.Offers used found → ∀ st ∈ blockLeaves (s.body found.path),
    loadedVariable ∉ s.config.targets found.name st
  incoming : ∀ found, s.Offers used found → ∀ st ∈ blockLeaves (s.body found.path), ∀ text ∈ st.incoming,
    ∀ env : Environment, used (env.expand text)

/-- Some module that a name in use leads to swaps others. -/
def Swaps : Prop :=
  ∃ found, s.Offers used found ∧ ∃ st ∈ blockLeaves (s.body found.path), st.isSwap = true

/-- A property of machines that depends on the record and the visits alone, and that holds on when a module is
recorded. If there are swaps it holds on over unloads as well. -/
structure Stable (P : Machine → Prop) : Prop where
  agrees : ∀ {m m'}, m.AgreesAt loadedVariable m' → P m → P m'
  enters : ∀ {m found} depth, s.Offers used found → m.loaded.contains found.name = false → P m →
    P (m.entering depth .load found.name)
  unloads : s.Swaps used → ∀ levels names, Maintains P P (s.runWithin levels .unload names)

variable {s used} in
theorem Regular.canonical (hr : s.Regular used) (found : Resolved) (hf : s.Offers used found) :
    found.name.IsCanonical := by
  have ⟨name, _, h⟩ := hf
  exact ⟨⟨Registry.text_ne_empty_of_resolve h, hr.free found hf⟩, hr.parse found hf⟩

variable {s} in
theorem offers_of_names {names : List String} {modules : List Resolved}
    (h : ∀ n ∈ names, s.registry.resolve s.tree (.parse n) ∈ modules.map fun found => .ok (some found))
    {found : Resolved} (hf : s.Offers (· ∈ names) found) : found ∈ modules := by
  obtain ⟨name, hn, hr⟩ := hf
  obtain ⟨found', hm, he⟩ := List.mem_map.1 (hr ▸ h name hn)
  obtain rfl := Option.some.inj (Except.ok.inj he)
  exact hm

variable {s} in
/-- Finitely many names can be checked one by one, if no name of a module that is brought in has references. -/
theorem Regular.of_names {names : List String} {modules : List Resolved}
    (h : ∀ n ∈ names, s.registry.resolve s.tree (.parse n) ∈ modules.map fun found => .ok (some found))
    (hc : ∀ found ∈ modules, found.name.IsCanonical)
    (hs : ∀ found ∈ modules, ∀ st ∈ blockLeaves (s.body found.path),
      loadedVariable ∉ s.config.targets found.name st)
    (hi : ∀ found ∈ modules, ∀ st ∈ blockLeaves (s.body found.path), ∀ text ∈ st.incoming,
      '$' ∉ text.toList ∧ text ∈ names) : s.Regular (· ∈ names) where
  free found hf := (hc found (offers_of_names h hf)).isSegment.free
  parse found hf := (hc found (offers_of_names h hf)).parse
  spares found hf := hs found (offers_of_names h hf)
  incoming found hf st hst text ht env := by
    obtain ⟨hd, hm⟩ := hi found (offers_of_names h hf) st hst text ht
    rwa [env.expand_of_not_mem hd]

/-- What holds before a visit, after the statements and after the module has been left holds after the visit,
whether it fails or not. -/
theorem visit_keeps {P : Machine → Prop} {depth : Nat} {nested : Mode → List String → TransitionM Unit}
    {mode : Mode} {found : Resolved} {m : Machine} (hm : P m)
    (hb : P (Subject.runBlock ⟨s, found.name, mode, nested⟩ (s.body found.path)
      ⟨m.entering depth mode found.name, .equal⟩).2.machine)
    (hl : ∀ m, P m → P (m.leaving mode found.name)) : P (s.visit depth nested mode found m).2 := by
  rw [s.visit_apply]
  cases hst : s.statements found.path with
  | error fault => exact hm
  | ok statements =>
    obtain rfl : s.body found.path = statements := by rw [body, hst]; rfl
    simp only [EvaluationM.toTransition]
    rcases hx : Subject.runBlock ⟨s, found.name, mode, nested⟩ (s.body found.path)
      ⟨m.entering depth mode found.name, .equal⟩ with ⟨fault | u, e⟩ <;> rw [hx] at hb
    · exact hb
    · exact hl e.machine hb

namespace Stable

variable {s used} {P : Machine → Prop} (h : s.Stable used P) (hr : s.Regular used)
variable {found : Resolved} {nested : Mode → List String → TransitionM Unit}
include h hr

theorem runStatement (hf : s.Offers used found)
    (hl : ∀ names, (∀ n ∈ names, used n) → Maintains P P (nested .load names))
    (hu : s.Swaps used → ∀ names, Maintains P P (nested .unload names)) {st : Statement}
    (hst : st ∈ blockLeaves (s.body found.path)) {e : Evaluation} (he : P e.machine) :
    P (Subject.runStatement ⟨s, found.name, .load, nested⟩ st e).2.machine := by
  have hused := hr.incoming found hf st hst
  have plain (hp : Subject.IsPlain ⟨s, found.name, .load, nested⟩ st) :
      P (Subject.runStatement ⟨s, found.name, .load, nested⟩ st e).2.machine :=
    h.agrees (Subject.agreesAt_runStatement _ hp (hr.spares found hf st hst) e) he
  cases st with
  | load names =>
    rw [Subject.runStatement_load_apply _ _ _ rfl, Subject.ofTransition_apply]
    have hn : ∀ n ∈ names.map e.machine.env.expand, used n := by
      intro n hn
      obtain ⟨text, ht, rfl⟩ := List.mem_map.1 hn
      exact hused text ht _
    exact maintains_iff_snd.1 (hl _ hn) e.machine he
  | swap old new =>
    rw [Subject.runStatement_swap_apply _ _ _ _ rfl, Subject.ofTransition_apply]
    have hm := maintains_iff_snd.1 (hu ⟨found, hf, _, hst, rfl⟩ [e.machine.env.expand old]) e.machine he
    rcases hx : nested .unload [e.machine.env.expand old] e.machine with ⟨fault | u, m⟩ <;> rw [hx] at hm
    · simp only [hx, proceed_error]
      exact hm
    · simp only [hx, proceed_ok, Subject.ofTransition_apply]
      -- The module that comes in was named before the other one has gone.
      have hn : ∀ n ∈ [e.machine.env.expand new], used n := by
        simpa using hused new List.mem_cons_self e.machine.env
      exact maintains_iff_snd.1 (hl _ hn) m hm
  | choose branches otherwise => exact absurd hst (choose_not_mem_blockLeaves _)
  | _ => exact plain trivial

theorem runBlock (hf : s.Offers used found)
    (hl : ∀ names, (∀ n ∈ names, used n) → Maintains P P (nested .load names))
    (hu : s.Swaps used → ∀ names, Maintains P P (nested .unload names)) {e : Evaluation}
    (he : P e.machine) :
    P (Subject.runBlock ⟨s, found.name, .load, nested⟩ (s.body found.path) e).2.machine :=
  Subject.runBlock_keeps _ (fun _ hst _ he => h.runStatement hr hf hl hu hst he) e he

theorem runOne (hl : ∀ names, (∀ n ∈ names, used n) → Maintains P P (nested .load names))
    (hu : s.Swaps used → ∀ names, Maintains P P (nested .unload names)) (depth : Nat) {name : String}
    (hn : used name) : Maintains P P (s.runOne (s.visit depth nested) .load name) := by
  apply maintains_iff_snd.2
  intro m hm
  rw [s.runOne_apply]
  split
  · exact hm
  · exact hm
  · next found hv =>
    obtain ⟨-, hc⟩ := s.visited_load_eq_ok_iff.1 hv
    have hf : s.Offers used found := offers_of_visited_load hn hv
    apply s.visit_keeps hm
    · exact h.runBlock hr hf hl hu (h.enters depth hf hc hm)
    · intro m hm
      rwa [Machine.leaving_load]

/-- A visit that succeeds leads from where its statements begin to where they end. -/
theorem visit_ok (hf : s.Offers used found)
    (hl : ∀ names, (∀ n ∈ names, used n) → Maintains P P (nested .load names))
    (hu : s.Swaps used → ∀ names, Maintains P P (nested .unload names)) {depth : Nat} {m m' : Machine}
    (hm : P (m.entering depth .load found.name))
    (hv : s.visit depth nested .load found m = (.ok (), m')) : P m' := by
  obtain ⟨statements, e, hst, hb, rfl⟩ := s.visit_eq_ok hv
  obtain rfl : s.body found.path = statements := by rw [body, hst]; rfl
  have he := h.runBlock hr hf hl hu (e := ⟨m.entering depth .load found.name, .equal⟩) hm
  rw [hb] at he
  rwa [Machine.leaving_load]

/-- Whatever modules of names in use are loaded, and bring in, the property is kept, even by a load that
fails. -/
theorem runWithin (levels : Nat) {names : List String} (hn : ∀ n ∈ names, used n) :
    Maintains P P (s.runWithin levels .load names) := by
  -- The induction is on the levels of nesting that are left. On the last one, to bring in modules fails.
  induction levels generalizing names with
  | zero =>
    have hnested (mode : Mode) (names : List String) : Maintains P P (s.nestedWithin 0 mode names) :=
      maintains_iff_snd.2 fun m hm => hm
    rw [s.runWithin_eq]
    apply Maintains.forM
    intro name hname
    exact h.runOne hr (fun names _ => hnested .load names) (fun _ names => hnested .unload names) _
      (hn name hname)
  | succ levels ih =>
    rw [s.runWithin_eq]
    apply Maintains.forM
    intro name hname
    exact h.runOne hr (fun names hu => ih hu) (fun hs names => h.unloads hs levels names) _ (hn name hname)

theorem nestedWithin (levels : Nat) {names : List String} (hn : ∀ n ∈ names, used n) :
    Maintains P P (s.nestedWithin levels .load names) := by
  cases levels with
  | zero => exact maintains_iff_snd.2 fun m hm => hm
  | succ levels => exact h.runWithin hr levels hn

end Stable

end Site

end EnvModules
