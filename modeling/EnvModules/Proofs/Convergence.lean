import EnvModules.Proofs.Layers
import EnvModules.Proofs.Perform
import EnvModules.Proofs.Record
import EnvModules.Proofs.Resolution

/-!
A registry whose descriptors refer to no variables and keep to the roles of variables. The variables of a
session then follow from the modules that are loaded, whatever has been loaded and unloaded before.
-/

namespace EnvModules

theorem Piece.ofChars_of_not_mem {closable : Bool} {cs : List Char} (h : '$' ∉ cs) :
    Piece.ofChars closable cs = cs.map .char := by
  induction cs with
  | nil => rw [Piece.ofChars, List.map_nil]
  | cons c cs ih =>
    obtain ⟨hc, hr⟩ := not_or.1 (mt List.mem_cons.2 h)
    rw [Piece.ofChars, ih hr, List.map_cons]
    all_goals
      intros
      simp_all

theorem Environment.expand_of_not_mem (env : Environment) {text : String} (h : '$' ∉ text.toList) :
    env.expand text = text := by
  rw [expand, expandWith, Piece.ofChars_of_not_mem h, List.flatMap_map]
  simp [Piece.value]

/-- What a statement asks for in a descriptor of this module, if its texts have no references. -/
def Config.deeds (c : Config) (n : Name) : Statement → List Intent
  | .setVariable value name => [.assign value name]
  | .setPackageVariable value ending => [.assign value (n.varName ending)]
  | .prependPath value name => [.prepend value name]
  | .install location directory =>
    .assign directory (n.varName location.ending) ::
      (c.sharedVariable? location).toList.map (.prepend directory)
  | _ => []

/-- The statements whose effect does not depend on any variable. -/
def Statement.IsStatic : Statement → Prop
  | .setVariable value _ => '$' ∉ value.toList
  | .setPackageVariable value _ => '$' ∉ value.toList
  | .prependPath value _ => '$' ∉ value.toList
  | .install _ directory => '$' ∉ directory.toList
  | .load names => ∀ n ∈ names, '$' ∉ n.toList
  | .installTree _ => False
  | .swap _ _ => False
  | .choose _ _ => False
  | _ => True

instance : DecidablePred Statement.IsStatic
  | .setVariable value _ | .setPackageVariable value _ | .prependPath value _ | .install _ value =>
    inferInstanceAs (Decidable ('$' ∉ value.toList))
  | .load names => inferInstanceAs (Decidable (∀ n ∈ names, '$' ∉ n.toList))
  | .installTree _ | .swap _ _ | .choose _ _ => inferInstanceAs (Decidable False)
  | .require _ | .conflict _ | .describe _ | .matchVersions _ => inferInstanceAs (Decidable True)

def Statement.loads : Statement → List String
  | .load names => names
  | _ => []

namespace Statement.IsStatic

variable {st : Statement} {s : Subject}

theorem intents_eq (h : st.IsStatic) (hm : s.mode ≠ .display) (env : Environment) :
    s.intents env st = s.site.config.deeds s.name st := by
  -- Of all statements only this one has its text replaced before it is known what is asked for.
  cases st with
  | install location directory =>
    rw [Subject.intents, env.expand_of_not_mem h]
    rfl
  | installTree root => exact h.elim
  | swap old new => exact h.elim
  | choose branches otherwise => exact h.elim
  | require names => exact if_neg hm
  | conflict names => exact if_neg hm
  | load names => exact if_neg hm
  | describe text => exact if_neg hm
  | _ => rfl

theorem expanded_eq (h : st.IsStatic) {c : Config} {n : Name} {i : Intent} (hi : i ∈ c.deeds n st)
    (env : Environment) : i.expanded env = i := by
  have fixed {text : String} (ht : '$' ∉ text.toList) (name : String) :
      (Intent.assign text name).expanded env = .assign text name ∧
        (Intent.prepend text name).expanded env = .prepend text name := by
    rw [Intent.expanded, Intent.expanded, env.expand_of_not_mem ht]
    exact ⟨rfl, rfl⟩
  cases st with
  | setVariable value name =>
    obtain rfl := List.mem_singleton.1 hi
    exact (fixed h _).1
  | setPackageVariable value ending =>
    obtain rfl := List.mem_singleton.1 hi
    exact (fixed h _).1
  | prependPath value name =>
    obtain rfl := List.mem_singleton.1 hi
    exact (fixed h _).2
  | install location directory =>
    rcases List.mem_cons.1 hi with rfl | hi
    · exact (fixed h _).1
    · obtain ⟨shared, -, rfl⟩ := List.mem_map.1 hi
      exact (fixed h _).2
  | _ => exact absurd hi List.not_mem_nil

end Statement.IsStatic

theorem Intent.settle_of_expanded_eq {intents : List Intent}
    (h : ∀ i ∈ intents, ∀ env : Environment, i.expanded env = i) (forward : Bool)
    (env : Environment) : settle forward env intents = intents := by
  induction intents generalizing env with
  | nil => rfl
  | cons i rest ih =>
    obtain ⟨hi, hr⟩ := List.forall_mem_cons.1 h
    rw [settle, hi, ih hr]

namespace Site

variable (s : Site) (used : String → Prop)

/-- A module that a name in use leads to. Not every name can be asked for: an absolute version leads around
the roots, and to each module under names that are not its own. -/
def Offers (found : Resolved) : Prop :=
  ∃ name, used name ∧ s.registry.resolve s.tree (.parse name) = .ok (some found)

/-- The statements of a descriptor, if it can be read. -/
def body (path : Path) : List Statement := (s.statements path).toOption.getD []

/-- What the descriptor of a module asks for, in order. -/
def deeds (n : Name) : List Intent :=
  match s.registry.resolve s.tree n with
  | .ok (some found) => (s.body found.path).flatMap (s.config.deeds found.name)
  | _ => []

/-- The full name of a module that a name in use leads to. -/
def Known (n : Name) : Prop := ∃ path, s.Offers used ⟨n, path⟩

def lists (name : String) : Prop :=
  ∃ found, s.Offers used found ∧ name ∈ Intent.listed (s.deeds found.name)

def values (name : String) : Prop :=
  ∃ found, s.Offers used found ∧ name ∈ Intent.assigned (s.deeds found.name)

/-- A registry whose modules do not get into each other's way, as far as names in use lead to them, which may
be all names. The full name of each is kept apart in the record and leads back to it. Its statements are
static, and all that it loads in turn is in use. Nowhere is a variable both set and used as a list. -/
structure Orderly : Prop where
  free : ∀ found, s.Offers used found → ':' ∉ found.name.text.toList
  parse : ∀ found, s.Offers used found → Name.parse found.name.text = found.name
  resolve : ∀ found, s.Offers used found → s.registry.resolve s.tree found.name = .ok (some found)
  package : ∀ found, s.Offers used found → used found.name.package
  static : ∀ found, s.Offers used found → ∀ st ∈ s.body found.path, st.IsStatic
  loads : ∀ found, s.Offers used found → ∀ st ∈ s.body found.path, ∀ n ∈ st.loads, used n
  segments : ∀ found, s.Offers used found → ∀ name ∈ Intent.listed (s.deeds found.name),
    ∀ value ∈ Intent.segmentsFor name (s.deeds found.name), IsSegment value
  disjoint : ∀ name, s.lists used name → ¬ s.values used name
  not_lists_loaded : ¬ s.lists used loadedVariable
  not_values_loaded : ¬ s.values used loadedVariable

namespace Orderly

variable {s used} {found : Resolved} (h : s.Orderly used)
include h

def roles : Roles where
  lists := s.lists used
  values := s.values used
  disjoint := h.disjoint
  not_lists_loaded := h.not_lists_loaded
  not_values_loaded := h.not_values_loaded

theorem isCanonical {n : Name} (hn : s.Known used n) : n.IsCanonical := by
  obtain ⟨path, hf⟩ := hn
  exact ⟨⟨Registry.text_ne_empty_of_resolve (h.resolve ⟨n, path⟩ hf), h.free ⟨n, path⟩ hf⟩,
    h.parse ⟨n, path⟩ hf⟩

theorem fits (hf : s.Offers used found) : ∀ i ∈ s.deeds found.name, i.Fits h.roles := by
  intro i hi
  cases i with
  | assign value name => exact ⟨found, hf, List.mem_filterMap.2 ⟨_, hi, rfl⟩⟩
  | prepend value name =>
    have hl : name ∈ Intent.listed (s.deeds found.name) := List.mem_filterMap.2 ⟨_, hi, rfl⟩
    exact ⟨⟨found, hf, hl⟩, h.segments found hf name hl value
      (List.mem_filterMap.2 ⟨_, hi, Intent.segmentFor?_prepend value name⟩)⟩
  | report effect name value => trivial

theorem deeds_eq (hf : s.Offers used found) :
    s.deeds found.name = (s.body found.path).flatMap (s.config.deeds found.name) := by
  rw [deeds, h.resolve found hf]

end Orderly

/-- An environment in which modules are loaded. All they ask for is in force, except for what is still
owed. -/
structure Carries (r : Roles) (start : Environment) (names : List Name) (owed : List Intent)
    (env : Environment) : Prop where
  known : ∀ n ∈ names, s.Known used n
  record : env.Lists loadedVariable (names.map Name.text)
  rests : ∃ deeds, env.Rests r start deeds ∧ (deeds ++ owed).Perm (names.flatMap s.deeds)

/-- A machine that changes variables and has come from a start by loading and unloading modules. -/
def Holds (r : Roles) (start : Environment) (owed : List Intent) (m : Machine) : Prop :=
  m.backend.isDisplay = false ∧ ∃ names, s.Carries used r start names owed m.env

namespace Carries

variable {s used} {r : Roles} {start env : Environment} {names : List Name} {owed : List Intent}

theorem entries_eq (ho : s.Orderly used) (h : s.Carries used r start names owed env) :
    (Loaded.ofEnvironment env).entries = names :=
  Loaded.entries_of_segments h.record.segments fun n hn => ho.isCanonical (h.known n hn)

/-- A module is recorded. All that its descriptor asks for is owed from then on. -/
theorem enter (ho : s.Orderly used) (h : s.Carries used r start names owed env) {found : Resolved}
    (hf : s.Offers used found) :
    s.Carries used r start (found.name :: names) (s.deeds found.name ++ owed)
      (env.changePath true found.name.text loadedVariable).1 where
  known := List.forall_mem_cons.2 ⟨⟨found.path, hf⟩, h.known⟩
  record := h.record.prepend (ho.isCanonical ⟨found.path, hf⟩).isSegment
  rests := by
    obtain ⟨deeds, hr, hp⟩ := h.rests
    refine ⟨deeds, hr.record true _, ?_⟩
    rw [List.flatMap_cons]
    calc
      deeds ++ (s.deeds found.name ++ owed)
      _ = deeds ++ s.deeds found.name ++ owed := (List.append_assoc _ _ _).symm
      List.Perm _ (s.deeds found.name ++ deeds ++ owed) := List.perm_append_comm.append_right owed
      _ = s.deeds found.name ++ (deeds ++ owed) := List.append_assoc _ _ _
      List.Perm _ (s.deeds found.name ++ names.flatMap s.deeds) := hp.append_left _

/-- The module that is visited for an unload is a loaded one. -/
theorem offers_of_visited (ho : s.Orderly used) (h : s.Carries used r start names owed env) {name : String}
    {found : Resolved} (hv : s.visited (.ofEnvironment env) name .unload = .ok (some found)) :
    s.Offers used found ∧ found.name ∈ names := by
  obtain ⟨entry, hfind, hl, -⟩ := s.visited_unload_eq_ok hv
  have hentry : entry ∈ names := by
    rw [← h.entries_eq ho]
    exact List.mem_of_find?_eq_some hfind
  obtain ⟨path, hp⟩ := h.known entry hentry
  have hres := ho.resolve ⟨entry, path⟩ hp
  obtain rfl : ⟨entry, path⟩ = found := Option.some.inj (Except.ok.inj (hres.symm.trans hl))
  exact ⟨hp, hentry⟩

theorem settle (h : s.Carries used r start names owed env) {intents rest : List Intent}
    (ho : owed = intents ++ rest) (hf : ∀ i ∈ intents, i.Fits r) :
    s.Carries used r start names rest (Intent.changeAll true env intents) where
  known := h.known
  record := Intent.lists_loaded_changeAll hf true h.record
  rests := by
    obtain ⟨deeds, hr, hp⟩ := h.rests
    refine ⟨intents ++ deeds, hr.addAll hf, ?_⟩
    rw [ho, ← List.append_assoc] at hp
    exact (List.perm_append_comm.append_right rest).trans hp

end Carries

end Site

/-- A static statement that its subject carries out alone makes the same changes in any environment. -/
theorem Subject.env_runStatement (s : Subject) {st : Statement} (hst : st.IsStatic) (hp : s.IsPlain st)
    (hm : s.mode ≠ .display) {e e' : Evaluation} {outcome : Except Fault Unit}
    (hd : e.machine.backend.isDisplay = false) (h : s.runStatement st e = (outcome, e')) :
    e'.machine.backend.isDisplay = false ∧
      e'.machine.env = Intent.changeAll s.mode.isForward e.machine.env
        (s.site.config.deeds s.name st) := by
  rw [s.runStatement_of_isPlain hp, hst.intents_eq hm] at h
  obtain rfl := congrArg Prod.snd h
  refine ⟨by rwa [Intent.isDisplay_performAll], ?_⟩
  rw [Intent.env_performAll _ _ hd, Intent.settle_of_expanded_eq fun i hi => hst.expanded_eq hi]

namespace Site

variable {s : Site} {used : String → Prop} {r : Roles} {start : Environment} {name : Name}
variable {nested : Mode → List String → TransitionM Unit}

/-- A block that is run on a load makes good what is owed for it. What else is owed, for the modules around
it, stays owed. -/
theorem holds_runBlock_load
    (hn : ∀ owed names, (∀ n ∈ names, used n) →
      TransitionM.Maintains (s.Holds used r start owed) (fun _ => True) (nested .load names))
    {statements : List Statement} (hst : ∀ st ∈ statements, st.IsStatic)
    (hu : ∀ st ∈ statements, ∀ n ∈ st.loads, used n)
    (hf : ∀ i ∈ statements.flatMap (s.config.deeds name), i.Fits r) {owed : List Intent}
    {e e' : Evaluation}
    (he : s.Holds used r start (statements.flatMap (s.config.deeds name) ++ owed) e.machine)
    (h : Subject.runBlock ⟨s, name, .load, nested⟩ statements e = (.ok (), e')) :
    s.Holds used r start owed e'.machine := by
  induction statements generalizing e with
  | nil =>
    rw [Subject.runBlock_nil_apply] at h
    obtain rfl := congrArg Prod.snd h
    exact he
  | cons st rest ih =>
    obtain ⟨hs, hrest⟩ := List.forall_mem_cons.1 hst
    obtain ⟨hus, hurest⟩ := List.forall_mem_cons.1 hu
    rw [List.flatMap_cons] at hf he
    rw [Subject.runBlock_cons_apply] at h
    obtain ⟨_, e₁, h₁, h₂⟩ := proceed_eq_ok h
    refine ih hrest hurest (fun i hi => hf i (List.mem_append_right _ hi)) ?_ h₂
    -- A load has nothing of its own to make good, and for what it brings in all this stays owed.
    by_cases hl : ∃ names, st = .load names
    · obtain ⟨names, rfl⟩ := hl
      have hid : names.map e.machine.env.expand = names :=
        (List.map_congr_left fun n hn => e.machine.env.expand_of_not_mem (hs n hn)).trans
          (List.map_id names)
      rw [Subject.runStatement_load_apply _ _ _ rfl, hid] at h₁
      exact (hn _ names hus).of_ok he (Subject.ofTransition_eq h₁)
    · have hp : Subject.IsPlain ⟨s, name, .load, nested⟩ st := by
        cases st with
        | load names => exact absurd ⟨names, rfl⟩ hl
        | swap old new => exact hs.elim
        | choose branches otherwise => exact hs.elim
        | _ => trivial
      obtain ⟨hd, names, hc⟩ := he
      obtain ⟨hd', henv⟩ := Subject.env_runStatement _ hs hp nofun hd h₁
      refine ⟨hd', names, ?_⟩
      rw [henv]
      exact hc.settle (List.append_assoc _ _ _) fun i hi => hf i (List.mem_append_left _ hi)

/-- A block that is run on an unload takes back what it had asked for. -/
theorem rests_runBlock_unload {statements : List Statement}
    (hst : ∀ st ∈ statements, st.IsStatic) {deeds : List Intent} {entries : List String}
    {e e' : Evaluation} (hd : e.machine.backend.isDisplay = false)
    (hr : e.machine.env.Rests r start (statements.flatMap (s.config.deeds name) ++ deeds))
    (hl : e.machine.env.Lists loadedVariable entries)
    (h : Subject.runBlock ⟨s, name, .unload, nested⟩ statements e = (.ok (), e')) :
    e'.machine.backend.isDisplay = false ∧ e'.machine.env.Rests r start deeds ∧
      e'.machine.env.Lists loadedVariable entries := by
  induction statements generalizing e with
  | nil =>
    rw [Subject.runBlock_nil_apply] at h
    obtain rfl := congrArg Prod.snd h
    exact ⟨hd, hr, hl⟩
  | cons st rest ih =>
    obtain ⟨hs, hrest⟩ := List.forall_mem_cons.1 hst
    rw [Subject.runBlock_cons_apply] at h
    obtain ⟨_, e₁, h₁, h₂⟩ := proceed_eq_ok h
    have hp : Subject.IsPlain ⟨s, name, .unload, nested⟩ st := by
      apply Subject.isPlain_of_mode_ne
      · exact nofun
      · rintro branches otherwise rfl
        exact hs.elim
    obtain ⟨hd', henv⟩ := Subject.env_runStatement _ hs hp nofun hd h₁
    rw [List.flatMap_cons, List.append_assoc] at hr
    refine ih hrest hd' ?_ ?_ h₂
    · rw [henv]
      exact hr.takeAll
    · rw [henv]
      exact Intent.lists_loaded_changeAll (fun i hi => hr.fits i (List.mem_append_left _ hi)) false hl

/-- A module is loaded, while what the modules around it have still to ask for is owed. -/
theorem holds_visit_load (ho : s.Orderly used)
    (hn : ∀ owed names, (∀ n ∈ names, used n) →
      TransitionM.Maintains (s.Holds used ho.roles start owed) (fun _ => True) (nested .load names))
    {found : Resolved} (hf : s.Offers used found) (depth : Nat)
    (owed : List Intent) :
    TransitionM.Maintains (s.Holds used ho.roles start owed) (fun _ => True)
      (s.visit depth nested .load found) := by
  apply TransitionM.maintains_of_ok
  intro m m' hm hv
  obtain ⟨statements, e, hst, hb, rfl⟩ := s.visit_eq_ok hv
  obtain ⟨hd, names, hc⟩ := hm
  obtain rfl : s.body found.path = statements := by rw [body, hst]; rfl
  have hdeeds := ho.deeds_eq hf
  rw [Machine.leaving_load]
  refine holds_runBlock_load hn (ho.static found hf) (ho.loads found hf) ?_ ?_ hb
  · rw [← hdeeds]
    exact ho.fits hf
  · refine ⟨by simpa using hd, found.name :: names, ?_⟩
    rw [← hdeeds]
    show s.Carries used _ _ _ _ (m.entering depth .load found.name).env
    rw [Machine.env_entering_load _ _ hd]
    exact hc.enter ho hf

theorem holds_visit_unload (ho : s.Orderly used) {found : Resolved} {depth : Nat} {m m' : Machine}
    {names : List Name} (hd : m.backend.isDisplay = false)
    (hc : s.Carries used ho.roles start names [] m.env) (hf : s.Offers used found) (hm : found.name ∈ names)
    (h : s.visit depth nested .unload found m = (.ok (), m')) :
    s.Holds used ho.roles start [] m' := by
  obtain ⟨statements, e, hst, hb, rfl⟩ := s.visit_eq_ok h
  obtain rfl : s.body found.path = statements := by rw [body, hst]; rfl
  obtain ⟨deeds, hr, hp⟩ := hc.rests
  -- The order in which modules were loaded does not count, and this one can be taken for the last.
  have hperm : deeds.Perm (s.deeds found.name ++ (names.erase found.name).flatMap s.deeds) := by
    calc
      deeds = deeds ++ [] := (List.append_nil _).symm
      List.Perm _ (names.flatMap s.deeds) := hp
      List.Perm _ ((found.name :: names.erase found.name).flatMap s.deeds) :=
        (List.perm_cons_erase hm).flatMap_right _
      _ = _ := List.flatMap_cons
  rw [ho.deeds_eq hf] at hperm
  have hdm : (m.entering depth .unload found.name).backend.isDisplay = false := by simpa using hd
  obtain ⟨hde, hre, hle⟩ := rests_runBlock_unload (ho.static found hf)
    (e := ⟨m.entering depth .unload found.name, .equal⟩) hdm
    (by rw [Machine.env_entering_unload]; exact hr.perm hperm)
    (by rw [Machine.env_entering_unload]; exact hc.record) hb
  refine ⟨by simpa using hde, names.erase found.name, ?_⟩
  rw [Machine.env_leaving_unload _ hde]
  have hk : ∀ n ∈ names.erase found.name, s.Known used n := fun n hn => hc.known n (List.mem_of_mem_erase hn)
  have hcanonical : ∀ n ∈ names.erase found.name, n.IsCanonical := fun n hn => ho.isCanonical (hk n hn)
  have herase := Name.map_text_erase (ho.isCanonical ⟨found.path, hf⟩) fun n hn => ho.isCanonical (hc.known n hn)
  refine ⟨hk, ?_, _, hre.record false _, by rw [List.append_nil]⟩
  rw [← herase]
  apply hle.remove
  rw [herase]
  exact Name.isEntries_map_text hcanonical

theorem offers_of_visited_load {loaded : Loaded} {name : String} {found : Resolved} (hu : used name)
    (h : s.visited loaded name .load = .ok (some found)) : s.Offers used found :=
  ⟨name, hu, s.find_eq_ok_iff.1 (s.visited_load_eq_ok_iff.1 h).1⟩

theorem holds_runOne_load (ho : s.Orderly used)
    (hn : ∀ owed names, (∀ n ∈ names, used n) →
      TransitionM.Maintains (s.Holds used ho.roles start owed) (fun _ => True) (nested .load names))
    (depth : Nat) (owed : List Intent) {name : String} (hu : used name) :
    TransitionM.Maintains (s.Holds used ho.roles start owed) (fun _ => True)
      (s.runOne (s.visit depth nested) .load name) := by
  apply TransitionM.maintains_of_ok
  intro m m' hm h
  rcases s.runOne_eq_ok h with rfl | ⟨found, hf, hv⟩
  · exact hm
  · have hoffers : s.Offers used found := offers_of_visited_load hu hf
    exact (holds_visit_load ho hn hoffers depth owed).of_ok hm hv

theorem holds_runOne_unload (ho : s.Orderly used) (depth : Nat) (name : String) :
    TransitionM.Maintains (s.Holds used ho.roles start []) (fun _ => True)
      (s.runOne (s.visit depth nested) .unload name) := by
  apply TransitionM.maintains_of_ok
  intro m m' hm h
  rcases s.runOne_eq_ok h with rfl | ⟨found, hf, hv⟩
  · exact hm
  · obtain ⟨hd, names, hc⟩ := hm
    obtain ⟨hoffers, hmem⟩ := hc.offers_of_visited ho hf
    exact holds_visit_unload ho hd hc hoffers hmem hv

theorem holds_runWithin_load (ho : s.Orderly used) (levels : Nat) (owed : List Intent)
    {names : List String} (hu : ∀ n ∈ names, used n) :
    TransitionM.Maintains (s.Holds used ho.roles start owed) (fun _ => True)
      (s.runWithin levels .load names) := by
  -- A level down, the modules around are owed more.
  induction levels generalizing owed names with
  | zero =>
    rw [s.runWithin_eq]
    apply TransitionM.Maintains.forM
    intro name hn
    refine holds_runOne_load ho (fun _ _ _ => ?_) _ owed (hu name hn)
    apply TransitionM.maintains_of_ok
    intro m m' _ h
    exact absurd h error_ne_ok
  | succ levels ih =>
    rw [s.runWithin_eq]
    apply TransitionM.Maintains.forM
    intro name hn
    exact holds_runOne_load ho (fun owed _ hu => ih owed hu) _ owed (hu name hn)

/-- Whatever is loaded and unloaded, what the loaded modules ask for is in force, and nothing else. -/
theorem holds_staging (ho : s.Orderly used) {op : Operation} (hu : ∀ n ∈ op.loads, used n) :
    TransitionM.Maintains (s.Holds used ho.roles start []) (fun _ => True) (op.staging s) := by
  refine Operation.staging_maintains ?_
    (fun names hn => holds_runWithin_load ho nestingLimit [] hn) ?_ hu
  · intro names
    rw [s.run_eq, s.runWithin_eq]
    exact TransitionM.Maintains.forM names fun name _ => holds_runOne_unload ho _ name
  · -- The modules that a reload of all begins with are known, and so their packages are in use.
    intro m hm entry he
    obtain ⟨-, names, hc⟩ := hm
    rw [Machine.loaded, hc.entries_eq ho] at he
    obtain ⟨path, hf⟩ := hc.known entry he
    exact ho.package ⟨entry, path⟩ hf

end Site

/-- An operation, with the backend and the streams that it is given. -/
structure Attempt where
  operation : Operation
  backend : Backend
  streams : Streams

namespace Session

/-- Performs operations one after the other on the same files, whether they fail or not. -/
def attemptAll (s : Session) (tree : FileTree) (attempts : List Attempt) : Session :=
  attempts.foldl (fun s a => (s.perform tree a.operation a.backend a.streams).session) s

variable {s : Session} {tree : FileTree} {used : String → Prop} {start : Environment}

/-- Between operations nothing is owed, and nothing awaits an unset. -/
theorem carries_perform (ho : (s.site tree).Orderly used) {names : List Name}
    (hp : s.env.pending = []) (hc : (s.site tree).Carries used ho.roles start names [] s.env)
    {a : Attempt} (hd : a.backend.isDisplay = false) (hu : ∀ n ∈ a.operation.loads, used n) :
    ∃ names env, (s.perform tree a.operation a.backend a.streams).session = { s with env } ∧
      env.pending = [] ∧ (s.site tree).Carries used ho.roles start names [] env := by
  by_cases hop : ∃ names, a.operation = .display names
  · obtain ⟨shown, hop⟩ := hop
    rw [hop, (perform_display hp shown).1]
    exact ⟨names, s.env, rfl, hp, hc⟩
  · -- An operation that has failed leaves the session as it was.
    have hcases : (_ ∧ (s.perform tree a.operation a.backend a.streams).session = s) ∨ _ :=
      session_perform a.operation (fun names he => hop ⟨names, he⟩) hd
    rcases hcases with ⟨-, hs⟩ | ⟨m, hm, hs⟩
    · rw [hs]
      exact ⟨names, s.env, rfl, hp, hc⟩
    · obtain ⟨-, names', hk, hl, deeds, hr, hperm⟩ :=
        (Site.holds_staging ho hu).of_ok ⟨hd, names, hc⟩ hm
      rw [hs]
      exact ⟨names', m.env.applyUnsets, rfl, rfl, hk, hl.applyUnsets, deeds, hr.applyUnsets, hperm⟩

theorem carries_attemptAll (ho : (s.site tree).Orderly used) {names : List Name}
    (hp : s.env.pending = []) (hc : (s.site tree).Carries used ho.roles start names [] s.env)
    {attempts : List Attempt} (hd : ∀ a ∈ attempts, a.backend.isDisplay = false)
    (hu : ∀ a ∈ attempts, ∀ n ∈ a.operation.loads, used n) :
    ∃ names env, s.attemptAll tree attempts = { s with env } ∧ env.pending = [] ∧
      (s.site tree).Carries used ho.roles start names [] env := by
  induction attempts generalizing s names with
  | nil => exact ⟨names, s.env, rfl, hp, hc⟩
  | cons a rest ih =>
    obtain ⟨ha, hrest⟩ := List.forall_mem_cons.1 hd
    obtain ⟨hua, hurest⟩ := List.forall_mem_cons.1 hu
    obtain ⟨names₁, env₁, hs, hp₁, hc₁⟩ := carries_perform ho hp hc ha hua
    obtain ⟨names', env', he, hp', hc'⟩ := ih (s := { s with env := env₁ }) ho hp₁ hc₁ hrest hurest
    refine ⟨names', env', ?_, hp', hc'⟩
    rw [attemptAll, List.foldl_cons, hs]
    exact he

/-- After any operations that ask for names in use, whether they failed or not, the variables follow from
the modules that are loaded. A list variable has the segments of these modules, in some order, in front of
those it has started with. A plain variable has a value from one of them or none, and all other variables
are as they were. If no module is loaded, that holds of all variables. -/
theorem attemptAll_converges (s : Session) (tree : FileTree) (used : String → Prop)
    (ho : (s.site tree).Orderly used) (hb : s.env.Bare ho.roles)
    (hl : s.env.get? loadedVariable = none) (attempts : List Attempt)
    (hd : ∀ a ∈ attempts, a.backend.isDisplay = false)
    (hu : ∀ a ∈ attempts, ∀ n ∈ a.operation.loads, used n) :
    let last := s.attemptAll tree attempts
    let deeds := last.loaded.entries.flatMap (s.site tree).deeds
    (∀ n, (s.site tree).lists used n → ∃ front, front.Perm (Intent.segmentsFor n deeds) ∧
        last.env.segments n = front ++ s.env.segments n) ∧
      (∀ n value, (s.site tree).values used n → last.env.get? n = some value →
        .assign value n ∈ deeds) ∧
      (∀ n, ¬ (s.site tree).lists used n → ¬ (s.site tree).values used n → n ≠ loadedVariable →
        last.env.get? n = s.env.get? n) ∧
      (last.loaded.entries = [] → last.env.vars = s.env.vars) ∧ last.env.pending = [] := by
  intro last deeds
  have hs : s.env.segments loadedVariable = [] :=
    Environment.segments_of_getNonEmpty?_eq_none (by rw [Environment.getNonEmpty?, hl]; rfl)
  have hr : s.env.Lists loadedVariable [] := by
    have hsegments := hb.lists_segments hb.loaded
    rwa [hs] at hsegments
  have hstart : (s.site tree).Carries used ho.roles s.env [] [] s.env :=
    ⟨by simp, hr, [], hb.rests, .refl _⟩
  obtain ⟨names, env, he, hp, hc⟩ := carries_attemptAll ho hb.pending hstart hd hu
  have hlast : last.env = env := congrArg Session.env he
  have hentries : last.loaded.entries = names := by
    rw [loaded, hlast]
    exact hc.entries_eq ho
  obtain ⟨done, hrests, hperm⟩ := hc.rests
  rw [List.append_nil] at hperm
  have hdeeds : env.Rests ho.roles s.env deeds := by
    have hd : deeds = names.flatMap (s.site tree).deeds := by rw [← hentries]
    rw [hd]
    exact hrests.perm hperm
  rw [hlast]
  refine ⟨?_, ?_, ?_, ?_, hp⟩
  · intro n hn
    obtain ⟨front, hf, hlf⟩ := hdeeds.lists n hn
    exact ⟨front, hf, hlf.segments⟩
  · intro n value hn hv
    exact hdeeds.values n value hn (by simp [hp]) hv
  · intro n hln hvn hne
    exact (hdeeds.others n hln hvn hne).1
  · -- With no module loaded nothing is in force, not even in the record.
    intro hnone
    have hempty : deeds = [] := by
      show last.loaded.entries.flatMap _ = []
      rw [hnone, List.flatMap_nil]
    rw [hempty] at hdeeds
    have hrec := hc.record
    rw [← hentries, hnone, List.map_nil] at hrec
    have hv := hb.vars_eq hdeeds (by rwa [hs])
    rwa [Environment.applyUnsets_of_pending_eq_nil hp] at hv

/-- Two modules that put the same segment in front of a list that has it already. -/
theorem attemptAll_converges_of_shared_segment :
    let s : Session := .ofVars [("P", "/a/bin:/usr/bin")]
    let tree := FileTree.ofDescriptors [("a", ["setVar 1 A", "setPath /a/bin P"]),
      ("b", ["prereq a", "load a", "setPath /a/bin P", "setLib /b/lib"])]
    let used (n : String) : Prop := n ∈ ["a", "b"]
    let attempts : List Attempt := [⟨.load ["b"], .silent, .unlimited⟩, ⟨.load ["a", "b"], .silent, .unlimited⟩,
      ⟨.unload ["a"], .commands .posix .empty, .unlimited⟩, ⟨.reloadAll, .silent, .unlimited⟩]
    let last := s.attemptAll tree attempts
    let deeds := last.loaded.entries.flatMap (s.site tree).deeds
    (∀ n, (s.site tree).lists used n → ∃ front, front.Perm (Intent.segmentsFor n deeds) ∧
        last.env.segments n = front ++ s.env.segments n) ∧
      (∀ n value, (s.site tree).values used n → last.env.get? n = some value →
        .assign value n ∈ deeds) ∧
      (∀ n, ¬ (s.site tree).lists used n → ¬ (s.site tree).values used n → n ≠ loadedVariable →
        last.env.get? n = s.env.get? n) ∧
      (last.loaded.entries = [] → last.env.vars = s.env.vars) ∧ last.env.pending = [] := by
  intro s tree used attempts
  let modules : List Resolved := [⟨⟨"a", none⟩, ⟨"/mods/a"⟩⟩, ⟨⟨"b", none⟩, ⟨"/mods/b"⟩⟩]
  have offered (found : Resolved) (hf : (s.site tree).Offers used found) : found ∈ modules := by
    obtain ⟨name, hn, hr⟩ := hf
    have : ∀ n ∈ ["a", "b"], (s.site tree).registry.resolve (s.site tree).tree (.parse n) ∈
        modules.map fun found => .ok (some found) := by
      decide +kernel
    obtain ⟨found', hm, he⟩ := List.mem_map.1 (hr ▸ this name hn)
    exact Option.some.inj (Except.ok.inj he) ▸ hm
  have each {P : Resolved → Prop} (h : ∀ found ∈ modules, P found) (found : Resolved)
      (hf : (s.site tree).Offers used found) : P found := h found (offered found hf)
  let known : List (List Intent) := [[.assign "1" "A", .prepend "/a/bin" "P"],
    [.prepend "/a/bin" "P", .assign "/b/lib" "B_LIB_PATH", .prepend "/b/lib" "LD_LIBRARY_PATH"]]
  have deeds_known (found : Resolved) (hf : (s.site tree).Offers used found) :
      (s.site tree).deeds found.name ∈ known := by
    have : ∀ f ∈ modules, (s.site tree).deeds f.name ∈ known := by decide +kernel
    exact this found (offered found hf)
  have listed : ∀ d ∈ known, ∀ n ∈ Intent.listed d, n ≠ loadedVariable ∧ s.env.get? n ≠ some "" ∧
      ∀ value ∈ Intent.segmentsFor n d, IsSegment value := by
    decide
  have assigned : ∀ d ∈ known, ∀ n ∈ Intent.assigned d, n ≠ loadedVariable ∧ s.env.get? n = none ∧
      ∀ e ∈ known, n ∉ Intent.listed e := by
    decide
  have ho : (s.site tree).Orderly used := by
    refine ⟨each ?_, each ?_, each ?_, each ?_, each ?_, each ?_, ?_, ?_, ?_, ?_⟩
    · decide
    · decide
    · decide +kernel
    · decide
    · decide +kernel
    · decide +kernel
    · exact fun found hf n hn => (listed _ (deeds_known found hf) n hn).2.2
    · rintro n ⟨f, hf, hl⟩ ⟨g, hg, ha⟩
      exact (assigned _ (deeds_known g hg) n ha).2.2 _ (deeds_known f hf) hl
    · rintro ⟨f, hf, hl⟩
      exact (listed _ (deeds_known f hf) _ hl).1 rfl
    · rintro ⟨f, hf, ha⟩
      exact (assigned _ (deeds_known f hf) _ ha).1 rfl
  refine attemptAll_converges s tree used ho ⟨rfl, ?_, ?_, by decide⟩ (by decide) attempts
    (by decide) (by decide)
  · rintro n ⟨f, hf, hl⟩
    exact (listed _ (deeds_known f hf) n hl).2.1
  · rintro n ⟨f, hf, ha⟩
    exact (assigned _ (deeds_known f hf) n ha).2.1

end Session

end EnvModules
