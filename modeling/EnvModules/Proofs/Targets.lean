import EnvModules.Proofs.Layers

/-!
What a descriptor can change at most, read off its statements. A variable that none of them is about comes
through as it was.
-/

namespace EnvModules

namespace Statement

mutual

/-- A statement, or if it is a choice those inside it. -/
def leaves : Statement → List Statement
  | .choose branches otherwise => branchLeaves branches ++ blockLeaves otherwise
  | st => [st]

def branchLeaves : List (Condition × List Statement) → List Statement
  | [] => []
  | (_, body) :: rest => blockLeaves body ++ branchLeaves rest

/-- The statements of a block that are no choices, however deep they lie inside choices. -/
def blockLeaves : List Statement → List Statement
  | [] => []
  | st :: rest => st.leaves ++ blockLeaves rest

end

theorem leaves_of_ne_choose {st : Statement} (h : ∀ branches otherwise, st ≠ .choose branches otherwise) :
    st.leaves = [st] := by
  cases st with
  | choose branches otherwise => exact absurd rfl (h branches otherwise)
  | _ => rfl

theorem blockLeaves_subset_branchLeaves {branches : List (Condition × List Statement)}
    {branch : Condition × List Statement} (h : branch ∈ branches) :
    blockLeaves branch.2 ⊆ branchLeaves branches := by
  induction branches with
  | nil => exact nomatch h
  | cons first rest ih =>
    obtain ⟨condition, body⟩ := first
    rw [branchLeaves]
    rcases List.mem_cons.1 h with rfl | h
    · exact List.subset_append_left _ _
    · exact List.Subset.trans (ih h) (List.subset_append_right _ _)

theorem choose_not_mem_blockLeaves {branches : List (Condition × List Statement)}
    {otherwise : List Statement} (block : List Statement) :
    .choose branches otherwise ∉ blockLeaves block := by
  induction block using Statement.block_induction with
  | nil => exact nofun
  | simple st rest hst ih =>
    rw [blockLeaves, leaves_of_ne_choose hst]
    intro h
    rcases List.mem_cons.1 h with he | h
    · exact hst _ _ he.symm
    · exact ih h
  | choose bs o rest hb ho ih =>
    have hbranches : .choose branches otherwise ∉ branchLeaves bs := by
      clear ho ih
      induction bs with
      | nil => exact nofun
      | cons first others ih' =>
        obtain ⟨hfirst, hothers⟩ := List.forall_mem_cons.1 hb
        rw [branchLeaves]
        exact fun h => (List.mem_append.1 h).elim hfirst (ih' hothers)
    rw [blockLeaves, leaves]
    simp [hbranches, ho, ih]

/-- The names of the modules that a statement brings in on a load. -/
def incoming : Statement → List String
  | .load names => names
  | .swap _ new => [new]
  | _ => []

def isSwap : Statement → Bool
  | .swap _ _ => true
  | _ => false

/-- Whether a statement asks for other modules. -/
def bringsIn : Statement → Bool
  | .load _ | .swap _ _ => true
  | _ => false

end Statement

open Statement

def Location.all : List Location := [.bin, .lib, .man, .headers, .python]

namespace Config

variable (c : Config) (n : Name)

/-- The variables in which a directory of an installation is recorded. -/
def installTargets (location : Location) : List String :=
  n.varName location.ending :: (c.sharedVariable? location).toList

/-- The variables that a statement can change in a descriptor of this module. -/
def targets : Statement → List String
  | .setVariable _ name => [name]
  | .setPackageVariable _ ending => [n.varName ending]
  | .prependPath _ name => [name]
  | .installTree _ => n.varName "ROOT" :: Location.all.flatMap (c.installTargets n)
  | .install location _ => c.installTargets n location
  | _ => []

end Config

/-- Two machines, the second of which has come from the first without any change of one variable. -/
structure Machine.Spares (k : String) (m m' : Machine) : Prop where
  value : m'.env.get? k = m.env.get? k
  pending : k ∈ m'.env.pending ↔ k ∈ m.env.pending
  staged : m'.backend.staged.get? k = m.backend.staged.get? k

/-- Two machines, the second of which has come from the first and is like it as far as one variable goes. -/
structure Machine.AgreesAt (k : String) (m m' : Machine) : Prop extends Machine.Spares k m m' where
  isDisplay : m'.backend.isDisplay = m.backend.isDisplay
  visits : m'.visits = m.visits

/-- What a display takes up is only reported. -/
theorem Intent.apply_of_isDisplay {m : Machine} (hd : m.backend.isDisplay = true) (forward : Bool)
    (i : Intent) :
    (i.apply forward m).env = m.env ∧ (i.apply forward m).backend.staged = m.backend.staged := by
  cases i with
  | assign value name =>
    rw [apply, Machine.setVariable_of_isDisplay _ _ _ _ hd, Machine.report]
    exact ⟨rfl, Machine.staged_report _ _ _ _⟩
  | prepend value name =>
    rw [apply, Machine.setPath_of_isDisplay _ _ _ _ hd, Machine.report]
    exact ⟨rfl, Machine.staged_report _ _ _ _⟩
  | report effect name value => exact ⟨rfl, Machine.staged_report _ _ _ _⟩

namespace Machine.Spares

variable {k : String} {m m' m'' : Machine}

theorem refl (m : Machine) : Spares k m m := ⟨rfl, Iff.rfl, rfl⟩

theorem trans (h : Spares k m m') (h' : Spares k m' m'') : Spares k m m'' where
  value := h'.value.trans h.value
  pending := h'.pending.trans h.pending
  staged := h'.staged.trans h.staged

/-- An intent changes no variable but its target, and a display takes up none. -/
theorem apply {i : Intent} (h : i.target? ≠ some k) (forward : Bool) (m : Machine) :
    Spares k m (i.apply forward m) := by
  cases hd : m.backend.isDisplay with
  | true =>
    obtain ⟨he, hs⟩ := Intent.apply_of_isDisplay hd forward i
    exact ⟨by rw [he], by rw [he], by rw [hs]⟩
  | false =>
    obtain ⟨hg, hp⟩ := Intent.change_of_target_ne h forward m.env
    rw [← Intent.env_apply hd] at hg hp
    refine ⟨hg, hp, ?_⟩
    -- What is staged is staged under the name of the target.
    cases i with
    | assign value name =>
      have hk : k ≠ name := fun he => h (congrArg some he.symm)
      rw [Intent.apply, setVariable_of_not_isDisplay _ _ _ _ hd]
      exact get?_staged_stage name _ _ hk
    | prepend value name =>
      have hk : k ≠ name := fun he => h (congrArg some he.symm)
      rw [Intent.apply, setPath_of_not_isDisplay _ _ _ _ hd]
      exact get?_staged_stage name _ _ hk
    | report effect name value => rw [Intent.apply, report, staged_report]

end Machine.Spares

namespace Machine.AgreesAt

variable {k : String} {m m' m'' : Machine}

theorem refl (m : Machine) : AgreesAt k m m := ⟨.refl m, rfl, rfl⟩

theorem trans (h : AgreesAt k m m') (h' : AgreesAt k m' m'') : AgreesAt k m m'' where
  toSpares := h.toSpares.trans h'.toSpares
  isDisplay := h'.isDisplay.trans h.isDisplay
  visits := h'.visits.trans h.visits

theorem apply {i : Intent} (h : i.target? ≠ some k) (forward : Bool) (m : Machine) :
    AgreesAt k m (i.apply forward m) where
  toSpares := .apply h forward m
  isDisplay := isDisplay_apply m forward i
  visits := by cases i <;> rfl

theorem performAll {intents : List Intent} (h : ∀ i ∈ intents, i.target? ≠ some k) (forward : Bool)
    (m : Machine) : AgreesAt k m (Intent.performAll forward m intents) := by
  induction intents generalizing m with
  | nil => exact refl m
  | cons i rest ih =>
    obtain ⟨hi, hr⟩ := List.forall_mem_cons.1 h
    rw [Intent.performAll_cons]
    have hone : AgreesAt k m ((i.expanded m.env).apply forward m) :=
      apply (by rwa [Intent.target?_expanded]) forward m
    exact hone.trans (ih hr _)

end Machine.AgreesAt

namespace Subject

variable (s : Subject) {k : String}

theorem mem_installTargets {location : Location} {directory : String} {i : Intent}
    (hi : i ∈ s.installing location directory) (ht : i.target? = some k) :
    k ∈ s.site.config.installTargets s.name location := by
  rcases List.mem_cons.1 hi with rfl | hi
  · obtain rfl := Option.some.inj ht
    exact List.mem_cons_self
  · obtain ⟨shared, hs, rfl⟩ := List.mem_map.1 hi
    obtain rfl := Option.some.inj ht
    exact List.mem_cons_of_mem _ hs

theorem target?_of_mem_reporting {effect : Effect} {text : String} {i : Intent}
    (hi : i ∈ s.reporting effect text) : i.target? = none := by
  rw [reporting] at hi
  split at hi
  · rw [List.mem_singleton.1 hi]
    rfl
  · exact absurd hi List.not_mem_nil

/-- What a statement asks for is about its targets, whatever the variables are. -/
theorem mem_targets {env : Environment} {st : Statement} {i : Intent} (hi : i ∈ s.intents env st)
    (ht : i.target? = some k) : k ∈ s.site.config.targets s.name st := by
  have reported {effect : Effect} {text : String} (hr : i ∈ s.reporting effect text) : False := by
    rw [s.target?_of_mem_reporting hr] at ht
    cases ht
  cases st with
  | setVariable value name | setPackageVariable value ending | prependPath value name =>
    rw [List.mem_singleton.1 hi] at ht
    exact List.mem_singleton.2 (Option.some.inj ht).symm
  | installTree root =>
    rw [intents, installingTree] at hi
    split at hi
    · rcases List.mem_cons.1 hi with rfl | hi
      · obtain rfl := Option.some.inj ht
        exact List.mem_cons_self
      · obtain ⟨found, -, hi⟩ := List.mem_flatMap.1 hi
        have hall : found.1 ∈ Location.all := by cases found.1 <;> decide
        exact List.mem_cons_of_mem _
          (List.mem_flatMap.2 ⟨found.1, hall, s.mem_installTargets hi ht⟩)
    · exact absurd hi List.not_mem_nil
  | install location directory => exact s.mem_installTargets hi ht
  | matchVersions policy => exact absurd hi List.not_mem_nil
  | choose branches otherwise => exact absurd hi List.not_mem_nil
  | _ => exact (reported hi).elim

theorem agreesAt_runStatement {st : Statement} (hp : s.IsPlain st)
    (hk : k ∉ s.site.config.targets s.name st) (e : Evaluation) :
    e.machine.AgreesAt k (s.runStatement st e).2.machine := by
  rw [s.runStatement_of_isPlain hp]
  exact .performAll (fun i hi ht => hk (s.mem_targets hi ht)) _ _

/-- What every statement of a block keeps, be it inside a choice, is kept by the block, whether it fails or
not. -/
theorem runBlock_keeps {P : Machine → Prop} {block : List Statement}
    (h : ∀ st ∈ blockLeaves block, ∀ e, P e.machine → P (s.runStatement st e).2.machine)
    (e : Evaluation) (he : P e.machine) : P (s.runBlock block e).2.machine := by
  let Keeping (block : List Statement) : Prop := ∀ e, P e.machine → P (s.runBlock block e).2.machine
  have cons {st : Statement} {rest : List Statement} {e : Evaluation}
      (hst : P (s.runStatement st e).2.machine) (hr : Keeping rest) :
      P (s.runBlock (st :: rest) e).2.machine := by
    rw [s.runBlock_cons_apply]
    rcases hs : s.runStatement st e with ⟨fault | u, e'⟩
    · rwa [hs] at hst
    · rw [hs] at hst
      exact hr e' hst
  -- A failure ends the block, but by then the statements so far have kept what they were to keep.
  induction block using Statement.block_induction generalizing e with
  | nil => rwa [s.runBlock_nil_apply]
  | simple st rest hst ih =>
    rw [blockLeaves, leaves_of_ne_choose hst] at h
    obtain ⟨hs, hr⟩ := List.forall_mem_cons.1 h
    exact cons (hs e he) fun e he => ih hr e he
  | choose branches otherwise rest hb ho ih =>
    rw [blockLeaves, leaves] at h
    simp only [List.forall_mem_append] at h
    obtain ⟨⟨hbranches, hotherwise⟩, hr⟩ := h
    refine cons ?_ fun e he => ih hr e he
    rw [s.runStatement_choose_apply]
    -- The block that is chosen is one of those inside, and so are its statements.
    have hchosen : Keeping (s.chosen e otherwise branches) := by
      apply s.chosen_induction (P := Keeping) e
      · intro b hm e he
        exact hb b hm (fun st hs => hbranches st (blockLeaves_subset_branchLeaves hm hs)) e he
      · intro e he
        exact ho hotherwise e he
    exact hchosen e he

/-- Of what is in a block, only the statements that bring in other modules do more than what they ask for, and
only on a load. -/
theorem isPlain_of_mem_blockLeaves {block : List Statement} {st : Statement} (hst : st ∈ blockLeaves block)
    (h : s.mode ≠ .load ∨ st.bringsIn = false) : s.IsPlain st := by
  cases st with
  | load names | swap old new => exact h.resolve_right (by simp [bringsIn])
  | choose branches otherwise => exact absurd hst (choose_not_mem_blockLeaves block)
  | _ => trivial

/-- Unless it brings in others, a module leaves every variable alone that none of its statements is about. -/
theorem agreesAt_runBlock {block : List Statement}
    (hb : ∀ st ∈ blockLeaves block, s.mode ≠ .load ∨ st.bringsIn = false)
    (hk : ∀ st ∈ blockLeaves block, k ∉ s.site.config.targets s.name st) (e : Evaluation) :
    e.machine.AgreesAt k (s.runBlock block e).2.machine := by
  apply s.runBlock_keeps (P := e.machine.AgreesAt k)
  · intro st hst e' he
    have hp : s.IsPlain st := s.isPlain_of_mem_blockLeaves hst (hb st hst)
    exact he.trans (s.agreesAt_runStatement hp (hk st hst) e')
  · exact .refl e.machine

end Subject

end EnvModules
