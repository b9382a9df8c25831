import EnvModules.Proofs.Convergence
import EnvModules.Proofs.Undo

/-!
How often references are replaced. A statement that sets a variable or a list replaces those of its text once. One
that records a directory does so before it sets anything, and what it sets is then replaced again, so that the
two come to the same only if the text stands for itself by then.
-/

namespace EnvModules

namespace Environment

variable {env : Environment} {list text text' : String}

theorem prepended_inj : env.prepended list text = env.prepended list text' ↔ text = text' := by
  rw [prepended, prepended]
  cases env.getNonEmpty? list with
  | none => exact Iff.rfl
  | some value => simp [← String.toList_inj]

theorem prepended_changeVariable {name value : String} (h : list ≠ name) :
    (env.changeVariable true value name).1.prepended list text = env.prepended list text := by
  have hg : (env.changeVariable true value name).1.getNonEmpty? list = env.getNonEmpty? list := by
    rw [getNonEmpty?, getNonEmpty?, get?_changeVariable, if_neg fun hn => h hn.2]
  rw [prepended, prepended, hg]

end Environment

namespace Subject

variable (s : Subject) (location : Location)

/-- The statements that set the variables of a location one by one. -/
def recording (text : String) : List Statement :=
  .setPackageVariable text location.ending ::
    (s.site.config.sharedVariable? location).toList.map (.prependPath text)

/-- The environment once the package's own variable is set to what a text stands for. -/
def named (text : String) (env : Environment) : Environment :=
  (env.changeVariable true (env.expand text) (s.name.varName location.ending)).1

/-- The environment once a text is recorded, by what it stands for in the turn of each variable. -/
def recorded (text : String) (env : Environment) : Environment :=
  match s.site.config.sharedVariable? location with
  | none => s.named location text env
  | some list =>
    ((s.named location text env).changePath true ((s.named location text env).expand text) list).1

/-- A text is recorded as it is: in the package's own variable, and in front of what the variable was that all
packages share. -/
structure RecordsAs (text : String) (env env' : Environment) : Prop where
  own : env'.get? (s.name.varName location.ending) = some text
  shared : ∀ list, s.site.config.sharedVariable? location = some list →
    env'.get? list = some (env.prepended list text)

variable {s location}

/-- To record a directory is to set both variables to the text that its references have been replaced in. -/
theorem runStatement_install (directory : String) (e : Evaluation) :
    s.runStatement (.install location directory) e =
      s.runBlock (s.recording location (e.machine.env.expand directory)) e := by
  have hp : s.IsPlain (.install location directory) := trivial
  have hi : (s.recording location (e.machine.env.expand directory)).map s.name.intent? =
      (s.installing location (e.machine.env.expand directory)).map some := by
    rw [recording, installing]
    cases s.site.config.sharedVariable? location <;> rfl
  rw [s.runStatement_of_isPlain hp, s.runBlock_of_intents hi]
  rfl

theorem env_installing {m : Machine} (hd : m.backend.isDisplay = false) (text : String) :
    (Intent.performAll true m (s.installing location text)).env = s.recorded location text m.env := by
  rw [Intent.env_performAll _ _ hd, installing, recorded]
  cases s.site.config.sharedVariable? location <;> rfl

/-- A text is recorded as it is only if it stands for itself, before the first variable is set and after it. -/
theorem recordsAs_recorded_iff (text : String) (env : Environment)
    (hne : s.site.config.sharedVariable? location ≠ some (s.name.varName location.ending)) :
    s.RecordsAs location text env (s.recorded location text env) ↔
      env.expand text = text ∧
        ((s.site.config.sharedVariable? location).isSome → (s.named location text env).expand text = text) := by
  have hown : (s.named location text env).get? (s.name.varName location.ending) = some (env.expand text) := by
    rw [named, Environment.get?_changeVariable, if_pos ⟨rfl, rfl⟩]
  cases hlist : s.site.config.sharedVariable? location with
  | none =>
    -- Headers have no shared variable, so that the second turn does not take place.
    have hrec : s.recorded location text env = s.named location text env := by rw [recorded, hlist]
    constructor
    · intro h
      have h := h.own
      rw [hrec, hown] at h
      exact ⟨Option.some.inj h, nofun⟩
    · rintro ⟨h, -⟩
      refine ⟨?_, fun list hs => nomatch hlist.symm.trans hs⟩
      rw [hrec, hown, h]
  | some list =>
    -- The two variables are different ones, so that the second change does not undo the first, and the value
    -- that the shared one had is still there in its turn.
    have hl : list ≠ s.name.varName location.ending := fun he => hne (he ▸ hlist)
    have hget (k : String) : (s.recorded location text env).get? k =
        if k = list then some (env.prepended list ((s.named location text env).expand text))
        else (s.named location text env).get? k := by
      rw [recorded, hlist, Environment.get?_changePath, Environment.merged, if_pos rfl, named,
        Environment.prepended_changeVariable hl]
    constructor
    · intro h
      have ho := h.own
      rw [hget, if_neg hl.symm, hown] at ho
      have hs := h.shared list hlist
      rw [hget, if_pos rfl] at hs
      exact ⟨Option.some.inj ho, fun _ => Environment.prepended_inj.1 (Option.some.inj hs)⟩
    · rintro ⟨ho, hs⟩
      refine ⟨?_, fun list' hlist' => ?_⟩
      · rw [hget, if_neg hl.symm, hown, ho]
      · obtain rfl := Option.some.inj (hlist.symm.trans hlist')
        rw [hget, if_pos rfl, hs rfl]

/-- The references of a directory are replaced, and those of the text that this gives are replaced again: once for
the package's own variable, and once more for the shared one, which sees the first. So the directory is recorded
by the text that it stands for only if that stands for itself in both turns, as one without a dollar sign does.
The root of an installation is looked up under the text that it stands for, and recorded by what that stands for
in turn. -/
theorem runStatement_install_expands (s : Subject) (hm : s.mode = .load) (e : Evaluation)
    (hd : e.machine.backend.isDisplay = false) :
    let env := e.machine.env
    (∀ (location : Location) (directory : String),
      let text := env.expand directory
      let done := s.runStatement (.install location directory) e
      let shared := s.site.config.sharedVariable? location
      done = s.runBlock (s.recording location text) e ∧ done.1 = .ok () ∧
        done.2.machine.env = s.recorded location text env ∧
        (shared ≠ some (s.name.varName location.ending) →
          (s.RecordsAs location text env done.2.machine.env ↔
            env.expand text = text ∧ (shared.isSome → (s.named location text env).expand text = text)) ∧
          ('$' ∉ text.toList → s.RecordsAs location text env done.2.machine.env))) ∧
      ∀ root : String,
        let text := env.expand root
        let own := s.name.varName "ROOT"
        let done := s.runStatement (.installTree root) e
        s.site.tree.isDirectory ⟨text⟩ = true →
        s.site.tree.installation s.site.config.subdirectories ⟨text⟩ = [] →
          done.1 = .ok () ∧ done.2.machine.env = (env.changeVariable true (env.expand text) own).1 ∧
            (done.2.machine.env.get? own = some text ↔ env.expand text = text) := by
  intro env
  constructor
  · intro location directory text done shared
    have hp : s.IsPlain (.install location directory) := trivial
    have hdone : done = (.ok (), ⟨Intent.performAll true e.machine (s.installing location text), e.policy⟩) := by
      show s.runStatement _ e = _
      rw [s.runStatement_of_isPlain hp, hm]
      rfl
    have henv : done.2.machine.env = s.recorded location text env := by
      rw [hdone]
      exact env_installing hd text
    refine ⟨runStatement_install directory e, by rw [hdone], henv, fun hne => ?_⟩
    have hiff := recordsAs_recorded_iff text env hne
    rw [henv]
    refine ⟨hiff, fun hdollar => hiff.2 ⟨env.expand_of_not_mem hdollar, fun _ => ?_⟩⟩
    exact Environment.expand_of_not_mem _ hdollar
  · intro root text own done hroot hnone
    have hp : s.IsPlain (.installTree root) := trivial
    -- Nothing below the root is usable, so that the root itself is all there is to record.
    have hintents : s.intents env (.installTree root) = [.assign text own] := by
      show s.installingTree ⟨text⟩ = _
      rw [installingTree, if_pos hroot, hnone]
      rfl
    have hdone : done = (.ok (), ⟨Intent.performAll true e.machine [.assign text own], e.policy⟩) := by
      show s.runStatement _ e = _
      rw [s.runStatement_of_isPlain hp, hm, hintents, verdict, if_pos hroot]
      rfl
    have henv : done.2.machine.env = (env.changeVariable true (env.expand text) own).1 := by
      rw [hdone]
      exact Intent.env_performAll _ _ hd
    refine ⟨by rw [hdone], henv, ?_⟩
    rw [henv, Environment.get?_changeVariable, if_pos ⟨rfl, rfl⟩, Option.some_inj]

/-- A directory whose text refers to a plain value is recorded by what it stands for. One that has its own variable
in its text is not, and neither is a root with two dollar signs in its name. -/
theorem runStatement_install_expands_dollar :
    let tree : FileTree := ⟨.directory [("opt", .directory [("$P", .directory [])])], []⟩
    let s : Subject := ⟨⟨tree, ⟨[]⟩, .default⟩, ⟨"a", none⟩, .load, fun _ _ => pure ()⟩
    let env : Environment := .ofVars (.ofList [("P", "/opt"), ("PATH", "/bin")])
    let e : Evaluation := ⟨⟨env, .silent, .unlimited, []⟩, .equal⟩
    let after (st : Statement) := (s.runStatement st e).2.machine.env
    s.mode = .load ∧ e.machine.backend.isDisplay = false ∧
      s.RecordsAs .bin "/opt/bin" env (after (.install .bin "$P/bin")) ∧
      ¬ s.RecordsAs .bin "$A_BIN_PATH/x" env (after (.install .bin "$A_BIN_PATH/x")) ∧
      s.site.tree.isDirectory ⟨"/opt/$P"⟩ = true ∧
      ¬ (after (.installTree "/opt/$$P")).get? "A_ROOT" = some "/opt/$P" := by
  intro tree s env e after
  obtain ⟨hinstall, hroot⟩ := s.runStatement_install_expands rfl e rfl
  obtain ⟨-, -, -, hbin⟩ := hinstall .bin "$P/bin"
  obtain ⟨-, -, -, hself⟩ := hinstall .bin "$A_BIN_PATH/x"
  have hne : s.site.config.sharedVariable? .bin ≠ some (s.name.varName Location.bin.ending) := by decide +kernel
  obtain ⟨-, -, hown⟩ := hroot "/opt/$$P" (by decide +kernel) (by decide +kernel)
  have hopt : e.machine.env.expand "$P/bin" = "/opt/bin" := by decide +kernel
  have hundefined : e.machine.env.expand "$A_BIN_PATH/x" = "$A_BIN_PATH/x" := by decide +kernel
  have hdollar : e.machine.env.expand "/opt/$$P" = "/opt/$P" := by decide +kernel
  have hvar : s.name.varName "ROOT" = "A_ROOT" := by decide +kernel
  rw [hopt] at hbin
  rw [hundefined] at hself
  rw [hdollar, hvar] at hown
  refine ⟨rfl, rfl, (hbin hne).2 (by decide), ?_, by decide +kernel, ?_⟩
  · intro h
    exact absurd ((hself hne).1.1 h).2 (by decide +kernel)
  · intro h
    exact absurd (hown.1 h) (by decide +kernel)

end Subject

/-- Two dollar signs stand for one, but what a directory is recorded by is the value of the variable that the one
then refers to. -/
theorem Session.perform_load_expands_twice :
    let s : Session := .ofVars [("V", "1")]
    let done := s.perform (.ofDescriptors [("a", ["setBin $$V"])]) (.load ["a"]) .silent .unlimited
    let env := done.session.env
    s.env.expand "$$V" = "$V" ∧ done.outcome = .ok () ∧ env.get? "A_BIN_PATH" = some "1" ∧
      env.get? "PATH" = some "1" := by
  decide +kernel

end EnvModules
