import EnvModules.Proofs.Change
import Mathlib.Data.List.Basic

/-!
What a statement takes from the environment: the variables that it refers to, and those of which only the
entries matter. Two environments that agree on these lead to the same intents and the same verdict.
-/

namespace EnvModules

def Piece.referred? : Piece → Option String
  | .char _ => none
  | .reference _ name _ => some (String.ofList name)

/-- The variables that a text refers to. -/
def references (text : String) : List String :=
  (Piece.ofChars true text.toList).filterMap Piece.referred?

/-- What a text stands for depends on the variables alone that it refers to. -/
theorem expandWith_congr {vars vars' : String → Option String} {text : String}
    (h : ∀ n ∈ references text, vars n = vars' n) : expandWith vars text = expandWith vars' text := by
  have hp : ∀ p ∈ Piece.ofChars true text.toList, p.value vars = p.value vars' := by
    intro p hp
    cases p with
    | char c => rfl
    | reference written name fallback =>
      have hn := h (String.ofList name) (List.mem_filterMap.2 ⟨_, hp, rfl⟩)
      simp only [Piece.value, hn]
  rw [expandWith, List.flatMap_congr hp, expandWith]

namespace Intent

/-- The texts whose references are replaced. If no value counts, an assignment has none. -/
def texts (valued : Bool) : Intent → List String
  | .assign text _ => if valued then [text] else []
  | .prepend text _ => [text]
  | .report _ _ _ => []

end Intent

namespace Condition

def texts : Condition → List String
  | .equal left right => [left, right]
  | .loaded name => [name]
  | .not condition => condition.texts
  | _ => []

/-- The variables of which it counts whether they are empty. -/
def tested : Condition → List String
  | .defined name => [name]
  | .not condition => condition.tested
  | _ => []

end Condition

namespace Subject

variable (s : Subject)

/-- The conditions that are looked at, up to the first that holds. -/
def tried (e : Evaluation) : List (Condition × List Statement) → List Condition
  | [] => []
  | (condition, _) :: rest =>
    if condition.holds e.machine.env e.policy s.mode then [condition] else condition :: tried e rest

/-- The texts whose references are replaced before the intents of a statement are known. -/
def texts (e : Evaluation) : Statement → List String
  | .installTree root => [root]
  | .install _ directory => [directory]
  -- On an unload nothing depends on the names of other modules.
  | .require names | .conflict names | .load names => if s.mode = .unload then [] else names
  | .swap old new => if s.mode = .unload then [] else [old, new]
  | .describe text => if s.mode = .display then [text] else []
  | .choose branches _ => (s.tried e branches).flatMap Condition.texts
  | _ => []

def tested (e : Evaluation) : Statement → List String
  | .choose branches _ => (s.tried e branches).flatMap Condition.tested
  | _ => []

end Subject

/-- Two environments that cannot be told apart by these references and lists. -/
structure SameView (env env' : Environment) (refs lists : List String) : Prop where
  refs : ∀ n ∈ refs, env.get? n = env'.get? n
  lists : ∀ n ∈ lists, env.getNonEmpty? n = env'.getNonEmpty? n

theorem expand_congr {env env' : Environment} {text : String}
    (h : ∀ n ∈ references text, env.get? n = env'.get? n) : env.expand text = env'.expand text :=
  expandWith_congr h

namespace SameView

variable {env env' : Environment} {refs lists : List String}

theorem mono {refs' lists' : List String} (h : SameView env env' refs lists)
    (hr : refs' ⊆ refs) (hl : lists' ⊆ lists) : SameView env env' refs' lists' :=
  ⟨fun n hn => h.refs n (hr hn), fun n hn => h.lists n (hl hn)⟩

theorem expand {texts : List String} (h : SameView env env' (texts.flatMap references) lists)
    (text : String) (ht : text ∈ texts) : env.expand text = env'.expand text :=
  expand_congr fun n hn => h.refs n (List.mem_flatMap.2 ⟨text, ht, hn⟩)

theorem of_get? {env₁ env₁' : Environment} (name : String) (h : SameView env env' refs lists)
    (ho : ∀ k, k ≠ name → env₁.get? k = env.get? k ∧ env₁'.get? k = env'.get? k)
    (hn : env₁.get? name = env₁'.get? name) : SameView env₁ env₁' refs lists := by
  have hk (k : String) (hk : env.get? k = env'.get? k) : env₁.get? k = env₁'.get? k := by
    by_cases he : k = name
    · rw [he, hn]
    · rw [(ho k he).1, (ho k he).2, hk]
  constructor
  · intro k hr
    exact hk k (h.refs k hr)
  · intro k hl
    by_cases he : k = name
    · rw [he, Environment.getNonEmpty?, Environment.getNonEmpty?, hn]
    · have hb := h.lists k hl
      simpa only [Environment.getNonEmpty?, (ho k he).1, (ho k he).2] using hb

theorem of_get?_eq {env₁ env₁' : Environment} (h : SameView env env' refs lists)
    (he : ∀ k, env₁.get? k = env.get? k) (he' : ∀ k, env₁'.get? k = env'.get? k) :
    SameView env₁ env₁' refs lists := by
  constructor
  · intro k hk
    rw [he, he', h.refs k hk]
  · intro k hk
    simpa only [Environment.getNonEmpty?, he, he'] using h.lists k hk

end SameView

theorem Condition.holds_congr {env env' : Environment} {policy : Policy} {mode : Mode}
    {condition : Condition}
    (hv : SameView env env' (condition.texts.flatMap references) condition.tested)
    (hl : env.getNonEmpty? loadedVariable = env'.getNonEmpty? loadedVariable) :
    condition.holds env policy mode = condition.holds env' policy mode := by
  -- Under a negation the condition is the same, and so are its texts and what it tests.
  induction condition with
  | defined name => simp only [holds, hv.lists name (by simp [tested])]
  | equal left right =>
    simp only [holds, hv.expand left (by simp [texts]),
      hv.expand right (by simp [texts])]
  | loaded name =>
    simp only [holds, hv.expand name (by simp [texts]), Loaded.ofEnvironment_congr hl]
  | mode wanted => rfl
  | not condition ih => simp only [holds, ih hv]

namespace Subject

variable (s : Subject) {e e' : Evaluation} {st : Statement} {lists : List String}

theorem intents_congr
    (hv : SameView e.machine.env e'.machine.env ((s.texts e st).flatMap references) lists) :
    s.intents e.machine.env st = s.intents e'.machine.env st := by
  -- The names in a statement are replaced only where they are reported.
  have names (effect : Effect) (l : List String) (hm : s.mode = .display → ∀ t ∈ l,
      e.machine.env.expand t = e'.machine.env.expand t) :
      s.reporting effect (" ".intercalate (l.map e.machine.env.expand)) =
        s.reporting effect (" ".intercalate (l.map e'.machine.env.expand)) := by
    by_cases h : s.mode = .display
    · rw [List.map_congr_left (hm h)]
    · simp only [reporting, h, if_false]
  cases st with
  | setVariable value name => rfl
  | setPackageVariable value ending => rfl
  | prependPath value name => rfl
  | installTree root => simp only [intents, hv.expand root (by simp [texts])]
  | install location directory =>
    simp only [intents, hv.expand directory (by simp [texts])]
  | require l => exact names _ l fun hm t ht => hv.expand _ (by simpa [texts, hm] using ht)
  | conflict l => exact names _ l fun hm t ht => hv.expand _ (by simpa [texts, hm] using ht)
  | load l => exact names _ l fun hm t ht => hv.expand _ (by simpa [texts, hm] using ht)
  | swap old new =>
    by_cases h : s.mode = .display
    · simp only [intents, hv.expand old (by simp [texts, h]),
        hv.expand new (by simp [texts, h])]
    · simp only [intents, reporting, h, if_false]
  | describe text =>
    by_cases h : s.mode = .display
    · simp only [intents, hv.expand text (by simp [texts, h])]
    · simp only [intents, reporting, h, if_false]
  | matchVersions policy => rfl
  | choose branches otherwise => rfl

theorem verdict_congr
    (hv : SameView e.machine.env e'.machine.env ((s.texts e st).flatMap references) lists)
    (hl : e.machine.loaded = e'.machine.loaded) (hp : e.policy = e'.policy) :
    s.verdict e st = s.verdict e' st := by
  cases st with
  | installTree root => simp only [verdict, hv.expand root (by simp [texts])]
  | require l =>
    by_cases h : s.mode = .load
    · have hn := List.map_congr_left fun t ht => hv.expand t (by simpa [texts, h] using ht)
      simp only [verdict, hn, hl, hp]
    · simp only [verdict, h, false_and, if_false]
  | conflict l =>
    by_cases h : s.mode = .load
    · have hn := List.map_congr_left fun t ht => hv.expand t (by simpa [texts, h] using ht)
      simp only [verdict, hn, hl, hp]
    · -- The two hits may differ here, but neither of them is a fault.
      simp only [verdict, h, if_false]
      split <;> split <;> rfl
  | _ => rfl

theorem chosen_congr {branches : List (Condition × List Statement)} (otherwise : List Statement)
    (hv : SameView e.machine.env e'.machine.env
      (((s.tried e branches).flatMap Condition.texts).flatMap references)
      ((s.tried e branches).flatMap Condition.tested))
    (hl : e.machine.env.getNonEmpty? loadedVariable = e'.machine.env.getNonEmpty? loadedVariable)
    (hp : e.policy = e'.policy) :
    s.chosen e otherwise branches = s.chosen e' otherwise branches := by
  induction branches with
  | nil => rfl
  | cons branch rest ih =>
    obtain ⟨condition, body⟩ := branch
    -- The first condition is always among those that are tried, the others if it does not hold.
    have hc : condition.holds e.machine.env e.policy s.mode =
        condition.holds e'.machine.env e'.policy s.mode := by
      rw [← hp]
      refine Condition.holds_congr (hv.mono ?_ ?_) hl
      all_goals
        intro n hn
        simp only [tried]
        split <;> simp_all
    simp only [chosen, ← hc]
    cases ho : condition.holds e.machine.env e.policy s.mode with
    | true => rfl
    | false =>
      refine ih (hv.mono ?_ ?_)
      all_goals
        intro n hn
        simp_all [tried]

end Subject

end EnvModules
