import EnvModules.Proofs.Origin
import EnvModules.Proofs.Pairs
import EnvModules.Proofs.Targets

/-!
Variables that have nothing to do with any module. Whether such a variable is defined, and what its value is,
makes no difference to what is done.
-/

namespace EnvModules

open Statement TransitionM

namespace Statement

/-- The texts in a statement whose references are ever replaced. -/
def texts : Statement → List String
  | .setVariable value _ | .setPackageVariable value _ | .prependPath value _ => [value]
  | .installTree root => [root]
  | .install _ directory => [directory]
  | .require names | .conflict names | .load names => names
  | .swap old new => [old, new]
  | .describe text => [text]
  | .matchVersions _ => []
  | .choose branches _ => branches.flatMap fun branch => branch.1.texts

/-- The variables that the conditions of a choice ask for. -/
def tested : Statement → List String
  | .choose branches _ => branches.flatMap fun branch => branch.1.tested
  | _ => []

/-- Whether a statement records parts of an installation. -/
def isInstall : Statement → Bool
  | .installTree _ | .install _ _ => true
  | _ => false

/-- A statement that has nothing to do with a variable in a descriptor of this module. What is replaced in the
text of an installation has its references replaced once more, so that these are left out. -/
structure Ignores (c : Config) (n : Name) (x : String) (st : Statement) : Prop where
  plain : st.isInstall = false
  targets : x ∉ c.targets n st
  texts : x ∉ st.texts.flatMap references
  tested : x ∉ st.tested

instance (c : Config) (n : Name) (x : String) (st : Statement) : Decidable (st.Ignores c n x) :=
  decidable_of_iff
    (st.isInstall = false ∧ x ∉ c.targets n st ∧ x ∉ st.texts.flatMap references ∧ x ∉ st.tested)
    ⟨fun h => ⟨h.1, h.2.1, h.2.2.1, h.2.2.2⟩, fun h => ⟨h.plain, h.targets, h.texts, h.tested⟩⟩

/-- Whether a statement sets a variable that is named after the package. -/
def isNamed : Statement → Bool
  | .setPackageVariable _ _ => true
  | _ => false

theorem Ignores.of_name {c : Config} {n : Name} {x : String} {st : Statement} (h : st.Ignores c n x)
    (hp : st.isNamed = false) (n' : Name) : st.Ignores c n' x where
  plain := h.plain
  targets := by
    have ht := h.targets
    cases st with
    | setPackageVariable value ending => exact nomatch hp
    | installTree root | install location directory => exact nomatch h.plain
    | _ => exact ht
  texts := h.texts
  tested := h.tested

end Statement

namespace Subject

variable (s : Subject)

theorem tried_subset (e : Evaluation) (branches : List (Condition × List Statement)) :
    s.tried e branches ⊆ branches.map Prod.fst := by
  induction branches with
  | nil => exact List.nil_subset _
  | cons branch rest ih =>
    obtain ⟨condition, body⟩ := branch
    rw [tried, List.map_cons]
    split
    · intro c hc
      rw [List.mem_singleton.1 hc]
      exact List.mem_cons_self
    · exact List.cons_subset_cons _ ih

theorem texts_subset (e : Evaluation) (st : Statement) : s.texts e st ⊆ st.texts := by
  have optional (p : Prop) [Decidable p] (l : List String) :
      (if p then [] else l) ⊆ l ∧ (if p then l else []) ⊆ l := by
    split <;> simp
  cases st with
  | choose branches otherwise =>
    intro text ht
    obtain ⟨condition, hc, ht⟩ := List.mem_flatMap.1 ht
    obtain ⟨branch, hb, rfl⟩ := List.mem_map.1 (s.tried_subset e branches hc)
    exact List.mem_flatMap.2 ⟨branch, hb, ht⟩
  | require names | conflict names | load names => exact (optional (s.mode = .unload) names).1
  | swap old new => exact (optional (s.mode = .unload) [old, new]).1
  | describe text => exact (optional (s.mode = .display) [text]).2
  | installTree root | install location directory => exact List.Subset.refl _
  | _ => exact List.nil_subset _

theorem tested_subset (e : Evaluation) (st : Statement) : s.tested e st ⊆ st.tested := by
  cases st with
  | choose branches otherwise =>
    intro name hn
    obtain ⟨condition, hc, hn⟩ := List.mem_flatMap.1 hn
    obtain ⟨branch, hb, rfl⟩ := List.mem_map.1 (s.tried_subset e branches hc)
    exact List.mem_flatMap.2 ⟨branch, hb, hn⟩
  | _ => exact List.nil_subset _

/-- Unless an installation is recorded, the texts of all intents are those of the statement. -/
theorem texts_of_mem_intents {env : Environment} {st : Statement} (hst : st.isInstall = false)
    {i : Intent} (hi : i ∈ s.intents env st) (valued : Bool) : i.texts valued ⊆ st.texts := by
  have assigned (text name : String) : (Intent.assign text name).texts valued ⊆ [text] := by
    rw [Intent.texts]
    split <;> simp
  have reported {effect : Effect} {text : String} (hr : i ∈ s.reporting effect text) (l : List String) :
      i.texts valued ⊆ l := by
    rw [reporting] at hr
    split at hr
    · rw [List.mem_singleton.1 hr]
      exact List.nil_subset _
    · exact absurd hr List.not_mem_nil
  cases st with
  | setVariable value name | setPackageVariable value ending =>
    rw [List.mem_singleton.1 hi]
    exact assigned value _
  | prependPath value name =>
    rw [List.mem_singleton.1 hi]
    exact List.Subset.refl _
  | installTree root | install location directory => cases hst
  | matchVersions policy | choose branches otherwise => exact absurd hi List.not_mem_nil
  | _ => exact reported hi _

end Subject

/-- A step that neither reads a variable nor changes it. -/
structure Step.Ignores (y : Step) (x : String) : Prop where
  refersTo : x ∉ y.refersTo
  consults : x ∉ y.consults
  target : ∀ i ∈ y.intents, i.target? ≠ some x

/-- A step has no more to do with a variable than its statement. -/
theorem Step.ignores_of_statement {y : Step} {x : String}
    (h : y.statement.Ignores y.subject.site.config y.subject.name x) : y.Ignores x := by
  have target (i : Intent) (hi : i ∈ y.intents) : i.target? ≠ some x :=
    fun ht => h.targets (y.subject.mem_targets hi ht)
  refine ⟨?_, ?_, target⟩
  · intro hx
    obtain ⟨text, ht, hx⟩ := List.mem_flatMap.1 hx
    refine h.texts (List.mem_flatMap.2 ⟨text, ?_, hx⟩)
    rcases List.mem_append.1 ht with ht | ht
    · exact y.subject.texts_subset _ _ ht
    · obtain ⟨i, hi, ht⟩ := List.mem_flatMap.1 ht
      exact y.subject.texts_of_mem_intents h.plain hi _ ht
  · intro hx
    rcases List.mem_append.1 hx with hx | hx
    · exact h.tested (y.subject.tested_subset _ _ hx)
    · obtain ⟨i, hi, hl⟩ := List.mem_filterMap.1 hx
      cases i with
      | prepend value name => exact target _ hi hl
      | _ => exact nomatch hl

/-- Two environments with the same variables except for one, which awaits no unset. -/
structure Environment.SameBut (x : String) (env env' : Environment) : Prop where
  values : ∀ k, k ≠ x → env.get? k = env'.get? k
  pending : env.pending = env'.pending
  settled : x ∉ env.pending

namespace Environment.SameBut

variable {x name : String} {env env' : Environment}

theorem getNonEmpty? (h : env.SameBut x env') (hn : name ≠ x) :
    env.getNonEmpty? name = env'.getNonEmpty? name := by
  rw [Environment.getNonEmpty?, h.values name hn, Environment.getNonEmpty?]

theorem set (h : env.SameBut x env') (name value : String) :
    (env.set name value).SameBut x (env'.set name value) where
  values k hk := by simp only [get?_set, h.values k hk]
  pending := by simp only [Environment.set, cancelUnset, h.pending]
  settled hx := h.settled ((mem_pending_set _ _ _ _).1 hx).1

theorem scheduleUnset (h : env.SameBut x env') (hn : name ≠ x) :
    (env.scheduleUnset name).SameBut x (env'.scheduleUnset name) where
  values k hk := by simp only [get?_scheduleUnset, h.values k hk]
  pending := by
    simp only [Environment.scheduleUnset, h.pending]
    split <;> simp [h.pending]
  settled hx := by
    rcases (mem_pending_scheduleUnset _ _ _).1 hx with hx | hx
    · exact h.settled hx
    · exact hn hx.symm

theorem changeVariable (h : env.SameBut x env') (hn : name ≠ x) (forward : Bool) (value : String) :
    (env.changeVariable forward value name).1.SameBut x (env'.changeVariable forward value name).1 ∧
      (env.changeVariable forward value name).2 = (env'.changeVariable forward value name).2 := by
  cases forward with
  | true => exact ⟨h.set name value, rfl⟩
  | false => exact ⟨h.scheduleUnset hn, rfl⟩

theorem changePath (h : env.SameBut x env') (hn : name ≠ x) (forward : Bool) (value : String) :
    (env.changePath forward value name).1.SameBut x (env'.changePath forward value name).1 ∧
      (env.changePath forward value name).2 = (env'.changePath forward value name).2 := by
  rw [changePath_eq, changePath_eq, merged_congr forward value (h.getNonEmpty? hn)]
  split
  · exact ⟨(h.set name "").scheduleUnset hn, rfl⟩
  · exact ⟨h.set name _, rfl⟩

theorem applyUnsets (h : env.SameBut x env') : env.applyUnsets.SameBut x env'.applyUnsets where
  values k hk := by simp only [get?_applyUnsets, h.pending, h.values k hk]
  pending := rfl
  settled := by simp [Environment.applyUnsets]

end Environment.SameBut

/-- Two machines that differ in one variable alone, and maybe in what they have reported. -/
structure Machine.SameBut (x : String) (Reported : Stream → Stream → Prop) (m m' : Machine) : Prop where
  env : m.env.SameBut x m'.env
  backend : m.backend = m'.backend
  visits : m.visits = m'.visits
  commands : m.streams.commands = m'.streams.commands
  emphasis : m.streams.emphasis = m'.streams.emphasis
  diagnostics : Reported m.streams.diagnostics m'.streams.diagnostics

namespace Machine

variable {x : String} {Reported : Stream → Stream → Prop} {m m' : Machine} {name : String}

theorem SameBut.setVariable (h : m.SameBut x Reported m') (hn : name ≠ x) (forward : Bool)
    (value : String) :
    (m.setVariable forward value name).SameBut x Reported (m'.setVariable forward value name) := by
  have hb := h.backend
  cases hd : m.backend.isDisplay with
  | true =>
    rw [setVariable_of_isDisplay _ _ _ _ hd, setVariable_of_isDisplay _ _ _ _ (hb ▸ hd)]
    exact ⟨h.env, by simp only [Machine.report, hb], h.visits, h.commands, h.emphasis, h.diagnostics⟩
  | false =>
    rw [setVariable_of_not_isDisplay _ _ _ _ hd, setVariable_of_not_isDisplay _ _ _ _ (hb ▸ hd)]
    obtain ⟨he, hc⟩ := h.env.changeVariable hn forward value
    exact ⟨he, by simp only [hb, hc], h.visits, h.commands, h.emphasis, h.diagnostics⟩

theorem SameBut.setPath (h : m.SameBut x Reported m') (hn : name ≠ x) (forward : Bool) (value : String) :
    (m.setPath forward value name).SameBut x Reported (m'.setPath forward value name) := by
  have hb := h.backend
  cases hd : m.backend.isDisplay with
  | true =>
    rw [setPath_of_isDisplay _ _ _ _ hd, setPath_of_isDisplay _ _ _ _ (hb ▸ hd)]
    exact ⟨h.env, by simp only [Machine.report, hb], h.visits, h.commands, h.emphasis, h.diagnostics⟩
  | false =>
    rw [setPath_of_not_isDisplay _ _ _ _ hd, setPath_of_not_isDisplay _ _ _ _ (hb ▸ hd)]
    obtain ⟨he, hc⟩ := h.env.changePath hn forward value
    exact ⟨he, by simp only [hb, hc], h.visits, h.commands, h.emphasis, h.diagnostics⟩

/-- Steps that have nothing to do with a variable find the same, whatever its value is. -/
theorem lockstep_sameBut (hx : x ≠ loadedVariable) (Reported : Stream → Stream → Prop) :
    Lockstep (fun y => y.Ignores x) (SameBut x Reported) where
  view := by
    intro y m' hy h
    constructor
    · intro n hn
      exact h.env.values n fun he => hy.refersTo (he ▸ hn)
    · intro n hn
      exact h.env.getNonEmpty? fun he => hy.consults (he ▸ hn)
  isDisplay h := by rw [h.backend]
  loaded h := h.env.getNonEmpty? hx.symm
  assign forward value hy hi h :=
    h.setVariable (fun he => hy.target _ hi (congrArg some he)) forward value
  prepend forward value hy hi h _ :=
    h.setPath (fun he => hy.target _ hi (congrArg some he)) forward value
  record forward value h := h.setPath hx.symm forward value
  report effect name value h :=
    ⟨h.env, by simp only [Machine.report, h.backend], h.visits, h.commands, h.emphasis, h.diagnostics⟩
  visit visit h :=
    ⟨h.env, h.backend, congrArg (· ++ [visit]) h.visits, h.commands, h.emphasis, h.diagnostics⟩

end Machine

/-- Streams that are told apart by no report, even if the reports differ in their layout, which depends on the
width that the environment gives. -/
def TakesReports (x : String) (Reported : Stream → Stream → Prop) : Prop :=
  ∀ d d' text text', Reported d d' → (x ≠ "COLUMNS" → text = text') →
    (d.write text).1 = (d'.write text').1 ∧ Reported (d.write text).2 (d'.write text').2

theorem takesReports_of_ne {x : String} (hx : x ≠ "COLUMNS") : TakesReports x (· = ·) := by
  rintro d d' text text' rfl ht
  rw [ht hx]
  exact ⟨rfl, rfl⟩

theorem takesReports_of_room (x : String) :
    TakesReports x fun d d' => d.room = none ∧ d'.room = none := by
  rintro d d' text text' ⟨hd, hd'⟩ -
  rw [Stream.write_of_room_eq_none hd, Stream.write_of_room_eq_none hd']
  exact ⟨rfl, rfl, rfl⟩

theorem Layout.ofEnvironment_congr {x : String} {env env' : Environment} (h : env.SameBut x env')
    (hx : x ≠ "COLUMNS") : ofEnvironment env = ofEnvironment env' := by
  rw [ofEnvironment, h.values _ hx.symm, ofEnvironment]

/-- What is shown above the rows of a report. -/
def Report.heading (r : Report) (layout : Layout) (emphasis : Bool) : String :=
  match r.title with
  | some title => layout.title emphasis title
  | none => ""

namespace TransitionM

variable {x : String} {Reported : Stream → Stream → Prop}

/-- A display writes its heading, and if that has been taken its rows. -/
theorem flush_display {env : Environment} {r : Report} {t : Streams} {first second : Bool × Stream}
    (hf : t.diagnostics.write (r.heading (.ofEnvironment env) t.emphasis) = first)
    (hs : first.2.write ((Layout.ofEnvironment env).table r.rows) = second) (visits : List Visit) :
    flush ⟨env, .display r, t, visits⟩ =
      if first.1 then
        if second.1 then
          (.ok (), ⟨env.applyUnsets, .display ⟨none, []⟩, { t with diagnostics := second.2 }, visits⟩)
        else (.error .streamClosed, ⟨env, .display ⟨none, []⟩, { t with diagnostics := second.2 }, visits⟩)
      else
        (.error .streamClosed,
          ⟨env, .display { r with title := none }, { t with diagnostics := first.2 }, visits⟩) := by
  obtain ⟨_ | title, rows⟩ := r
  all_goals
    simp only [Report.heading] at hf hs
    simp only [flush, Backend.flush, hf, hs]
    split_ifs
    all_goals rfl

/-- What is staged is the same on both machines, and so is what becomes of it. What a display shows may
differ. -/
theorem flush_sameBut {m m' : Machine} (h : m.SameBut x Reported m')
    (ht : m.backend.isDisplay = false ∨ TakesReports x Reported) :
    (flush m).1 = (flush m').1 ∧ (flush m).2.SameBut x Reported (flush m').2 := by
  obtain ⟨env, backend, ⟨commands, diagnostics, emphasis⟩, visits⟩ := m
  obtain ⟨env', backend', ⟨commands', diagnostics', emphasis'⟩, visits'⟩ := m'
  obtain ⟨he, rfl, rfl, rfl, rfl, hd⟩ := h
  have hu := he.applyUnsets
  cases backend with
  | commands dialect batch =>
    simp only [flush, Backend.flush]
    split
    · exact ⟨rfl, hu, rfl, rfl, rfl, rfl, hd⟩
    · exact ⟨rfl, he, rfl, rfl, rfl, rfl, hd⟩
  | silent => exact ⟨rfl, hu, rfl, rfl, rfl, rfl, hd⟩
  | display r =>
    have ht := ht.resolve_left (by simp [Backend.isDisplay])
    have hl := Layout.ofEnvironment_congr he
    rw [flush_display rfl rfl, flush_display rfl rfl]
    generalize Layout.ofEnvironment env = layout, Layout.ofEnvironment env' = layout' at hl
    -- The heading comes first, and the rows only if there was room for it.
    obtain ⟨ho, hr⟩ := ht diagnostics diagnostics' (r.heading layout emphasis) (r.heading layout' emphasis)
      hd fun hx => by rw [hl hx]
    obtain ⟨ho', hr'⟩ := ht _ _ (layout.table r.rows) (layout'.table r.rows) hr fun hx => by rw [hl hx]
    simp only [← ho, ← ho']
    split
    · split
      · exact ⟨rfl, hu, rfl, rfl, rfl, rfl, hr'⟩
      · exact ⟨rfl, he, rfl, rfl, rfl, rfl, hr'⟩
    · exact ⟨rfl, he, rfl, rfl, rfl, rfl, hr⟩

end TransitionM

/-- No descriptor has anything to do with a variable, by whatever name its module is found. -/
def Site.Disregards (s : Site) (x : String) : Prop :=
  ∀ found, s.Offers (fun _ => True) found → ∀ st ∈ blockParts (s.body found.path),
    st.Ignores s.config found.name x

namespace Site.Disregards

variable {s : Site} {x : String} {Reported : Stream → Stream → Prop}

theorem ignores (h : s.Disregards x) {m : Machine} {result : Except Fault Unit × Machine} {events : List Event}
    {steps : List Step} (ha : s.Accounts m result events [] steps) : ∀ y ∈ steps, y.Ignores x := by
  intro y hy
  obtain ⟨found, ho⟩ := ha.origin y hy
  apply Step.ignores_of_statement
  rw [ho.site, ho.name]
  exact h found ho.offers y.statement ho.statement

variable (h : s.Disregards x) (hx : x ≠ loadedVariable)
include h hx

theorem relates_run (mode : Mode) (names : List String) :
    Relates (Machine.SameBut x Reported) (s.run mode names) := by
  intro m m' hR
  obtain ⟨events, ha⟩ := (s.covers_run mode names).accounts m
  have hs := h.ignores ha
  exact (Machine.lockstep_sameBut hx Reported).run s mode names m m' hR hs

theorem relates_staging (op : Operation) : Relates (Machine.SameBut x Reported) (op.staging s) := by
  intro m m' hR
  obtain ⟨events, ha⟩ := (op.covers_staging s).accounts m
  have hs := h.ignores ha
  exact (Machine.lockstep_sameBut hx Reported).staging s op m m' hR hs

theorem relates_visit {found : Resolved} (hf : s.Offers (fun _ => True) found) (depth levels : Nat)
    (mode : Mode) :
    Relates (Machine.SameBut x Reported) (s.visit depth (s.runWithin levels) mode found) := by
  have hl := Machine.lockstep_sameBut hx Reported
  intro m m' hR
  obtain ⟨events, ha⟩ := (s.covers_visit (s.covers_runWithin levels) hf).accounts m
  have hs := h.ignores ha
  exact hl.siteVisit s (hl.runWithin s levels) mode found m m' hR hs

theorem relates_display (ht : TakesReports x Reported) (names : List String) :
    Relates (Machine.SameBut x Reported) (s.display names) := by
  apply TransitionM.relates_display
  · exact fun name found hf => h.relates_visit hx (s.offers_of_find hf) 0 _ .display
  · exact fun m m' hR => flush_sameBut hR (.inr ht)
  · intro m m' text hR
    exact ⟨hR.env, by simp only [hR.backend], hR.visits, hR.commands, hR.emphasis, hR.diagnostics⟩
  · intro m m' b hR
    exact ⟨hR.env, rfl, hR.visits, hR.commands, hR.emphasis, hR.diagnostics⟩
  · intro m m' n n' hR hn
    exact ⟨hn.env, hR.backend, hn.visits, hn.commands, hn.emphasis, hn.diagnostics⟩

/-- An operation that displays nothing comes to its flush with a backend that is no display. -/
theorem transition_of_live {op : Operation} (hop : ∀ names, op ≠ .display names) {m m' : Machine}
    (hd : m.backend.isDisplay = false) (hR : m.SameBut x Reported m') :
    (op.transition s m).1 = (op.transition s m').1 ∧
      (op.transition s m).2.SameBut x Reported (op.transition s m').2 := by
  rw [op.transition_eq s hop, bind_apply, bind_apply]
  obtain ⟨ho, hr⟩ := h.relates_staging hx op m m' hR
  have hlive := maintains_iff_snd.1 (Machine.kept_live.staging s op) m hd
  rcases cases_of_fst_eq ho with ⟨fault, n, n', hn, hn'⟩ | ⟨n, n', hn, hn'⟩
  · rw [hn, hn'] at hr ⊢
    exact ⟨rfl, hr⟩
  · rw [hn, hn'] at hr ⊢
    rw [hn] at hlive
    exact flush_sameBut hr (.inl hlive)

end Site.Disregards

namespace Node

mutual

/-- The contents of the files in a node. -/
def contents : Node → List ByteArray
  | .file content => [content]
  | .link _ => []
  | .directory entries => entryContents entries

def entryContents : List (String × Node) → List ByteArray
  | [] => []
  | (_, child) :: rest => child.contents ++ entryContents rest

end

theorem contents_subset_of_lookup {entries : List (String × Node)} {name : String} {child : Node}
    (h : entries.lookup name = some child) : child.contents ⊆ entryContents entries := by
  induction entries with
  | nil => exact nomatch h
  | cons e rest ih =>
    obtain ⟨first, node⟩ := e
    rw [entryContents]
    rw [List.lookup_cons] at h
    split at h
    · obtain rfl := Option.some.inj h
      exact List.subset_append_left _ _
    · exact List.Subset.trans (ih h) (List.subset_append_right _ _)

theorem mem_contents_of_descend? {n : Node} {place : List String} {content : ByteArray}
    (h : n.descend? place = some (.file content)) : content ∈ n.contents := by
  induction place generalizing n with
  | nil =>
    obtain rfl := Option.some.inj h
    exact List.mem_singleton_self _
  | cons name names ih =>
    cases n with
    | directory entries =>
      simp only [descend?, Option.bind_eq_some_iff] at h
      obtain ⟨child, hl, hd⟩ := h
      exact contents_subset_of_lookup hl (ih hd)
    | _ => exact nomatch h

end Node

/-- The statements of a descriptor with this content, if it can be read. -/
def Descriptor.statements (content : ByteArray) : List Statement :=
  ((String.fromUTF8? content).bind fun source => (read source).toOption).getD []

theorem FileTree.mem_contents_of_readText {t : FileTree} {path : Path} {source : String}
    (h : t.readText path = .ok source) :
    ∃ content ∈ t.root.contents, String.fromUTF8? content = some source := by
  rw [readText, readBytes, node] at h
  cases hl : t.locate path with
  | error fault =>
    rw [hl] at h
    cases h
  | ok place =>
    simp only [hl, Except.bind] at h
    rcases hn : t.root.descend? place with _ | content | target | entries <;> rw [hn] at h
    · cases h
    · simp only at h
      cases hu : String.fromUTF8? content with
      | none =>
        rw [hu] at h
        cases h
      | some text =>
        rw [hu] at h
        obtain rfl := Except.ok.inj h
        exact ⟨content, Node.mem_contents_of_descend? hn, hu⟩
    · cases h
    · cases h

/-- Whatever a path leads to, its statements are those of some file in the tree. -/
theorem Site.body_eq (s : Site) (path : Path) :
    s.body path = [] ∨ ∃ content ∈ s.tree.root.contents, s.body path = Descriptor.statements content := by
  rw [body, statements]
  cases hr : s.tree.readText path with
  | error fault => exact .inl rfl
  | ok source =>
    obtain ⟨content, hc, hu⟩ := FileTree.mem_contents_of_readText hr
    refine .inr ⟨content, hc, ?_⟩
    rw [Descriptor.statements, hu, Option.bind_some]
    cases hd : Descriptor.read source
    all_goals
      simp only [hd]
      rfl

/-- It is enough to look at every file once, if none sets a variable by the name of its package. -/
theorem Site.disregards_of_contents {s : Site} {x : String} {n : Name}
    (h : ∀ content ∈ s.tree.root.contents, ∀ st ∈ blockParts (Descriptor.statements content),
      st.Ignores s.config n x ∧ st.isNamed = false) : s.Disregards x := by
  intro found _ st hst
  rcases s.body_eq found.path with he | ⟨content, hc, he⟩ <;> rw [he] at hst
  · exact absurd hst List.not_mem_nil
  · obtain ⟨hi, hp⟩ := h content hc st hst
    exact hi.of_name hp found.name

/-- A variable that no descriptor has anything to do with has no influence. If two environments differ in it
alone, then whatever is asked for has the same result in both, the same commands are written, the same modules
are visited, and the environments differ in that variable alone afterwards. Only the layout of a display may
depend on it, if it is the width. -/
theorem Action.transition_sameBut (s : Site) (x : String) (hx : x ≠ loadedVariable) (h : s.Disregards x)
    (a : Action) {env env' : Environment} (he : env.SameBut x env') {b : Backend}
    (hd : b.isDisplay = false) (t : Streams)
    (hroom : x = "COLUMNS" → (∃ names, a = .perform (.display names)) → t.diagnostics.room = none) :
    let done := a.transition s ⟨env, b, t, []⟩
    let done' := a.transition s ⟨env', b, t, []⟩
    done.1 = done'.1 ∧ done.2.env.SameBut x done'.2.env ∧ done.2.backend = done'.2.backend ∧
      done.2.streams.commands = done'.2.streams.commands ∧ done.2.visits = done'.2.visits := by
  intro done done'
  suffices hs : ∃ Reported, done.1 = done'.1 ∧ done.2.SameBut x Reported done'.2 by
    obtain ⟨Reported, ho, hr⟩ := hs
    exact ⟨ho, hr.env, hr.backend, hr.commands, hr.visits⟩
  have start {Reported : Stream → Stream → Prop} (hr : Reported t.diagnostics t.diagnostics) :
      Machine.SameBut x Reported ⟨env, b, t, []⟩ ⟨env', b, t, []⟩ := ⟨he, rfl, rfl, rfl, rfl, hr⟩
  cases a with
  | run mode names => exact ⟨(· = ·), h.relates_run hx mode names _ _ (start rfl)⟩
  | flush => exact ⟨(· = ·), flush_sameBut (start rfl) (.inl hd)⟩
  | perform op =>
    by_cases hop : ∃ names, op = .display names
    · obtain ⟨names, rfl⟩ := hop
      -- Reports of different widths still come through alike, if the stream takes everything.
      by_cases hc : x = "COLUMNS"
      · have hnone := hroom hc ⟨names, rfl⟩
        exact ⟨_, h.relates_display hx (takesReports_of_room x) names _ _ (start ⟨hnone, hnone⟩)⟩
      · exact ⟨_, h.relates_display hx (takesReports_of_ne hc) names _ _ (start rfl)⟩
    · exact ⟨(· = ·), h.transition_of_live hx (fun names he => hop ⟨names, he⟩) hd (start rfl)⟩

/-- The variable is defined in one environment alone. A module is loaded that brings in another one, swaps two,
and unsets what it has just read. -/
theorem Action.transition_sameBut_of_undefined :
    let tree := FileTree.ofDescriptors [("a", ["if not defined B", "load b", "end", "setVar $B A"]),
      ("b", ["conflict d", "swap c d", "setPath /b P"]), ("c", ["setVar 1 C", "setPath /c P"]),
      ("d", ["if equal $A x", "setVar 2 B", "else", "setVar 3 B", "whatis $P", "end"])]
    let s : Site := ⟨tree, ⟨[⟨"/mods"⟩]⟩, .default⟩
    let env : Environment := .ofVars (.ofList [("HOME", "/root"), ("P", "/c:/usr"), (loadedVariable, "c")])
    let env' : Environment := .ofVars (.ofList [("P", "/c:/usr"), (loadedVariable, "c")])
    let a : Action := .perform (.load ["a"])
    let done := a.transition s ⟨env, .commands .posix .empty, .unlimited, []⟩
    let done' := a.transition s ⟨env', .commands .posix .empty, .unlimited, []⟩
    done.1 = done'.1 ∧ done.2.env.SameBut "HOME" done'.2.env ∧ done.2.backend = done'.2.backend ∧
      done.2.streams.commands = done'.2.streams.commands ∧ done.2.visits = done'.2.visits := by
  intro tree s env env' a
  have same : env.SameBut "HOME" env' := by
    refine ⟨?_, rfl, by decide⟩
    intro k hk
    show (env'.vars.insert "HOME" "/root").get? k = env'.vars.get? k
    rw [Bindings.get?_insert, if_neg hk]
  have disregards : s.Disregards "HOME" := by
    apply Site.disregards_of_contents (n := ⟨"", none⟩)
    decide +kernel
  apply transition_sameBut s "HOME" (by decide) disregards a same rfl
  exact nofun

end EnvModules
