import EnvModules.Proofs.Change

/-!
List variables as lists. A variable whose last entry goes is left empty and awaits its unset, and apart
from that a list of entries has one value.
-/

namespace EnvModules

namespace Text

theorem fields_eq_splitOnP (sep : Char → Bool) (cs : List Char) : fields sep cs = cs.splitOnP sep := by
  induction cs with
  | nil => rfl
  | cons c cs ih =>
    rw [List.splitOnP_cons_eq_if_modifyHead, fields, ih]
    split
    · rfl
    · rcases hs : cs.splitOnP sep with _ | ⟨f, fs⟩
      · exact absurd hs (List.splitOnP_ne_nil _ _)
      · rfl

theorem not_mem_of_mem_fields {sep : Char} {cs f : List Char} (h : f ∈ fields (· == sep) cs) :
    sep ∉ f := by
  -- A character before the first separator goes to the first field of the rest.
  induction cs generalizing f with
  | nil =>
    obtain rfl : f = [] := by simpa [fields] using h
    simp
  | cons d cs ih =>
    rw [fields] at h
    split at h
    · rcases List.mem_cons.1 h with rfl | h
      · simp
      · exact ih h
    · next hd =>
      rcases hf : fields (· == sep) cs with _ | ⟨g, gs⟩
      · exact absurd hf (fields_ne_nil _ _)
      · rw [hf] at h ih
        rcases List.mem_cons.1 h with rfl | h
        · have hg : sep ∉ g := ih List.mem_cons_self
          have hs : sep ≠ d := fun he => hd (beq_iff_eq.2 he.symm)
          simp [hg, hs]
        · exact ih (List.mem_cons_of_mem _ h)

end Text

/-- A segment that is kept apart from its neighbours in a list variable. -/
structure IsSegment (s : String) : Prop where
  ne_empty : s ≠ ""
  free : ':' ∉ s.toList

instance (s : String) : Decidable (IsSegment s) :=
  decidable_of_iff (s ≠ "" ∧ ':' ∉ s.toList) ⟨fun h => ⟨h.1, h.2⟩, fun h => ⟨h.ne_empty, h.free⟩⟩

/-- Entries that a list variable can have. A single empty one is not told from none. -/
structure IsEntries (entries : List String) : Prop where
  free : ∀ s ∈ entries, ':' ∉ s.toList
  ne : entries ≠ [""]

namespace IsEntries

variable {entries : List String}

theorem append {front : List String} (hf : ∀ s ∈ front, IsSegment s) (h : IsEntries entries) :
    IsEntries (front ++ entries) := by
  constructor
  · intro s hs
    rcases List.mem_append.1 hs with hs | hs
    · exact (hf s hs).free
    · exact h.free s hs
  · intro he
    rcases front with _ | ⟨s, front⟩
    · exact h.ne he
    · obtain ⟨rfl, -⟩ := List.cons.inj he
      exact (hf "" List.mem_cons_self).ne_empty rfl

theorem cons {s : String} (hs : IsSegment s) (h : IsEntries entries) : IsEntries (s :: entries) := by
  have hf : ∀ t ∈ [s], IsSegment t := by simpa using hs
  exact append hf h

theorem intercalate_eq_empty (h : IsEntries entries) : ":".intercalate entries = "" ↔ entries = [] := by
  constructor
  · intro he
    -- Two entries have a colon between them, and a single one is not empty.
    rcases entries with _ | ⟨s, _ | ⟨t, rest⟩⟩
    · rfl
    · rw [String.intercalate_singleton] at he
      exact absurd (by rw [he]) h.ne
    · have hc := congrArg String.toList he
      simp at hc
  · intro he
    rw [he, String.intercalate_nil]

theorem fields_intercalate (h : IsEntries entries) (hne : entries ≠ []) :
    (Text.fields (· == ':') (":".intercalate entries).toList).map String.ofList = entries := by
  rw [Text.fields_eq_splitOnP, ← List.splitOn_eq_splitOnP, String.toList_intercalate]
  have hs : ":".toList = [':'] := rfl
  rw [hs, List.splitOn_intercalate]
  · simp
  · simpa using h.free
  · simpa using hne

end IsEntries

namespace Environment

variable {env env' : Environment} {name : String} {entries : List String}

theorem segments_of_getNonEmpty? {value : String} (h : env.getNonEmpty? name = some value) :
    IsEntries (env.segments name) ∧ env.segments name ≠ [] ∧
      ":".intercalate (env.segments name) = value := by
  have hs : env.segments name = (Text.fields (· == ':') value.toList).map String.ofList := by
    rw [segments, h]
  have hj : ":".intercalate (env.segments name) = value := by
    have hc : ":".toList = [':'] := rfl
    rw [← String.toList_inj, String.toList_intercalate, hs, hc, List.map_map,
      Text.fields_eq_splitOnP, ← List.splitOn_eq_splitOnP]
    have hid : (String.toList ∘ String.ofList) = id := funext fun l => String.toList_ofList
    rw [hid, List.map_id, List.intercalate_splitOn]
  refine ⟨⟨?_, ?_⟩, ?_, hj⟩
  · intro s hm
    rw [hs] at hm
    obtain ⟨f, hf, rfl⟩ := List.mem_map.1 hm
    rw [String.toList_ofList]
    exact Text.not_mem_of_mem_fields hf
  · intro he
    rw [he, String.intercalate_singleton] at hj
    have hne := (Option.filter_eq_some_iff.1 h).2
    simp [← hj] at hne
  · rw [hs]
    simp [Text.fields_ne_nil]

theorem segments_of_getNonEmpty?_eq_none (h : env.getNonEmpty? name = none) :
    env.segments name = [] := by
  rw [segments, h]

theorem isEntries_segments (env : Environment) (name : String) : IsEntries (env.segments name) := by
  cases h : env.getNonEmpty? name with
  | none =>
    rw [segments_of_getNonEmpty?_eq_none h]
    exact ⟨by simp, by simp⟩
  | some value => exact (segments_of_getNonEmpty? h).1

/-- A segment is put in front of the segments that there are. -/
theorem prepended_eq (env : Environment) (name segment : String) :
    env.prepended name segment = ":".intercalate (segment :: env.segments name) := by
  rw [prepended]
  cases h : env.getNonEmpty? name with
  | none => rw [segments_of_getNonEmpty?_eq_none h, String.intercalate_singleton]
  | some value =>
    obtain ⟨-, hne, hj⟩ := segments_of_getNonEmpty? h
    rw [String.intercalate_cons_of_ne_nil hne, hj]

/-- The variable is the list of these entries. Once its last entry has gone it is empty and awaits its
unset. -/
structure Lists (env : Environment) (name : String) (entries : List String) : Prop where
  isEntries : IsEntries entries
  pending : name ∈ env.pending → entries = [] ∧ env.get? name = some ""
  value : name ∉ env.pending →
    env.get? name = if entries = [] then none else some (":".intercalate entries)

namespace Lists

theorem getNonEmpty? (h : env.Lists name entries) :
    env.getNonEmpty? name = if entries = [] then none else some (":".intercalate entries) := by
  by_cases hp : name ∈ env.pending
  · obtain ⟨he, hg⟩ := h.pending hp
    simp [Environment.getNonEmpty?, he, hg]
  · rw [Environment.getNonEmpty?, h.value hp]
    split
    · rfl
    · next hne =>
      have hv := mt h.isEntries.intercalate_eq_empty.1 hne
      simpa using hv

theorem segments (h : env.Lists name entries) : env.segments name = entries := by
  have hg := h.getNonEmpty?
  split at hg
  · next he => rw [segments_of_getNonEmpty?_eq_none hg, he]
  · next hne =>
    rw [Environment.segments, hg]
    exact h.isEntries.fields_intercalate hne

theorem congr (h : env.Lists name entries) (hg : env'.get? name = env.get? name)
    (hp : name ∈ env'.pending ↔ name ∈ env.pending) : env'.Lists name entries where
  isEntries := h.isEntries
  pending hn := by
    rw [hg]
    exact h.pending (hp.1 hn)
  value hn := by
    rw [hg]
    exact h.value (mt hp.2 hn)

theorem of_merged {forward : Bool} {value : String} (he : IsEntries entries)
    (hm : env.merged forward value name = ":".intercalate entries) :
    (env.changePath forward value name).1.Lists name entries := by
  have hi := he.intercalate_eq_empty
  refine ⟨he, ?_, ?_⟩
  · intro hp
    rw [mem_pending_changePath, if_pos rfl, hm] at hp
    rw [get?_changePath, if_pos rfl, hm, hp]
    exact ⟨hi.1 hp, rfl⟩
  · intro hp
    rw [mem_pending_changePath, if_pos rfl, hm, hi] at hp
    rw [get?_changePath, if_pos rfl, hm, if_neg hp]

/-- Whatever the variable was before, a change makes it a list of entries. -/
theorem of_prepend (env : Environment) (name : String) {segment : String} (hs : IsSegment segment) :
    (env.changePath true segment name).1.Lists name (segment :: env.segments name) := by
  refine of_merged ((env.isEntries_segments name).cons hs) ?_
  rw [merged, if_pos rfl, prepended_eq]

theorem of_remove (env : Environment) (name : String) {segment : String}
    (he : IsEntries ((env.segments name).erase segment)) :
    (env.changePath false segment name).1.Lists name ((env.segments name).erase segment) := by
  refine of_merged he ?_
  rw [merged, if_neg Bool.false_ne_true, without]

theorem prepend {segment : String} (hs : IsSegment segment) (h : env.Lists name entries) :
    (env.changePath true segment name).1.Lists name (segment :: entries) := by
  rw [← h.segments]
  exact of_prepend env name hs

theorem remove {segment : String} (h : env.Lists name entries)
    (he : IsEntries (entries.erase segment)) :
    (env.changePath false segment name).1.Lists name (entries.erase segment) := by
  rw [← h.segments] at he ⊢
  exact of_remove env name he

theorem of_ne_empty (hp : name ∉ env.pending) (hg : env.get? name ≠ some "") :
    env.Lists name (env.segments name) := by
  -- An empty value would count as undefined here, but would not be so for `Lists`.
  have hf : env.getNonEmpty? name = env.get? name := by
    rw [Environment.getNonEmpty?]
    cases hv : env.get? name with
    | none => rfl
    | some value =>
      have hne : value ≠ "" := fun he => hg (by rw [hv, he])
      simpa using hne
  cases hv : env.getNonEmpty? name with
  | none =>
    rw [segments_of_getNonEmpty?_eq_none hv]
    exact ⟨⟨by simp, by simp⟩, fun h => absurd h hp, fun _ => by rw [← hf, hv, if_pos rfl]⟩
  | some value =>
    obtain ⟨he, hne, hj⟩ := segments_of_getNonEmpty? hv
    exact ⟨he, fun h => absurd h hp, fun _ => by rw [← hf, hv, if_neg hne, hj]⟩

theorem get?_applyUnsets (h : env.Lists name entries) :
    env.applyUnsets.get? name = if entries = [] then none else some (":".intercalate entries) := by
  rw [Environment.get?_applyUnsets]
  split
  · next hp => rw [if_pos (h.pending hp).1]
  · next hp => exact h.value hp

theorem applyUnsets (h : env.Lists name entries) : env.applyUnsets.Lists name entries :=
  ⟨h.isEntries, fun hp => absurd hp (by simp [Environment.applyUnsets]),
    fun _ => h.get?_applyUnsets⟩

end Lists

end Environment

end EnvModules
