import EnvModules.Proofs.Segments

/-!
The record of loaded modules, as a list of different names that are read back as they were written.
-/

namespace EnvModules

/-- A name that is kept apart in the record, and is read back from there as it was. -/
structure Name.IsCanonical (n : Name) : Prop where
  isSegment : IsSegment n.text
  parse : Name.parse n.text = n

instance : DecidablePred Name.IsCanonical := fun n =>
  decidable_of_iff (IsSegment n.text ∧ Name.parse n.text = n)
    ⟨fun h => ⟨h.1, h.2⟩, fun h => ⟨h.isSegment, h.parse⟩⟩

namespace Name

variable {n n' : Name} {names : List Name}

theorem IsCanonical.eq_of_text_eq (h : n.IsCanonical) (h' : n'.IsCanonical) (ht : n.text = n'.text) :
    n = n' := by
  rw [← h.parse, ht, h'.parse]

theorem map_text_erase (hn : n.IsCanonical) (hc : ∀ n ∈ names, n.IsCanonical) :
    (names.map text).erase n.text = (names.erase n).map text := by
  induction names with
  | nil => rfl
  | cons a rest ih =>
    obtain ⟨ha, hr⟩ := List.forall_mem_cons.1 hc
    rw [List.map_cons]
    by_cases he : a = n
    · rw [he, List.erase_cons_head, List.erase_cons_head]
    · -- Canonical names are apart if and only if their texts are.
      have ht : a.text ≠ n.text := fun ht => he (ha.eq_of_text_eq hn ht)
      rw [List.erase_cons_tail (by simpa using ht), List.erase_cons_tail (by simpa using he), ih hr,
        List.map_cons]

theorem isEntries_map_text (hc : ∀ n ∈ names, n.IsCanonical) : IsEntries (names.map text) := by
  have hs : ∀ s ∈ names.map text, IsSegment s := by
    intro s hs
    obtain ⟨n, hn, rfl⟩ := List.mem_map.1 hs
    exact (hc n hn).isSegment
  rw [← List.append_nil (names.map text)]
  exact IsEntries.append hs ⟨by simp, by simp⟩

end Name

theorem Loaded.entries_of_segments {env : Environment} {names : List Name}
    (h : env.segments loadedVariable = names.map Name.text) (hc : ∀ n ∈ names, n.IsCanonical) :
    (Loaded.ofEnvironment env).entries = names := by
  rw [Loaded.ofEnvironment, h]
  clear h
  induction names with
  | nil => rfl
  | cons n rest ih =>
    obtain ⟨hn, hr⟩ := List.forall_mem_cons.1 hc
    have hne : n.text ≠ "" := hn.isSegment.ne_empty
    rw [List.map_cons, List.filter_cons_of_pos (by simpa using hne), List.map_cons, hn.parse]
    have htail := ih hr
    exact congrArg (n :: ·) htail

/-- The record has these names, each of them once. The most recent one comes first. -/
structure Environment.Records (env : Environment) (names : List Name) : Prop where
  segments : env.segments loadedVariable = names.map Name.text
  canonical : ∀ n ∈ names, n.IsCanonical
  nodup : names.Nodup

instance (env : Environment) (names : List Name) : Decidable (env.Records names) :=
  decidable_of_iff (env.segments loadedVariable = names.map Name.text ∧ (∀ n ∈ names, n.IsCanonical) ∧
    names.Nodup) ⟨fun h => ⟨h.1, h.2.1, h.2.2⟩, fun h => ⟨h.segments, h.canonical, h.nodup⟩⟩

/-- The record of loaded modules awaits no unset, unless it is empty. -/
def Environment.RecordStands (env : Environment) : Prop :=
  loadedVariable ∈ env.pending → env.getNonEmpty? loadedVariable = none

namespace Environment

theorem segments_congr {env env' : Environment} {name : String} (h : env'.get? name = env.get? name) :
    env'.segments name = env.segments name := by
  simp only [segments, getNonEmpty?, h]

/-- What awaits its unset is left without entries by a flush. -/
theorem segments_applyUnsets (env : Environment) (name : String) :
    env.applyUnsets.segments name = if name ∈ env.pending then [] else env.segments name := by
  split
  · next h =>
    apply segments_of_getNonEmpty?_eq_none
    rw [getNonEmpty?, get?_applyUnsets, if_pos h]
    rfl
  · next h =>
    apply segments_congr
    rw [get?_applyUnsets, if_neg h]

theorem recordStands_changePath (env : Environment) (forward : Bool) (value : String) :
    (env.changePath forward value loadedVariable).1.RecordStands := by
  intro hp
  rw [mem_pending_changePath, if_pos rfl] at hp
  simp [getNonEmpty?, hp]

namespace Records

variable {env env' : Environment} {n : Name} {names : List Name}

theorem entries_eq (h : env.Records names) : (Loaded.ofEnvironment env).entries = names :=
  Loaded.entries_of_segments h.segments h.canonical

theorem contains_iff (h : env.Records names) :
    (Loaded.ofEnvironment env).contains n = true ↔ n ∈ names := by
  rw [Loaded.contains, h.entries_eq, List.contains_iff_mem]

theorem congr (h : env.Records names) (hg : env'.get? loadedVariable = env.get? loadedVariable) :
    env'.Records names where
  segments := (segments_congr hg).trans h.segments
  canonical := h.canonical
  nodup := h.nodup

theorem nil_of_segments (h : env.segments loadedVariable = []) : env.Records [] where
  segments := h
  canonical := by simp
  nodup := List.nodup_nil

/-- After a flush the record has the same names, or it has been unset. -/
theorem applyUnsets (h : env.Records names) :
    env.applyUnsets.Records names ∨ env.applyUnsets.Records [] := by
  have hs := segments_applyUnsets env loadedVariable
  split at hs
  · exact .inr (nil_of_segments hs)
  · exact .inl ⟨hs.trans h.segments, h.canonical, h.nodup⟩

theorem applyUnsets_of_stands (h : env.Records names) (hs : env.RecordStands) :
    env.applyUnsets.Records names where
  segments := by
    rw [segments_applyUnsets, ← h.segments]
    split
    · next hp => exact (segments_of_getNonEmpty?_eq_none (hs hp)).symm
    · rfl
  canonical := h.canonical
  nodup := h.nodup

theorem isEntries_erase (h : env.Records names) (hn : n.IsCanonical) :
    IsEntries ((env.segments loadedVariable).erase n.text) := by
  rw [h.segments, Name.map_text_erase hn h.canonical]
  exact Name.isEntries_map_text fun n hn => h.canonical n (List.mem_of_mem_erase hn)

/-- A new module is put in front of the others, -/
theorem enter (h : env.Records names) (hn : n.IsCanonical) (hm : n ∉ names) :
    (env.changePath true n.text loadedVariable).1.Records (n :: names) where
  segments := by
    rw [(Lists.of_prepend env loadedVariable hn.isSegment).segments, h.segments, List.map_cons]
  canonical := List.forall_mem_cons.2 ⟨hn, h.canonical⟩
  nodup := List.nodup_cons.2 ⟨hm, h.nodup⟩

/-- and one that goes leaves the others in their order. -/
theorem leave (h : env.Records names) (hn : n.IsCanonical) :
    (env.changePath false n.text loadedVariable).1.Records (names.erase n) where
  segments := by
    rw [(Lists.of_remove env loadedVariable (h.isEntries_erase hn)).segments, h.segments,
      Name.map_text_erase hn h.canonical]
  canonical m hm := h.canonical m (List.mem_of_mem_erase hm)
  nodup := h.nodup.erase n

/-- The variable is undefined, or what the names come to. -/
theorem get?_eq (h : env.Records names) :
    env.get? loadedVariable = none ∨
      env.get? loadedVariable = some (Loaded.ofEnvironment env).value := by
  rw [Loaded.value, h.entries_eq, ← h.segments]
  cases hg : env.get? loadedVariable with
  | none => exact .inl rfl
  | some value =>
    by_cases hv : value = ""
    · have hs : env.segments loadedVariable = [] :=
        segments_of_getNonEmpty?_eq_none (by simp [getNonEmpty?, hg, hv])
      rw [hs, hv, String.intercalate_nil]
      exact .inr rfl
    · have hn : env.getNonEmpty? loadedVariable = some value := by simp [getNonEmpty?, hg, hv]
      rw [(segments_of_getNonEmpty? hn).2.2]
      exact .inr rfl

end Records

/-- The record has these names. If it has none, then its variable is undefined or awaits its unset. -/
structure Registers (env : Environment) (names : List Name) : Prop extends env.Records names where
  lists : env.Lists loadedVariable (names.map Name.text)

namespace Registers

variable {env env' : Environment} {n : Name} {names : List Name}

theorem stands (h : env.Registers names) : env.RecordStands := by
  intro hp
  obtain ⟨-, hg⟩ := h.lists.pending hp
  simp [getNonEmpty?, hg]

theorem congr (h : env.Registers names) (hg : env'.get? loadedVariable = env.get? loadedVariable)
    (hp : loadedVariable ∈ env'.pending ↔ loadedVariable ∈ env.pending) : env'.Registers names where
  toRecords := h.toRecords.congr hg
  lists := h.lists.congr hg hp

theorem applyUnsets (h : env.Registers names) : env.applyUnsets.Registers names where
  toRecords := h.toRecords.applyUnsets_of_stands h.stands
  lists := h.lists.applyUnsets

end Registers

namespace Records

variable {env : Environment} {n : Name} {names : List Name}

/-- Whatever the variable was before, it is so after a module was put in front -/
theorem registers_enter (h : env.Records names) (hn : n.IsCanonical) (hm : n ∉ names) :
    (env.changePath true n.text loadedVariable).1.Registers (n :: names) where
  toRecords := h.enter hn hm
  lists := by
    rw [List.map_cons, ← h.segments]
    exact .of_prepend env loadedVariable hn.isSegment

/-- or was taken out. -/
theorem registers_leave (h : env.Records names) (hn : n.IsCanonical) :
    (env.changePath false n.text loadedVariable).1.Registers (names.erase n) where
  toRecords := h.leave hn
  lists := by
    rw [← Name.map_text_erase hn h.canonical, ← h.segments]
    exact .of_remove env loadedVariable (h.isEntries_erase hn)

end Records

end Environment

end EnvModules
