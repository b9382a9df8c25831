import EnvModules.Proofs.Segments
import EnvModules.Proofs.Perform

/-!
A segment that is put in front of a list variable and taken out again. Without a colon it is the first
segment of the list, and goes without a trace. With one it falls apart into segments that it is none of, and
all of them stay.
-/

namespace EnvModules

namespace Environment

variable {env env' : Environment} {name value k : String}

theorem eq_of_get? (h : ∀ k, env.get? k = env'.get? k) (hp : env.pending = env'.pending) :
    env = env' := by
  obtain ⟨vars, pending⟩ := env
  obtain ⟨vars', pending'⟩ := env'
  obtain rfl : vars = vars' := Bindings.ext_get? h
  obtain rfl : pending = pending' := hp
  rfl

/-- The first occurrence is the one that was put in front. -/
theorem without_set_prepended (h : ':' ∉ value.toList) :
    (env.set name (env.prepended name value)).without name value =
      ":".intercalate (env.segments name) := by
  rw [without]
  congr 1
  -- An empty segment in front of none leaves the variable empty, which then has no segment at all.
  by_cases he : value :: env.segments name = [""]
  · obtain ⟨hv, hs⟩ := List.cons.inj he
    have hn : (env.set name (env.prepended name value)).getNonEmpty? name = none := by
      rw [prepended_eq, he]
      simp [getNonEmpty?]
    rw [segments_of_getNonEmpty?_eq_none hn, hs]
    rfl
  · have hi : IsEntries (value :: env.segments name) :=
      ⟨List.forall_mem_cons.2 ⟨h, (env.isEntries_segments name).free⟩, he⟩
    have hne := mt hi.intercalate_eq_empty.1 (List.cons_ne_nil _ _)
    have hn : (env.set name (env.prepended name value)).getNonEmpty? name =
        some (":".intercalate (value :: env.segments name)) := by
      rw [prepended_eq]
      simpa [getNonEmpty?] using hne
    have hs : (env.set name (env.prepended name value)).segments name =
        value :: env.segments name := by
      rw [segments, hn]
      exact hi.fields_intercalate (List.cons_ne_nil _ _)
    rw [hs, List.erase_cons_head]

/-- No segment has a colon, and so nothing is taken out. -/
theorem without_of_colon (h : ':' ∈ value.toList) :
    env.without name value = ":".intercalate (env.segments name) := by
  rw [without, List.erase_of_not_mem]
  intro hm
  exact (env.isEntries_segments name).free value hm h

theorem prepended_ne_empty (h : ':' ∈ value.toList) : env.prepended name value ≠ "" := by
  intro he
  have hl := congrArg String.toList he
  rw [prepended] at hl
  split at hl
  · simp at hl
  · rw [hl] at h
    exact List.not_mem_nil h

theorem get?_ne_prepended (h : ':' ∈ value.toList) :
    env.get? name ≠ some (env.prepended name value) := by
  intro hg
  have hn : env.getNonEmpty? name = some (env.prepended name value) := by
    rw [getNonEmpty?, hg]
    simpa using prepended_ne_empty h
  have he : env.prepended name value = value ++ ":" ++ env.prepended name value := by
    conv_lhs => rw [prepended, hn]
  have hl := congrArg (fun s : String => s.toList.length) he
  simp at hl
  omega

/-- A change concerns one variable. -/
theorem get?_applyUnsets_changePath_of_ne (forward : Bool) (hk : k ≠ name) :
    (env.changePath forward value name).1.applyUnsets.get? k = env.applyUnsets.get? k := by
  rw [get?_applyUnsets, get?_applyUnsets, get?_changePath, if_neg hk]
  simp only [mem_pending_changePath, if_neg hk]

/-- A change that leads to the segments of some environment leads to its value. -/
theorem get?_applyUnsets_of_merged {forward : Bool} (hp : name ∉ env'.pending)
    (hne : env'.get? name ≠ some "")
    (hm : env.merged forward value name = ":".intercalate (env'.segments name)) :
    (env.changePath forward value name).1.applyUnsets.get? name = env'.get? name := by
  rw [(Lists.of_merged (env'.isEntries_segments name) hm).get?_applyUnsets,
    (Lists.of_ne_empty hp hne).value hp]

theorem merged_changePath (forward : Bool) :
    (env.changePath true value name).1.merged forward value name =
      (env.set name (env.prepended name value)).merged forward value name := by
  apply merged_congr
  rw [getNonEmpty?, getNonEmpty?, get?_changePath, if_pos rfl, get?_set, if_pos rfl, merged, if_pos rfl]

section Pair

variable (hp : env.pending = [])
include hp

theorem get?_changePath_changePath_of_ne (hk : k ≠ name) :
    ((env.changePath true value name).1.changePath false value name).1.applyUnsets.get? k =
      env.get? k := by
  rw [get?_applyUnsets_changePath_of_ne false hk, get?_applyUnsets_changePath_of_ne true hk,
    applyUnsets_of_pending_eq_nil hp]

theorem changePath_changePath (hne : env.get? name ≠ some "") (h : ':' ∉ value.toList) :
    ((env.changePath true value name).1.changePath false value name).1.applyUnsets = env := by
  apply eq_of_get? _ hp.symm
  intro k
  by_cases hk : k = name
  · subst hk
    apply get?_applyUnsets_of_merged (by simp [hp]) hne
    rw [merged_changePath, merged, if_neg Bool.false_ne_true, without_set_prepended h]
  · exact get?_changePath_changePath_of_ne hp hk

theorem changePath_changePath_of_colon (h : ':' ∈ value.toList) :
    ((env.changePath true value name).1.changePath false value name).1.applyUnsets =
      env.set name (env.prepended name value) := by
  have hset : (env.set name (env.prepended name value)).pending = [] := by
    simp [set, cancelUnset, hp]
  apply eq_of_get? _ hset.symm
  intro k
  by_cases hk : k = name
  · subst hk
    apply get?_applyUnsets_of_merged (by simp [hset])
    · simpa using prepended_ne_empty h
    · rw [merged_changePath, merged, if_neg Bool.false_ne_true, without_of_colon h]
  · rw [get?_changePath_changePath_of_ne hp hk, get?_set, if_neg hk]

end Pair

end Environment

namespace Backend

theorem setPath_of_not_isDisplay {b : Backend} (hb : b.isDisplay = false) (env : Environment)
    (forward : Bool) (value name : String) :
    b.setPath env forward value name =
      (b.stage name (env.changePath forward value name).2, (env.changePath forward value name).1) := by
  rw [setPath, if_neg (by simp [hb])]

/-- What is put in front of a list variable can be taken out again exactly if it has no colon, be it empty or
among the segments already. The environment is then the one before. What has a colon stays in front, and even
then no other variable has changed. -/
theorem flush_setPath_setPath (b : Backend) (hb : b.isDisplay = false) (env : Environment)
    (hp : env.pending = []) (value name : String) (hne : env.get? name ≠ some "") (t : Streams) :
    let put := b.setPath env true value name
    let taken := put.1.setPath put.2 false value name
    let done := taken.1.flush taken.2 t
    (t.commands.room = none → done.outcome = .ok ()) ∧
      (done.outcome = .ok () →
        (done.env = env ↔ ':' ∉ value.toList) ∧
        (':' ∈ value.toList → done.env = env.set name (env.prepended name value))) := by
  intro put taken done
  have hput : put = _ := setPath_of_not_isDisplay hb env true value name
  have hlive : put.1.isDisplay = false := by
    rw [hput]
    exact (Machine.isDisplay_stage _ _ _).trans hb
  have htaken : taken = _ := setPath_of_not_isDisplay hlive put.2 false value name
  have hlive' : taken.1.isDisplay = false := by
    rw [htaken]
    exact (Machine.isDisplay_stage _ _ _).trans hlive
  let last : Machine := ⟨taken.2, taken.1, t, []⟩
  refine ⟨fun hr => (TransitionM.flush_of_writable (m := last) ⟨hlive', hr⟩).1, ?_⟩
  intro hok
  have hdone : done.env =
      ((env.changePath true value name).1.changePath false value name).1.applyUnsets := by
    have he := TransitionM.env_flush_of_ok (m := last) hlive' hok
    rw [show done.env = taken.2.applyUnsets from he, htaken, hput]
  by_cases h : ':' ∈ value.toList
  · have hset : done.env = env.set name (env.prepended name value) := by
      rw [hdone, Environment.changePath_changePath_of_colon hp h]
    refine ⟨iff_of_false ?_ (not_not_intro h), fun _ => hset⟩
    intro he
    have hg : env.get? name = some (env.prepended name value) := by
      calc env.get? name
        _ = done.env.get? name := by rw [he]
        _ = some (env.prepended name value) := by rw [hset, Environment.get?_set, if_pos rfl]
    exact Environment.get?_ne_prepended h hg
  · refine ⟨iff_of_true ?_ h, fun hc => absurd hc h⟩
    rw [hdone, Environment.changePath_changePath hp hne h]

/-- The segment is in the list already, next to an empty one, and another variable has a command staged. -/
theorem flush_setPath_setPath_of_repeated :
    let b : Backend := .commands .csh (Bindings.empty.insert "Q" (.assign "q"))
    let env : Environment := .ofVars (.ofList [("P", "/b::/a:/b"), ("Q", "q")])
    let put := b.setPath env true "/b" "P"
    let taken := put.1.setPath put.2 false "/b" "P"
    let done := taken.1.flush taken.2 .unlimited
    done.outcome = .ok () ∧ done.env = env := by
  intro b env put taken done
  have hne : env.get? "P" ≠ some "" := by decide +kernel
  obtain ⟨hroom, hdone⟩ := flush_setPath_setPath b rfl env rfl "/b" "P" hne .unlimited
  have hok : done.outcome = .ok () := hroom rfl
  exact ⟨hok, (hdone hok).1.2 (by decide)⟩

/-- Two segments at once go in, and stay. -/
theorem flush_setPath_setPath_ne_of_colon :
    let env : Environment := .ofVars (.ofList [("V", "/usr")])
    let put := Backend.silent.setPath env true "a:b" "V"
    let taken := put.1.setPath put.2 false "a:b" "V"
    let done := taken.1.flush taken.2 .unlimited
    Backend.silent.isDisplay = false ∧ env.pending = [] ∧ env.get? "V" = some "/usr" ∧
      done.outcome = .ok () ∧ done.env.get? "V" = some "a:b:/usr" := by
  decide +kernel

end Backend

end EnvModules
