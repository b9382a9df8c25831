import EnvModules.Proofs.Segments

/-!
What modules put on top of a starting environment. The intents that are in force form a collection without
order: each can be added at any time, and taken back at any time after.
-/

namespace EnvModules

/-- Which variables are used as lists and which as plain values. The record of loaded modules is kept out of
both. -/
structure Roles where
  lists : String → Prop
  values : String → Prop
  disjoint : ∀ n, lists n → ¬ values n
  not_lists_loaded : ¬ lists loadedVariable
  not_values_loaded : ¬ values loadedVariable

namespace Intent

/-- Whether an intent keeps to the roles of variables. -/
def Fits (r : Roles) : Intent → Prop
  | .assign _ name => r.values name
  | .prepend value name => r.lists name ∧ IsSegment value
  | .report _ _ _ => True

def change (forward : Bool) (env : Environment) : Intent → Environment
  | .assign value name => (env.changeVariable forward value name).1
  | .prepend value name => (env.changePath forward value name).1
  | .report _ _ _ => env

/-- What intents make of an environment, with their references replaced already. -/
def changeAll (forward : Bool) (env : Environment) (intents : List Intent) : Environment :=
  intents.foldl (change forward) env

/-- The intents that these come to in an environment, if the references of each are replaced when its turn
has come. -/
def settle (forward : Bool) : Environment → List Intent → List Intent
  | _, [] => []
  | env, i :: rest => i.expanded env :: settle forward ((i.expanded env).change forward env) rest

/-- The segment that an intent puts in front of a list variable. -/
def segmentFor? (name : String) : Intent → Option String
  | .prepend value n => if n = name then some value else none
  | _ => none

def segmentsFor (name : String) (intents : List Intent) : List String :=
  intents.filterMap (segmentFor? name)

def assigned (intents : List Intent) : List String := intents.filterMap assigned?

def listed (intents : List Intent) : List String := intents.filterMap list?

theorem assigned_append (l r : List Intent) : assigned (l ++ r) = assigned l ++ assigned r :=
  List.filterMap_append

theorem listed_append (l r : List Intent) : listed (l ++ r) = listed l ++ listed r :=
  List.filterMap_append

theorem mem_assigned {intents : List Intent} {n : String} :
    n ∈ assigned intents ↔ ∃ value, .assign value n ∈ intents := by
  rw [assigned, List.mem_filterMap]
  refine ⟨?_, fun ⟨value, h⟩ => ⟨_, h, rfl⟩⟩
  rintro ⟨i, hi, hn⟩
  cases i with
  | assign value name =>
    obtain rfl := Option.some.inj hn
    exact ⟨value, hi⟩
  | _ => exact nomatch hn

theorem mem_listed {intents : List Intent} {n : String} :
    n ∈ listed intents ↔ ∃ value, .prepend value n ∈ intents := by
  rw [listed, List.mem_filterMap]
  refine ⟨?_, fun ⟨value, h⟩ => ⟨_, h, rfl⟩⟩
  rintro ⟨i, hi, hn⟩
  cases i with
  | prepend value name =>
    obtain rfl := Option.some.inj hn
    exact ⟨value, hi⟩
  | _ => exact nomatch hn

theorem target?_eq_some {i : Intent} {n : String} {intents : List Intent} (hi : i ∈ intents)
    (h : i.target? = some n) : n ∈ assigned intents ∨ n ∈ listed intents := by
  cases i with
  | assign value name =>
    obtain rfl := Option.some.inj h
    exact .inl (mem_assigned.2 ⟨value, hi⟩)
  | prepend value name =>
    obtain rfl := Option.some.inj h
    exact .inr (mem_listed.2 ⟨value, hi⟩)
  | report effect name value => exact nomatch h

theorem segmentsFor_cons (name : String) (i : Intent) (rest : List Intent) :
    segmentsFor name (i :: rest) = (segmentFor? name i).toList ++ segmentsFor name rest := by
  rw [segmentsFor, List.filterMap_cons]
  cases segmentFor? name i <;> rfl

@[simp] theorem segmentFor?_prepend (value name : String) :
    segmentFor? name (.prepend value name) = some value := if_pos rfl

theorem segmentFor?_of_target_ne {i : Intent} {name : String} (h : i.target? ≠ some name) :
    segmentFor? name i = none := by
  cases i with
  | prepend value n => exact if_neg fun he => h (congrArg some he)
  | _ => rfl

theorem env_apply {m : Machine} (hd : m.backend.isDisplay = false) (forward : Bool) (i : Intent) :
    (i.apply forward m).env = i.change forward m.env := by
  cases i with
  | assign value name => rw [apply, Machine.setVariable_of_not_isDisplay _ _ _ _ hd, change]
  | prepend value name => rw [apply, Machine.setPath_of_not_isDisplay _ _ _ _ hd, change]
  | report effect name value => rfl

theorem isDisplay_performAll (forward : Bool) (intents : List Intent) (m : Machine) :
    (performAll forward m intents).backend.isDisplay = m.backend.isDisplay := by
  induction intents generalizing m with
  | nil => rfl
  | cons i rest ih => rw [performAll_cons, ih, Machine.isDisplay_apply]

theorem env_performAll (forward : Bool) (intents : List Intent) {m : Machine}
    (hd : m.backend.isDisplay = false) :
    (performAll forward m intents).env =
      changeAll forward m.env (settle forward m.env intents) := by
  induction intents generalizing m with
  | nil => rfl
  | cons i rest ih =>
    rw [performAll_cons, ih (by rwa [Machine.isDisplay_apply]), env_apply hd]
    rfl

/-- An intent leaves every variable alone but its target. -/
theorem change_of_target_ne {i : Intent} {k : String} (h : i.target? ≠ some k) (forward : Bool)
    (env : Environment) :
    (i.change forward env).get? k = env.get? k ∧
      (k ∈ (i.change forward env).pending ↔ k ∈ env.pending) := by
  cases i with
  | assign value name =>
    have hk : k ≠ name := fun he => h (he ▸ rfl)
    rw [change, Environment.get?_changeVariable, Environment.mem_pending_changeVariable]
    cases forward <;> simp [hk]
  | prepend value name =>
    have hk : k ≠ name := fun he => h (he ▸ rfl)
    rw [change, Environment.get?_changePath, Environment.mem_pending_changePath]
    simp [hk]
  | report effect name value => exact ⟨rfl, Iff.rfl⟩

/-- An intent that fits and is about a list puts a segment in front of it, -/
theorem Fits.eq_prepend {r : Roles} {i : Intent} (h : i.Fits r) {n : String}
    (ht : i.target? = some n) (hn : r.lists n) : ∃ value, i = .prepend value n ∧ IsSegment value := by
  cases i with
  | assign value name =>
    obtain rfl := Option.some.inj ht
    exact absurd h (r.disjoint _ hn)
  | prepend value name =>
    obtain rfl := Option.some.inj ht
    exact ⟨value, rfl, h.2⟩
  | report effect name value => exact nomatch ht

/-- and one that is about a plain variable sets it. -/
theorem Fits.eq_assign {r : Roles} {i : Intent} (h : i.Fits r) {n : String}
    (ht : i.target? = some n) (hn : r.values n) : ∃ value, i = .assign value n := by
  cases i with
  | assign value name =>
    obtain rfl := Option.some.inj ht
    exact ⟨value, rfl⟩
  | prepend value name =>
    obtain rfl := Option.some.inj ht
    exact absurd hn (r.disjoint _ h.1)
  | report effect name value => exact nomatch ht

theorem Fits.lists_or_values {r : Roles} {i : Intent} (h : i.Fits r) {n : String}
    (ht : i.target? = some n) : r.lists n ∨ r.values n := by
  cases i with
  | assign value name =>
    obtain rfl := Option.some.inj ht
    exact .inr h
  | prepend value name =>
    obtain rfl := Option.some.inj ht
    exact .inl h.1
  | report effect name value => exact nomatch ht

theorem Fits.target_ne_loaded {r : Roles} {i : Intent} (h : i.Fits r) :
    i.target? ≠ some loadedVariable := by
  intro ht
  rcases h.lists_or_values ht with hl | hv
  · exact r.not_lists_loaded hl
  · exact r.not_values_loaded hv

theorem lists_loaded_changeAll {r : Roles} {intents : List Intent} (hi : ∀ i ∈ intents, i.Fits r)
    (forward : Bool) {env : Environment} {entries : List String}
    (h : env.Lists loadedVariable entries) :
    (changeAll forward env intents).Lists loadedVariable entries := by
  induction intents generalizing env with
  | nil => exact h
  | cons i rest ih =>
    obtain ⟨hf, hr⟩ := List.forall_mem_cons.1 hi
    obtain ⟨hg, hp⟩ := change_of_target_ne hf.target_ne_loaded forward env
    exact ih hr (h.congr hg hp)

theorem pending_changeAll {r : Roles} {intents : List Intent} (hi : ∀ i ∈ intents, i.Fits r)
    {env : Environment} (h : env.pending = []) : (changeAll true env intents).pending = [] := by
  induction intents generalizing env with
  | nil => exact h
  | cons i rest ih =>
    obtain ⟨hf, hr⟩ := List.forall_mem_cons.1 hi
    apply ih hr
    apply List.eq_nil_iff_forall_not_mem.2
    intro k hk
    -- An assignment takes its target off, and a list with a segment in front is not empty.
    cases i with
    | assign value name =>
      simp [change, Environment.mem_pending_changeVariable, h] at hk
    | prepend value name =>
      rw [change, Environment.mem_pending_changePath, h] at hk
      split at hk
      · rw [Environment.merged, if_pos rfl, Environment.prepended] at hk
        split at hk
        · simpa using congrArg String.toList hk
        · exact hf.2.ne_empty hk
      · exact absurd hk List.not_mem_nil
    | report effect name value =>
      rw [change, h] at hk
      exact absurd hk List.not_mem_nil

theorem isSegment_of_mem_segmentsFor {r : Roles} {intents : List Intent}
    (h : ∀ i ∈ intents, i.Fits r) {name s : String} (hs : s ∈ segmentsFor name intents) :
    IsSegment s := by
  obtain ⟨i, hi, hv⟩ := List.mem_filterMap.1 hs
  cases i with
  | prepend value n =>
    have hf := (h _ hi).2
    simp only [segmentFor?] at hv
    split at hv
    · obtain rfl := Option.some.inj hv
      exact hf
    · exact nomatch hv
  | _ => exact nomatch hv

end Intent

namespace Environment

open Intent

/-- An environment in which these intents are in force on top of a start. A list variable has their segments,
in some order, in front of those that it started with. A plain variable has a value from one of them, and
a variable without a role is as it was. -/
structure Rests (r : Roles) (env start : Environment) (deeds : List Intent) : Prop where
  fits : ∀ i ∈ deeds, i.Fits r
  lists : ∀ n, r.lists n →
    ∃ front, front.Perm (segmentsFor n deeds) ∧ env.Lists n (front ++ start.segments n)
  values : ∀ n v, r.values n → n ∉ env.pending → env.get? n = some v → .assign v n ∈ deeds
  others : ∀ n, ¬ r.lists n → ¬ r.values n → n ≠ loadedVariable →
    env.get? n = start.get? n ∧ n ∉ env.pending

namespace Rests

variable {r : Roles} {start env : Environment} {deeds : List Intent}

theorem perm {deeds' : List Intent} (h : env.Rests r start deeds) (hp : deeds.Perm deeds') :
    env.Rests r start deeds' where
  fits i hi := h.fits i (hp.mem_iff.2 hi)
  lists n hn := by
    obtain ⟨front, hf, hl⟩ := h.lists n hn
    exact ⟨front, hf.trans (hp.filterMap _), hl⟩
  values n v hn hp' hv := hp.mem_iff.1 (h.values n v hn hp' hv)
  others := h.others

theorem others_change (h : env.Rests r start deeds) {i : Intent} (hi : i.Fits r) (forward : Bool)
    (n : String) (hl : ¬ r.lists n) (hv : ¬ r.values n) (hn : n ≠ loadedVariable) :
    (i.change forward env).get? n = start.get? n ∧ n ∉ (i.change forward env).pending := by
  have ht : i.target? ≠ some n := by
    intro ht
    rcases hi.lists_or_values ht with hln | hvn
    · exact hl hln
    · exact hv hvn
  obtain ⟨hg, hp⟩ := change_of_target_ne ht forward env
  rw [hg, hp]
  exact h.others n hl hv hn

theorem add {i : Intent} (hi : i.Fits r) (h : env.Rests r start deeds) :
    (i.change true env).Rests r start (i :: deeds) where
  fits := List.forall_mem_cons.2 ⟨hi, h.fits⟩
  lists := by
    intro n hn
    obtain ⟨front, hf, hl⟩ := h.lists n hn
    rw [segmentsFor_cons]
    by_cases ht : i.target? = some n
    · obtain ⟨value, rfl, hs⟩ := hi.eq_prepend ht hn
      rw [segmentFor?_prepend]
      exact ⟨value :: front, hf.cons value, hl.prepend hs⟩
    · obtain ⟨hg, hp⟩ := change_of_target_ne ht true env
      rw [segmentFor?_of_target_ne ht]
      exact ⟨front, hf, hl.congr hg hp⟩
  values := by
    intro n v hn hp hv
    by_cases ht : i.target? = some n
    · obtain ⟨value, rfl⟩ := hi.eq_assign ht hn
      obtain rfl : value = v := by simpa [change] using hv
      exact List.mem_cons_self
    · obtain ⟨hg, hp'⟩ := change_of_target_ne ht true env
      rw [hp'] at hp
      rw [hg] at hv
      exact List.mem_cons_of_mem _ (h.values n v hn hp hv)
  others := h.others_change hi true

/-- An intent in force is taken back. Of a segment the first occurrence goes, which is never one that the
start has brought along. -/
theorem take {i : Intent} (h : env.Rests r start (i :: deeds)) :
    (i.change false env).Rests r start deeds where
  fits := (List.forall_mem_cons.1 h.fits).2
  lists := by
    intro n hn
    obtain ⟨hi, hd⟩ := List.forall_mem_cons.1 h.fits
    obtain ⟨front, hf, hl⟩ := h.lists n hn
    have hsegments (s : String) (hs : s ∈ front) : IsSegment s :=
      isSegment_of_mem_segmentsFor h.fits (hf.mem_iff.1 hs)
    rw [segmentsFor_cons] at hf
    by_cases ht : i.target? = some n
    · obtain ⟨value, rfl, -⟩ := hi.eq_prepend ht hn
      rw [segmentFor?_prepend] at hf
      -- The segment is in front, so that what is erased is not an entry of the start.
      have hm : value ∈ front := hf.mem_iff.2 List.mem_cons_self
      have he : (front ++ start.segments n).erase value = front.erase value ++ start.segments n :=
        List.erase_append_left _ hm
      have hr : IsEntries (front.erase value ++ start.segments n) :=
        (start.isEntries_segments n).append fun s hs => hsegments s (List.mem_of_mem_erase hs)
      refine ⟨front.erase value, ?_, ?_⟩
      · have hp := hf.erase value
        simpa using hp
      · rw [← he] at hr ⊢
        exact hl.remove hr
    · obtain ⟨hg, hp⟩ := change_of_target_ne ht false env
      rw [segmentFor?_of_target_ne ht] at hf
      exact ⟨front, hf, hl.congr hg hp⟩
  values := by
    intro n v hn hp hv
    have hi := h.fits i List.mem_cons_self
    by_cases ht : i.target? = some n
    · obtain ⟨value, rfl⟩ := hi.eq_assign ht hn
      refine absurd ?_ hp
      simp [change, mem_pending_changeVariable]
    · obtain ⟨hg, hp'⟩ := change_of_target_ne ht false env
      rw [hp'] at hp
      rw [hg] at hv
      rcases List.mem_cons.1 (h.values n v hn hp hv) with he | hm
      · exact absurd (by rw [← he]; rfl) ht
      · exact hm
  others := h.others_change (h.fits i List.mem_cons_self) false

theorem congr {env' : Environment} (h : env.Rests r start deeds)
    (hc : ∀ n, n ≠ loadedVariable →
      env'.get? n = env.get? n ∧ (n ∈ env'.pending ↔ n ∈ env.pending)) :
    env'.Rests r start deeds where
  fits := h.fits
  lists n hn := by
    obtain ⟨front, hf, hl⟩ := h.lists n hn
    obtain ⟨hg, hp⟩ := hc n fun he => r.not_lists_loaded (he ▸ hn)
    exact ⟨front, hf, hl.congr hg hp⟩
  values n v hn hp hv := by
    obtain ⟨hg, hp'⟩ := hc n fun he => r.not_values_loaded (he ▸ hn)
    exact h.values n v hn (mt hp'.2 hp) (hg ▸ hv)
  others n hl hv hn := by
    obtain ⟨hg, hp⟩ := hc n hn
    rw [hg, hp]
    exact h.others n hl hv hn

theorem record (h : env.Rests r start deeds) (forward : Bool) (value : String) :
    (env.changePath forward value loadedVariable).1.Rests r start deeds :=
  h.congr fun n hn => by
    rw [get?_changePath, mem_pending_changePath, if_neg hn, if_neg hn]
    exact ⟨rfl, Iff.rfl⟩

theorem addAll {intents : List Intent} (hi : ∀ i ∈ intents, i.Fits r)
    (h : env.Rests r start deeds) :
    (changeAll true env intents).Rests r start (intents ++ deeds) := by
  induction intents generalizing env deeds with
  | nil => exact h
  | cons i rest ih =>
    obtain ⟨hf, hr⟩ := List.forall_mem_cons.1 hi
    have hadded := ih hr (h.add hf)
    exact hadded.perm List.perm_middle

theorem takeAll {intents : List Intent} (h : env.Rests r start (intents ++ deeds)) :
    (changeAll false env intents).Rests r start deeds := by
  induction intents generalizing env with
  | nil => exact h
  | cons i rest ih => exact ih h.take

theorem applyUnsets (h : env.Rests r start deeds) : env.applyUnsets.Rests r start deeds where
  fits := h.fits
  lists n hn := by
    obtain ⟨front, hf, hl⟩ := h.lists n hn
    exact ⟨front, hf, hl.applyUnsets⟩
  values n v hn _ hv := by
    rw [get?_applyUnsets] at hv
    split at hv
    · exact nomatch hv
    · next hp => exact h.values n v hn hp hv
  others n hl hv hn := by
    obtain ⟨hg, hp⟩ := h.others n hl hv hn
    rw [get?_applyUnsets, if_neg hp]
    exact ⟨hg, by simp [Environment.applyUnsets]⟩

end Rests

/-- An environment that modules can be put on: nothing awaits an unset, plain variables are undefined, and
lists are undefined or not empty. -/
structure Bare (r : Roles) (env : Environment) : Prop where
  pending : env.pending = []
  lists : ∀ n, r.lists n → env.get? n ≠ some ""
  values : ∀ n, r.values n → env.get? n = none
  loaded : env.get? loadedVariable ≠ some ""

namespace Bare

variable {r : Roles} {start env : Environment}

theorem lists_segments (h : start.Bare r) {n : String} (hn : start.get? n ≠ some "") :
    start.Lists n (start.segments n) := .of_ne_empty (by simp [h.pending]) hn

theorem rests (h : start.Bare r) : start.Rests r start [] where
  fits := by simp
  lists n hn := ⟨[], .refl _, h.lists_segments (h.lists n hn)⟩
  values n v hn _ hv := by
    rw [h.values n hn] at hv
    exact nomatch hv
  others n _ _ _ := ⟨rfl, by simp [h.pending]⟩

/-- Once no intent is in force any more and the unsets are made, the variables are those of the start. -/
theorem vars_eq (h : start.Bare r) (hr : env.Rests r start [])
    (hl : env.Lists loadedVariable (start.segments loadedVariable)) :
    env.applyUnsets.vars = start.vars := by
  have list {n : String} (hn : start.get? n ≠ some "") (he : env.Lists n (start.segments n)) :
      env.applyUnsets.get? n = start.get? n := by
    rw [he.get?_applyUnsets, (h.lists_segments hn).value (by simp [h.pending])]
  apply Bindings.ext_get?
  intro n
  show env.applyUnsets.get? n = start.get? n
  by_cases hn : n = loadedVariable
  · rw [hn]
    exact list h.loaded hl
  by_cases hln : r.lists n
  · obtain ⟨front, hf, hlf⟩ := hr.lists n hln
    obtain rfl : front = [] := List.perm_nil.1 hf
    exact list (h.lists n hln) hlf
  by_cases hvn : r.values n
  · rw [h.values n hvn, get?_applyUnsets]
    split
    · rfl
    · next hp =>
      cases hv : env.get? n with
      | none => rfl
      | some v => exact absurd (hr.values n v hvn hp hv) (by simp)
  · obtain ⟨hg, hp⟩ := hr.others n hln hvn hn
    rw [get?_applyUnsets, if_neg hp, hg]

end Bare

end Environment

end EnvModules
