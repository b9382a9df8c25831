import EnvModules.Version
import Mathlib.Data.String.Basic

/-!
The order of versions. Two lists of segments are compared place by place once zeros are put after the shorter
one, so that the order is that of lists of one length. Main statement: any two versions can be compared, zeros at
the end and the spelling of separators do not count, and the policies go by the order.
-/

namespace EnvModules

open Text

theorem Text.filter_fields_append_separators {sep : Char → Bool} {run : List Char}
    (hr : ∀ c ∈ run, sep c = true) (after : List Char) :
    (fields sep (run ++ after)).filter (!·.isEmpty) = (fields sep after).filter (!·.isEmpty) := by
  induction run with
  | nil => rfl
  | cons c run ih =>
    obtain ⟨hc, hr⟩ := List.forall_mem_cons.1 hr
    rw [List.cons_append, fields, if_pos hc]
    exact ih hr

/-- A run of separators sets fields apart just as one separator does. -/
theorem Text.filter_fields_append {sep : Char → Bool} {run : List Char} (hn : run ≠ [])
    (hr : ∀ c ∈ run, sep c = true) (before after : List Char) :
    (fields sep (before ++ (run ++ after))).filter (!·.isEmpty) =
      (fields sep before).filter (!·.isEmpty) ++ (fields sep after).filter (!·.isEmpty) := by
  obtain ⟨c, run, rfl⟩ := List.exists_cons_of_ne_nil hn
  obtain ⟨hc, hr⟩ := List.forall_mem_cons.1 hr
  rw [List.cons_append, fields_append_cons hc, List.filter_append, filter_fields_append_separators hr]

namespace Version

/-! ### Segments -/

instance : Std.OrientedCmp Segment.compare where
  eq_swap {l r} := by
    cases l <;> cases r
    · exact Std.OrientedOrd.eq_swap
    · rfl
    · rfl
    · exact Std.OrientedOrd.eq_swap

instance : Std.TransCmp Segment.compare where
  isLE_trans {l m r} hlm hmr := by
    cases l <;> cases m <;> cases r <;> simp only [Segment.compare] at hlm hmr ⊢
    -- A number comes before a text, so that two kinds in one order leave two of one kind to compare.
    all_goals first | exact Std.TransOrd.isLE_trans hlm hmr | rfl | contradiction

/-! ### Lists of segments -/

/-- Segments with zeros after them, up to a length. -/
def padded (n : Nat) (l : List Segment) : List Segment := l.rightpad n (.number 0)

theorem padded_cons (n : Nat) (s : Segment) (l : List Segment) :
    padded (n + 1) (s :: l) = s :: padded n l := by
  simp [padded, List.rightpad]

theorem padded_succ_nil (n : Nat) : padded (n + 1) [] = .number 0 :: padded n [] := by
  simp [padded, List.rightpad, List.replicate_succ]

/-- One zero more is no other than one that is put there. -/
theorem padded_concat_zero {n : Nat} {l : List Segment} (h : l.length < n) :
    padded n (l ++ [.number 0]) = padded n l := by
  have hn : n - l.length = n - (l.length + 1) + 1 := by omega
  simp [padded, List.rightpad, hn, List.replicate_succ]

theorem zeros_eq_compareLex {n : Nat} {rs : List Segment} (h : rs.length ≤ n) :
    compareSegments.zeros rs = List.compareLex Segment.compare (padded n []) (padded n rs) := by
  induction rs generalizing n with
  | nil => exact (Std.ReflCmp.compare_self : List.compareLex Segment.compare _ _ = .eq).symm
  | cons r rs ih =>
    obtain ⟨m, rfl⟩ := Nat.exists_eq_add_of_le' (Nat.lt_of_lt_of_le (Nat.zero_lt_succ _) h)
    rw [padded_succ_nil, padded_cons, List.compareLex_cons_cons, compareSegments.zeros,
      ih (Nat.le_of_succ_le_succ h)]

/-- With zeros put after them, segments are compared as lists of one length are, however many zeros there are. -/
theorem compareSegments_eq_compareLex {n : Nat} {ls rs : List Segment} (hl : ls.length ≤ n)
    (hr : rs.length ≤ n) :
    compareSegments ls rs = List.compareLex Segment.compare (padded n ls) (padded n rs) := by
  induction ls generalizing n rs with
  | nil => exact zeros_eq_compareLex hr
  | cons l ls ih =>
    obtain ⟨m, rfl⟩ := Nat.exists_eq_add_of_le' (Nat.lt_of_lt_of_le (Nat.zero_lt_succ _) hl)
    have hl := Nat.le_of_succ_le_succ hl
    rw [compareSegments, padded_cons]
    cases rs with
    | nil => rw [padded_succ_nil, List.compareLex_cons_cons, List.tail_nil, List.headD_nil,
        @ih m [] hl (Nat.zero_le m)]
    | cons r rs =>
      rw [padded_cons, List.compareLex_cons_cons, List.tail_cons, List.headD_cons,
        ih hl (Nat.le_of_succ_le_succ hr)]

instance : Std.OrientedCmp compareSegments where
  eq_swap {ls rs} := by
    have hl := Nat.le_max_left ls.length rs.length
    have hr := Nat.le_max_right ls.length rs.length
    rw [compareSegments_eq_compareLex hl hr, compareSegments_eq_compareLex hr hl]
    exact Std.OrientedCmp.eq_swap

instance : Std.TransCmp compareSegments where
  isLE_trans {ls ms rs} hlm hmr := by
    have hl : ls.length ≤ max ls.length (max ms.length rs.length) := by omega
    have hm : ms.length ≤ max ls.length (max ms.length rs.length) := by omega
    have hr : rs.length ≤ max ls.length (max ms.length rs.length) := by omega
    rw [compareSegments_eq_compareLex hl hm] at hlm
    rw [compareSegments_eq_compareLex hm hr] at hmr
    rw [compareSegments_eq_compareLex hl hr]
    exact Std.TransCmp.isLE_trans hlm hmr

theorem compareSegments_concat_zero (ls rs : List Segment) :
    compareSegments (ls ++ [.number 0]) rs = compareSegments ls rs := by
  have hl : ls.length < max (ls.length + 1) rs.length := by omega
  have hr : rs.length ≤ max (ls.length + 1) rs.length := Nat.le_max_right _ _
  rw [compareSegments_eq_compareLex (by simp) hr, compareSegments_eq_compareLex hl.le hr,
    padded_concat_zero hl]

/-! ### Versions -/

instance : Std.OrientedCmp compare where
  eq_swap {a b} := (Std.OrientedCmp.eq_swap : compareSegments (segments a) (segments b) = _)

instance : Std.TransCmp compare where
  isLE_trans {a _ c} hab hbc :=
    (Std.TransCmp.isLE_trans hab hbc : (compareSegments (segments a) (segments c)).isLE = true)

theorem segments_append_zero (a : String) : segments (a ++ ".0") = segments a ++ [.number 0] := by
  have ha : (a ++ ".0").toList = a.toList ++ (['.'] ++ ['0']) := by simp
  have hs : ∀ c ∈ ['.'], isSeparator c = true := List.forall_mem_singleton.2 rfl
  rw [segments, ha, filter_fields_append (List.cons_ne_nil _ _) hs, List.map_append]
  rfl

/-- One or more of the characters that stand between segments. -/
def IsSeparation (s : String) : Prop := s ≠ "" ∧ ∀ c ∈ s.toList, c ∈ ['.', '-', '_', '+']

-- Given by hand, for the instance for all members of a finite type would try every character there is.
instance : DecidablePred IsSeparation := fun s =>
  decidable_of_iff (s ≠ "" ∧ s.toList.all (· ∈ ['.', '-', '_', '+']) = true) (by simp [IsSeparation])

/-- It does not matter which separators stand between two parts, or how many of them. -/
theorem segments_append_separation {run : String} (h : IsSeparation run) (before after : String) :
    segments (before ++ run ++ after) = segments before ++ segments after := by
  have hn : run.toList ≠ [] := by simpa using h.1
  have hr : ∀ c ∈ run.toList, isSeparator c = true := by
    intro c hc
    simpa [isSeparator, or_assoc] using h.2 c hc
  rw [segments, String.toList_append, String.toList_append, List.append_assoc, filter_fields_append hn hr,
    List.map_append]
  rfl

theorem compare_swap (a b : String) : compare b a = (compare a b).swap := Std.OrientedCmp.eq_swap

theorem compare_trans {a b c : String} (hab : compare a b ≠ .gt) (hbc : compare b c ≠ .gt) :
    compare a c ≠ .gt := by
  have hab := Ordering.ne_gt_iff_isLE.1 hab
  have hbc := Ordering.ne_gt_iff_isLE.1 hbc
  exact Ordering.ne_gt_iff_isLE.2 (Std.TransCmp.isLE_trans hab hbc)

theorem compare_append_zero (a b : String) : compare (a ++ ".0") b = compare a b := by
  rw [compare, segments_append_zero, compareSegments_concat_zero, compare]

theorem compare_congr {a a' : String} (h : segments a = segments a') (b : String) :
    compare a b = compare a' b ∧ compare b a = compare b a' := by
  rw [compare, compare, compare, compare, h]
  exact ⟨rfl, rfl⟩

end Version

namespace Policy

theorem atLeast_accepts_iff {requested loaded : String} :
    atLeast.accepts requested loaded = true ↔ Version.compare requested loaded ≠ .gt := by
  rw [Version.compare_swap loaded]
  simp [accepts]

theorem atMost_accepts_iff {requested loaded : String} :
    atMost.accepts requested loaded = true ↔ Version.compare loaded requested ≠ .gt := by
  simp [accepts]

end Policy

namespace Version

/-- Any two versions can be compared, and the comparison is transitive. Zeros at the end do not count, and
neither does which separators stand between two parts. A version that is recent enough stays so when it is
replaced by a later one, and one that is old enough when it is replaced by an earlier one. Of any two versions
the one is recent enough or old enough for the other, and both if they come to the same. -/
theorem compare_totalPreorder (a b c : String) :
    (compare a a = .eq ∧ compare b a = (compare a b).swap ∧
      (compare a b ≠ .gt → compare b c ≠ .gt → compare a c ≠ .gt)) ∧
    (compare (a ++ ".0") b = compare a b ∧ compare a (b ++ ".0") = compare a b) ∧
    (∀ before after run run' : String, IsSeparation run → IsSeparation run' →
      compare (before ++ run ++ after) b = compare (before ++ run' ++ after) b ∧
        compare b (before ++ run ++ after) = compare b (before ++ run' ++ after)) ∧
    (compare b c ≠ .gt → Policy.atLeast.accepts a b = true → Policy.atLeast.accepts a c = true) ∧
    (compare b c ≠ .gt → Policy.atMost.accepts a c = true → Policy.atMost.accepts a b = true) ∧
    (Policy.atLeast.accepts a b = true ∨ Policy.atMost.accepts a b = true) ∧
    (Policy.atLeast.accepts a b = true ∧ Policy.atMost.accepts a b = true ↔ compare a b = .eq) := by
  simp only [Policy.atLeast_accepts_iff, Policy.atMost_accepts_iff]
  refine ⟨⟨Std.ReflCmp.compare_self, compare_swap a b, compare_trans⟩, ⟨compare_append_zero a b, ?_⟩,
    ?_, ?_, ?_, ?_, ?_⟩
  · rw [compare_swap (b ++ ".0"), compare_append_zero, ← compare_swap]
  · intro before after run run' hr hr'
    exact compare_congr (by rw [segments_append_separation hr, segments_append_separation hr']) b
  · exact fun hbc hab => compare_trans hab hbc
  · exact fun hbc hca => compare_trans hbc hca
  · rw [compare_swap a b]
    cases compare a b <;> decide
  · rw [compare_swap a b]
    cases compare a b <;> decide

/-- The zero of `5.0` does not count, and a text comes after every number. -/
theorem compare_totalPreorder_of_text :
    let a := "5.0"
    let b := "5"
    let c := "5.a-10"
    compare a b ≠ .gt ∧ compare b c ≠ .gt ∧ compare a c ≠ .gt ∧
      (IsSeparation "." ∧ IsSeparation "-_" ∧ compare ("5" ++ "." ++ "0") b = compare ("5" ++ "-_" ++ "0") b) ∧
      (Policy.atLeast.accepts a b = true ∧ Policy.atLeast.accepts a c = true) ∧
      (Policy.atMost.accepts c c = true ∧ Policy.atMost.accepts c b = true) := by
  intro a b c
  have hab : compare a b ≠ .gt := by decide +kernel
  have hbc : compare b c ≠ .gt := by decide +kernel
  have hone : IsSeparation "." := by decide
  have htwo : IsSeparation "-_" := by decide
  have hleast : Policy.atLeast.accepts a b = true := by decide +kernel
  have hmost : Policy.atMost.accepts c c = true := by decide +kernel
  obtain ⟨⟨-, -, htrans⟩, -, hseparation, hlater, -⟩ := compare_totalPreorder a b c
  obtain ⟨-, -, -, -, hearlier, -⟩ := compare_totalPreorder c b c
  exact ⟨hab, hbc, htrans hab hbc, ⟨hone, htwo, (hseparation "5" "0" "." "-_" hone htwo).1⟩,
    ⟨hleast, hlater hbc hleast⟩, hmost, hearlier hbc hmost⟩

end Version

end EnvModules
