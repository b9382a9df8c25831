import EnvModules.Proofs.Precedence
import Mathlib.Data.Nat.Digits.Lemmas
import Mathlib.Order.Compare
import Mathlib.Tactic.Ring

/-!
Versions that consist of numbers. A number that fits into 64 bits is compared by its value, with any other number,
but two that do not fit are compared as texts. Main statement: such versions are compared as the lists of their
numbers, with zeros put after the shorter one, as long as two numbers at one place that both do not fit have the
same number of digits.
-/

namespace EnvModules

open Text

/-! ### Runs of digits -/

namespace Text

/-- The value of a digit. -/
def digit (c : Char) : ℕ := c.toNat - '0'.toNat

variable {c d : Char} {cs ds : List Char}

theorem toNat_of_isDigit (h : c.isDigit = true) : 48 ≤ c.toNat ∧ c.toNat ≤ 57 := by
  simpa [Char.isDigit, UInt32.le_iff_toNat_le] using h

theorem digit_lt (h : c.isDigit = true) : digit c < 10 := by
  have hc := toNat_of_isDigit h
  have hz : '0'.toNat = 48 := rfl
  rw [digit]
  omega

/-- Digits stand in the order of their values. -/
theorem digit_lt_digit_iff (hc : c.isDigit = true) (hd : d.isDigit = true) : digit c < digit d ↔ c < d := by
  have hc := toNat_of_isDigit hc
  have hd := toNat_of_isDigit hd
  have hz : '0'.toNat = 48 := rfl
  have hlt : c < d ↔ c.toNat < d.toNat := Char.lt_def.trans UInt32.lt_iff_toNat_lt
  rw [hlt, digit, digit]
  omega

theorem digit_inj (hc : c.isDigit = true) (hd : d.isDigit = true) : digit c = digit d ↔ c = d := by
  have hc := toNat_of_isDigit hc
  have hd := toNat_of_isDigit hd
  have hz : '0'.toNat = 48 := rfl
  rw [← Char.toNat_inj, digit, digit]
  omega

/-- The number that digits stand for in base ten. -/
def inBaseTen (cs : List Char) : ℕ := Nat.ofDigits 10 (cs.reverse.map digit)

theorem digitsValue_eq_inBaseTen (cs : List Char) : digitsValue cs = inBaseTen cs := by
  rw [digitsValue, inBaseTen, Nat.ofDigits_eq_foldr, List.foldr_map, List.foldr_reverse]
  simp only [digit, add_comm, Nat.cast_id]

theorem inBaseTen_cons (c : Char) (cs : List Char) :
    inBaseTen (c :: cs) = digit c * 10 ^ cs.length + inBaseTen cs := by
  rw [inBaseTen, inBaseTen, List.reverse_cons, List.map_append, Nat.ofDigits_append]
  simp
  ring

theorem inBaseTen_lt (h : ∀ c ∈ cs, c.isDigit = true) : inBaseTen cs < 10 ^ cs.length := by
  have hd : ∀ n ∈ cs.reverse.map digit, n < 10 := by
    simpa using fun c hc => digit_lt (h c hc)
  simpa [inBaseTen] using Nat.ofDigits_lt_base_pow_length (by decide) hd

theorem inBaseTen_dropWhile_zero (cs : List Char) : inBaseTen (cs.dropWhile (· == '0')) = inBaseTen cs := by
  induction cs with
  | nil => rfl
  | cons c cs ih =>
    by_cases hc : c = '0'
    · subst hc
      rw [inBaseTen_cons, List.dropWhile_cons_of_pos (by decide), ih]
      simp [digit]
    · rw [List.dropWhile_cons_of_neg (by simpa using hc)]

/-- Many digits after the first zeros make a large number. -/
theorem pow_le_inBaseTen {n : ℕ} (h : ∀ c ∈ cs, c.isDigit = true)
    (hn : n < (cs.dropWhile (· == '0')).length) : 10 ^ n ≤ inBaseTen cs := by
  rw [← inBaseTen_dropWhile_zero]
  rcases hd : cs.dropWhile (· == '0') with _ | ⟨c, rest⟩
  · simp [hd] at hn
  · have hmem : c ∈ cs := (List.dropWhile_sublist _).subset (hd ▸ List.mem_cons_self)
    have hc : c ≠ '0' := by simpa [hd] using List.head?_dropWhile_not (· == '0') cs
    have hpos : 0 < digit c :=
      Nat.pos_of_ne_zero fun hz => hc ((digit_inj (h c hmem) (by decide)).1 (hz.trans (by decide)))
    have hlen : n ≤ rest.length := by
      rw [hd] at hn
      exact Nat.le_of_lt_succ hn
    calc 10 ^ n ≤ 10 ^ rest.length := Nat.pow_le_pow_right (by decide) hlen
      _ ≤ digit c * 10 ^ rest.length := Nat.le_mul_of_pos_left _ hpos
      _ ≤ inBaseTen (c :: rest) := by rw [inBaseTen_cons]; exact Nat.le_add_right _ _

/-- A number is read exactly if it fits, however many zeros it begins with. -/
theorem word64?_eq (hn : cs ≠ []) (h : ∀ c ∈ cs, c.isDigit = true) :
    word64? cs = if inBaseTen cs < 2 ^ 64 then some (inBaseTen cs) else none := by
  have hdec : decimal? cs = some (inBaseTen cs) := by
    rw [← digitsValue_eq_inBaseTen]
    exact if_pos ⟨hn, List.all_eq_true.2 h⟩
  have hlimit : word64Limit = 2 ^ 64 := rfl
  rw [word64?, hdec, hlimit]
  split_ifs with hlen hlt hlt
  -- The number of digits is looked at first, but those that are turned down by it are too large as well.
  · exact Option.filter_some_pos (decide_eq_true hlt)
  · exact Option.filter_some_neg (decide_eq_false hlt)
  · have hlarge := pow_le_inBaseTen h (Nat.lt_of_not_le hlen)
    omega
  · rfl

theorem mul_add_lt_mul_add_iff {b x y v w : ℕ} (hv : v < b) (hw : w < b) :
    x * b + v < y * b + w ↔ x < y ∨ x = y ∧ v < w := by
  rcases Nat.lt_trichotomy x y with h | rfl | h
  · have hb := Nat.mul_le_mul_right b h
    rw [Nat.succ_mul] at hb
    omega
  · omega
  · have hb := Nat.mul_le_mul_right b h
    rw [Nat.succ_mul] at hb
    omega

/-- Texts of as many digits stand in the order of the numbers. -/
theorem inBaseTen_lt_inBaseTen_iff (hc : ∀ c ∈ cs, c.isDigit = true) (hd : ∀ d ∈ ds, d.isDigit = true)
    (hlen : cs.length = ds.length) : inBaseTen cs < inBaseTen ds ↔ cs < ds := by
  induction cs generalizing ds with
  | nil =>
    obtain rfl := List.eq_nil_of_length_eq_zero hlen.symm
    simp
  | cons c cs ih =>
    cases ds with
    | nil => exact nomatch hlen
    | cons d ds =>
      obtain ⟨hc, hcs⟩ := List.forall_mem_cons.1 hc
      obtain ⟨hd, hds⟩ := List.forall_mem_cons.1 hd
      have hlen := Nat.succ.inj hlen
      rw [inBaseTen_cons, inBaseTen_cons, hlen,
        mul_add_lt_mul_add_iff (hlen ▸ inBaseTen_lt hcs) (inBaseTen_lt hds), digit_lt_digit_iff hc hd,
        digit_inj hc hd, ih hcs hds hlen, List.cons_lt_cons_iff]

/-- Texts of as many digits are compared as the numbers are. -/
theorem compare_ofList (hc : ∀ c ∈ cs, c.isDigit = true) (hd : ∀ d ∈ ds, d.isDigit = true)
    (hlen : cs.length = ds.length) :
    compare (String.ofList cs) (String.ofList ds) = compare (inBaseTen cs) (inBaseTen ds) := by
  have hlt : String.ofList cs < String.ofList ds ↔ inBaseTen cs < inBaseTen ds := by
    rw [inBaseTen_lt_inBaseTen_iff hc hd hlen, String.lt_iff_toList_lt, String.toList_ofList,
      String.toList_ofList]
  have hgt : String.ofList ds < String.ofList cs ↔ inBaseTen ds < inBaseTen cs := by
    rw [inBaseTen_lt_inBaseTen_iff hd hc hlen.symm, String.lt_iff_toList_lt, String.toList_ofList,
      String.toList_ofList]
  rcases lt_trichotomy (inBaseTen cs) (inBaseTen ds) with h | h | h
  · rw [compare_lt_iff_lt.2 h, compare_lt_iff_lt.2 (hlt.2 h)]
  · rw [compare_eq_iff_eq.2 h, compare_eq_iff_eq]
    exact le_antisymm (not_lt.1 fun hs => (hgt.1 hs).ne' h) (not_lt.1 fun hs => (hlt.1 hs).ne h)
  · rw [compare_gt_iff_gt.2 h, compare_gt_iff_gt.2 (hgt.2 h)]

end Text

namespace Version

/-! ### Versions of numbers -/

/-- The parts of a version that are not empty. -/
def parts (version : String) : List (List Char) :=
  (fields isSeparator version.toList).filter (!·.isEmpty)

/-- Whether every part consists of digits. -/
def IsNumeric (version : String) : Prop := ∀ part ∈ parts version, ∀ c ∈ part, c.isDigit = true

instance : DecidablePred IsNumeric := fun version =>
  decidable_of_iff ((parts version).all (·.all Char.isDigit) = true) (by simp [IsNumeric])

/-- The numbers that the parts stand for. -/
def numbers (version : String) : List ℕ := (parts version).map inBaseTen

/-- How two parts are compared that are numbers: by their values, or as texts if neither fits into 64 bits. -/
def compareNumerals (cs ds : List Char) : Ordering :=
  if 2 ^ 64 ≤ inBaseTen cs ∧ 2 ^ 64 ≤ inBaseTen ds then
    Ord.compare (String.ofList cs) (String.ofList ds)
  else Ord.compare (inBaseTen cs) (inBaseTen ds)

theorem compare_ofChars {cs ds : List Char} (hcn : cs ≠ []) (hc : ∀ c ∈ cs, c.isDigit = true) (hdn : ds ≠ [])
    (hd : ∀ d ∈ ds, d.isDigit = true) :
    (Segment.ofChars cs).compare (Segment.ofChars ds) = compareNumerals cs ds := by
  rw [Segment.ofChars, Segment.ofChars, word64?_eq hcn hc, word64?_eq hdn hd, compareNumerals]
  -- Whether the two numbers fit says how the segments are compared, and which of the rules applies.
  split_ifs with hv hw hb hw hb hb
  · omega
  · rfl
  · omega
  · exact (Nat.compare_eq_lt.2 (by omega)).symm
  · omega
  · exact (Nat.compare_eq_gt.2 (by omega)).symm
  · rfl
  · omega

/-! ### Padded lists -/

theorem compareLex_map {α β : Type} (f : α → β) (cmp : β → β → Ordering) (xs ys : List α) :
    List.compareLex cmp (xs.map f) (ys.map f) = List.compareLex (fun x y => cmp (f x) (f y)) xs ys := by
  induction xs generalizing ys with
  | nil => cases ys <;> rfl
  | cons x xs ih =>
    cases ys with
    | nil => rfl
    | cons y ys => simp only [List.map_cons, List.compareLex_cons_cons, ih]

/-- What is compared at each place decides. -/
theorem compareLex_congr {α : Type} {cmp cmp' : α → α → Ordering} {xs ys : List α}
    (h : ∀ p ∈ xs.zip ys, cmp p.1 p.2 = cmp' p.1 p.2) :
    List.compareLex cmp xs ys = List.compareLex cmp' xs ys := by
  induction xs generalizing ys with
  | nil => cases ys <;> rfl
  | cons x xs ih =>
    cases ys with
    | nil => rfl
    | cons y ys =>
      rw [List.zip_cons_cons, List.forall_mem_cons] at h
      rw [List.compareLex_cons_cons, List.compareLex_cons_cons, h.1, ih h.2]

/-- Places beyond one of the two lists hold what it is filled up with. -/
theorem mem_zip_rightpad {α : Type} {xs ys : List α} {n : ℕ} {z : α} {p : α × α}
    (h : p ∈ (xs.rightpad n z).zip (ys.rightpad n z)) : p ∈ xs.zip ys ∨ p.1 = z ∨ p.2 = z := by
  obtain ⟨i, hi⟩ := List.mem_iff_getElem?.1 h
  obtain ⟨hx, hy⟩ := List.getElem?_zip_eq_some.1 hi
  have hfill {l : List α} {x : α} (hl : (l.rightpad n z)[i]? = some x) : l[i]? = some x ∨ x = z := by
    rw [List.rightpad, List.getElem?_append] at hl
    split at hl
    · exact .inl hl
    · exact .inr (List.eq_of_mem_replicate (List.mem_of_getElem? hl))
  rcases hfill hx with hx | hx
  · rcases hfill hy with hy | hy
    · exact .inl (List.mem_of_getElem? (List.getElem?_zip_eq_some.2 ⟨hx, hy⟩))
    · exact .inr (.inr hy)
  · exact .inr (.inl hx)

theorem map_rightpad {α β : Type} (f : α → β) (n : ℕ) (z : α) (l : List α) :
    (l.rightpad n z).map f = (l.map f).rightpad n (f z) := by
  simp [List.rightpad]

/-! ### The order of versions of numbers -/

variable {a b : String}

/-- The parts of a version, with zeros after them up to a length. -/
def paddedParts (n : ℕ) (version : String) : List (List Char) := (parts version).rightpad n ['0']

theorem IsNumeric.paddedParts (h : IsNumeric a) (n : ℕ) :
    ∀ part ∈ paddedParts n a, part ≠ [] ∧ ∀ c ∈ part, c.isDigit = true := by
  intro part hp
  rcases List.mem_append.1 hp with hp | hp
  · exact ⟨by simpa using (List.mem_filter.1 hp).2, h part hp⟩
  · rw [List.eq_of_mem_replicate hp]
    exact ⟨List.cons_ne_nil _ _, List.forall_mem_singleton.2 rfl⟩

theorem padded_segments (n : ℕ) (version : String) :
    padded n (segments version) = (paddedParts n version).map Segment.ofChars := by
  rw [paddedParts, map_rightpad]
  rfl

theorem length_segments (version : String) : (segments version).length = (parts version).length := by
  simp [segments, parts]

theorem compare_eq_compareLex (ha : IsNumeric a) (hb : IsNumeric b) {n : ℕ} (hna : (parts a).length ≤ n)
    (hnb : (parts b).length ≤ n) :
    compare a b = List.compareLex compareNumerals (paddedParts n a) (paddedParts n b) := by
  rw [← length_segments] at hna hnb
  rw [compare, compareSegments_eq_compareLex hna hnb, padded_segments, padded_segments, compareLex_map]
  refine compareLex_congr fun p hp => ?_
  obtain ⟨hpa, hpb⟩ := List.of_mem_zip hp
  obtain ⟨hna, hda⟩ := ha.paddedParts n p.1 hpa
  obtain ⟨hnb, hdb⟩ := hb.paddedParts n p.2 hpb
  exact compare_ofChars hna hda hnb hdb

/-- Versions of numbers are compared place by place, with zeros put after the shorter one. Two numbers that do not
fit into 64 bits are compared as texts, and all others by their values. So the order is that of the lists of
numbers if two numbers at one place that both do not fit have as many digits. -/
theorem compare_numbers (a b : String) (ha : IsNumeric a) (hb : IsNumeric b) :
    let n := max (parts a).length (parts b).length
    compare a b = List.compareLex compareNumerals (paddedParts n a) (paddedParts n b) ∧
      ((∀ p ∈ (parts a).zip (parts b), 2 ^ 64 ≤ inBaseTen p.1 → 2 ^ 64 ≤ inBaseTen p.2 →
          p.1.length = p.2.length) →
        compare a b = List.compareLex Ord.compare ((numbers a).rightpad n 0) ((numbers b).rightpad n 0)) := by
  intro n
  have hna : (parts a).length ≤ n := Nat.le_max_left _ _
  have hnb : (parts b).length ≤ n := Nat.le_max_right _ _
  have hcompare := compare_eq_compareLex ha hb hna hnb
  refine ⟨hcompare, fun hlen => ?_⟩
  have hnumbers (version : String) : (numbers version).rightpad n 0 = (paddedParts n version).map inBaseTen :=
    (map_rightpad inBaseTen n ['0'] (parts version)).symm
  rw [hcompare, hnumbers a, hnumbers b, compareLex_map]
  refine compareLex_congr fun p hp => ?_
  obtain ⟨hpa, hpb⟩ := List.of_mem_zip hp
  have hda := (ha.paddedParts n p.1 hpa).2
  have hdb := (hb.paddedParts n p.2 hpb).2
  rw [compareNumerals]
  split_ifs with hbig
  · -- A zero that was put there would fit.
    have hzero : ¬ 2 ^ 64 ≤ inBaseTen ['0'] := by decide
    rcases mem_zip_rightpad hp with hp | hp | hp
    · exact compare_ofList hda hdb (hlen p hp hbig.1 hbig.2)
    · exact absurd (hp ▸ hbig.1) hzero
    · exact absurd (hp ▸ hbig.2) hzero
  · rfl

/-- Zeros in front do not count while a number fits, and two numbers of twenty digits are told apart. -/
theorem compare_numbers_of_twenty_digits :
    let a := "2024.007.18446744073709551616"
    let b := "2024-7-18446744073709551617-0"
    let n := max (parts a).length (parts b).length
    IsNumeric a ∧ IsNumeric b ∧
      (∀ p ∈ (parts a).zip (parts b), 2 ^ 64 ≤ inBaseTen p.1 → 2 ^ 64 ≤ inBaseTen p.2 →
        p.1.length = p.2.length) ∧
      compare a b = List.compareLex Ord.compare ((numbers a).rightpad n 0) ((numbers b).rightpad n 0) ∧
      compare a b = .lt := by
  intro a b n
  have ha : IsNumeric a := by decide +kernel
  have hb : IsNumeric b := by decide +kernel
  have hlen : ∀ p ∈ (parts a).zip (parts b), 2 ^ 64 ≤ inBaseTen p.1 → 2 ^ 64 ≤ inBaseTen p.2 →
      p.1.length = p.2.length := by
    decide +kernel
  exact ⟨ha, hb, hlen, (compare_numbers a b ha hb).2 hlen, by decide +kernel⟩

/-- The number that has fewer digits is the smaller one, but its text comes later. -/
theorem compare_ne_compareLex_numbers :
    let a := "99999999999999999999"
    let b := "100000000000000000000"
    IsNumeric a ∧ IsNumeric b ∧ numbers a = [10 ^ 20 - 1] ∧ numbers b = [10 ^ 20] ∧ compare a b = .gt ∧
      List.compareLex Ord.compare (numbers a) (numbers b) = .lt := by
  decide +kernel

end Version

end EnvModules
