/-!
Finite maps from names to values, kept as a list in ascending order of names. Two maps that agree on
every name are equal.
-/

namespace EnvModules

structure Bindings (α : Type) where
  entries : List (String × α)
  ascending : entries.Pairwise (fun a b => a.1 < b.1)
  deriving DecidableEq

namespace Bindings

variable {α : Type}

def empty : Bindings α := ⟨[], .nil⟩

instance : EmptyCollection (Bindings α) := ⟨empty⟩

def isEmpty (m : Bindings α) : Bool := m.entries.isEmpty

def get? (m : Bindings α) (name : String) : Option α := m.entries.lookup name

/-- Puts a name at its place in the order, in the place of an earlier value if there is one. -/
def insertEntry (name : String) (value : α) : List (String × α) → List (String × α)
  | [] => [(name, value)]
  | (n, v) :: rest =>
    if name = n then (name, value) :: rest
    else if name < n then (name, value) :: (n, v) :: rest
    else (n, v) :: insertEntry name value rest

theorem mem_insertEntry {name : String} {value : α} {l : List (String × α)} {e : String × α}
    (h : e ∈ insertEntry name value l) : e = (name, value) ∨ e ∈ l := by
  induction l with
  | nil => simpa [insertEntry] using h
  | cons a rest ih =>
    simp only [insertEntry] at h
    split at h
    · simp at h ⊢; grind
    · split at h
      · simpa using h
      · simp at h ⊢; grind

theorem insertEntry_ascending {name : String} {value : α} {l : List (String × α)}
    (h : l.Pairwise (fun a b => a.1 < b.1)) :
    (insertEntry name value l).Pairwise (fun a b => a.1 < b.1) := by
  induction l with
  | nil => simp [insertEntry]
  | cons a rest ih =>
    obtain ⟨n, v⟩ := a
    have ⟨hn, hr⟩ := List.pairwise_cons.1 h
    simp only [insertEntry]
    split
    · next e => subst e; exact List.pairwise_cons.2 ⟨hn, hr⟩
    · next ne =>
      split
      · next lt =>
        refine List.pairwise_cons.2 ⟨fun b hb => ?_, h⟩
        rcases List.mem_cons.1 hb with rfl | hb
        · exact lt
        · exact String.lt_trans lt (hn b hb)
      · next nlt =>
        refine List.pairwise_cons.2 ⟨fun b hb => ?_, ih hr⟩
        rcases mem_insertEntry hb with rfl | hb
        · exact Std.lt_of_le_of_ne (String.not_lt.1 nlt) (Ne.symm ne)
        · exact hn b hb

def insert (m : Bindings α) (name : String) (value : α) : Bindings α :=
  ⟨insertEntry name value m.entries, insertEntry_ascending m.ascending⟩

def erase (m : Bindings α) (name : String) : Bindings α :=
  ⟨m.entries.filter (·.1 != name), m.ascending.filter _⟩

/-- Later pairs win over earlier ones of the same name. -/
def ofList (pairs : List (String × α)) : Bindings α :=
  pairs.foldl (fun m e => m.insert e.1 e.2) empty

@[simp] theorem get?_empty (name : String) : (empty : Bindings α).get? name = none := rfl

theorem lookup_cons_eq_ite (n : String) (v : α) (rest : List (String × α)) (k : String) :
    ((n, v) :: rest).lookup k = if k = n then some v else rest.lookup k := by
  by_cases h : k = n
  · simp [h]
  · simp [List.lookup_cons, h, beq_eq_false_iff_ne.2 h]

theorem lookup_insertEntry (name : String) (value : α) (l : List (String × α)) (k : String) :
    (insertEntry name value l).lookup k = if k = name then some value else l.lookup k := by
  induction l with
  | nil => simp [insertEntry, lookup_cons_eq_ite]
  | cons a rest ih =>
    obtain ⟨n, v⟩ := a
    simp only [insertEntry]
    grind [lookup_cons_eq_ite]

@[simp] theorem get?_insert (m : Bindings α) (name : String) (value : α) (k : String) :
    (m.insert name value).get? k = if k = name then some value else m.get? k :=
  lookup_insertEntry name value m.entries k

theorem lookup_filter_ne (l : List (String × α)) (name k : String) :
    (l.filter (·.1 != name)).lookup k = if k = name then none else l.lookup k := by
  induction l with
  | nil => simp
  | cons a rest ih =>
    obtain ⟨n, v⟩ := a
    by_cases hn : n = name
    · subst hn
      simp only [List.filter_cons, bne_self_eq_false, Bool.false_eq_true, if_false, ih]
      grind [lookup_cons_eq_ite]
    · have hn' : (n != name) = true := by simpa using hn
      simp only [List.filter_cons, hn', if_true, lookup_cons_eq_ite, ih]
      grind

@[simp] theorem get?_erase (m : Bindings α) (name k : String) :
    (m.erase name).get? k = if k = name then none else m.get? k :=
  lookup_filter_ne m.entries name k

theorem mem_of_lookup {l : List (String × α)} {k : String} {v : α} (h : l.lookup k = some v) :
    (k, v) ∈ l := by
  induction l with
  | nil => simp at h
  | cons a rest ih =>
    rw [lookup_cons_eq_ite a.1 a.2] at h
    split at h
    · next hk =>
      subst hk
      obtain rfl : a.2 = v := by simpa using h
      exact List.mem_cons_self
    · exact List.mem_cons_of_mem _ (ih h)

theorem lookup_of_mem {l : List (String × α)} (hl : l.Pairwise (fun a b => a.1 < b.1)) {k : String}
    {v : α} (h : (k, v) ∈ l) : l.lookup k = some v := by
  induction l with
  | nil => simp at h
  | cons a rest ih =>
    have ⟨ha, hr⟩ := List.pairwise_cons.1 hl
    rw [lookup_cons_eq_ite a.1 a.2]
    rcases List.mem_cons.1 h with rfl | h
    · simp
    · have hk : k ≠ a.1 := fun he => String.lt_irrefl _ (he ▸ ha _ h)
      simp [hk, ih hr h]

theorem get?_eq_some_iff {m : Bindings α} {k : String} {v : α} :
    m.get? k = some v ↔ (k, v) ∈ m.entries :=
  ⟨mem_of_lookup, lookup_of_mem m.ascending⟩

theorem ext_get? {m m' : Bindings α} (h : ∀ k, m.get? k = m'.get? k) : m = m' := by
  have hmem : ∀ e, e ∈ m.entries ↔ e ∈ m'.entries := fun e => by
    rw [← get?_eq_some_iff (k := e.1) (v := e.2), ← get?_eq_some_iff (k := e.1) (v := e.2), h]
  have := eq_of_ascending m.ascending m'.ascending hmem
  cases m; cases m'; simp_all
where
  /-- Ascending lists with the same members are equal. -/
  eq_of_ascending {l l' : List (String × α)} (hl : l.Pairwise (fun a b => a.1 < b.1))
      (hl' : l'.Pairwise (fun a b => a.1 < b.1)) (h : ∀ e, e ∈ l ↔ e ∈ l') : l = l' := by
    induction l generalizing l' with
    | nil =>
      cases l' with
      | nil => rfl
      | cons b _ => exact absurd ((h b).2 (by simp)) (by simp)
    | cons a rest ih =>
      cases l' with
      | nil => exact absurd ((h a).1 (by simp)) (by simp)
      | cons b rest' =>
        have ⟨ha, hr⟩ := List.pairwise_cons.1 hl
        have ⟨hb, hr'⟩ := List.pairwise_cons.1 hl'
        have hab : a = b := by
          rcases List.mem_cons.1 ((h a).1 (by simp)) with e | hm
          · exact e
          · rcases List.mem_cons.1 ((h b).2 (by simp)) with e | hm'
            · exact e.symm
            · exact absurd (hb a hm) (String.lt_asymm (ha b hm'))
        subst hab
        congr 1
        refine ih hr hr' fun e => ⟨fun he => ?_, fun he => ?_⟩
        · rcases List.mem_cons.1 ((h e).1 (List.mem_cons_of_mem _ he)) with rfl | h'
          · exact absurd (ha _ he) (String.lt_irrefl _)
          · exact h'
        · rcases List.mem_cons.1 ((h e).2 (List.mem_cons_of_mem _ he)) with rfl | h'
          · exact absurd (hb _ he) (String.lt_irrefl _)
          · exact h'

end Bindings

end EnvModules
