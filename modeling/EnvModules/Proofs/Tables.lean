import EnvModules.Proofs.Columns
import Mathlib.Algebra.Ring.Nat

/-!
Rows in a table. Main statements: the cells of a column begin at one offset in all rows, only the cells of a
widest column are ever shortened, and no line is too long unless that column would become too narrow. Cells are
apart, except that a column that has been narrowed may be filled to its end.
-/

namespace EnvModules

open Text

namespace Layout

/-! ### Texts on a line -/

/-- Texts on a line, one in each column: in full from where the column begins, and with only spaces beside
them. -/
structure Places (offset : Nat → Nat) (texts : List (List Char)) (chars : List Char) : Prop where
  place : ∀ column text, texts[column]? = some text → text <+: chars.drop (offset column)
  within : ∀ column text, texts[column]? = some text → offset column + text.length ≤ offset (column + 1)
  only : ∀ k c, chars[k]? = some c → c ≠ ' ' →
    ∃ column text, texts[column]? = some text ∧ offset column ≤ k ∧ k < offset column + text.length
  length_chars : chars.length = offset texts.length

theorem eq_of_getElem?_spaces {n k : Nat} {c : Char} (h : (spaces n)[k]? = some c) : c = ' ' :=
  List.eq_of_mem_replicate (List.mem_of_getElem? h)

theorem getElem?_concat_cases {l : List (List Char)} {a x : List Char} {i : Nat} (h : (l ++ [a])[i]? = some x) :
    l[i]? = some x ∨ i = l.length ∧ x = a := by
  rw [List.getElem?_append] at h
  split at h
  · exact .inl h
  · next hi =>
    obtain ⟨hlt, he⟩ := List.getElem?_eq_some_iff.1 h
    have hl : i - l.length < 1 := hlt
    refine .inr ⟨by omega, ?_⟩
    rw [← he, List.getElem_singleton]

namespace Places

variable {offset : Nat → Nat} {texts : List (List Char)} {line text : List Char}

theorem nil (offset : Nat → Nat) : Places offset [] (spaces (offset 0)) where
  place := nofun
  within := nofun
  only _ _ hk hc := absurd (eq_of_getElem?_spaces hk) hc
  length_chars := List.length_replicate

/-- One more text at the end of the line, in a column that it fits into. -/
theorem concat (h : Places offset texts line) {size : Nat} (hs : text.length ≤ size)
    (ho : offset (texts.length + 1) = offset texts.length + size) :
    Places offset (texts ++ [text]) (line ++ pad text size) := by
  have hlen := h.length_chars
  constructor
  · intro column t ht
    rw [List.drop_append]
    rcases getElem?_concat_cases ht with ht | ⟨rfl, rfl⟩
    · exact (h.place column t ht).trans (List.prefix_append _ _)
    · rw [← hlen, List.drop_length, Nat.sub_self, List.nil_append, List.drop_zero]
      exact List.prefix_append _ _
  · intro column t ht
    rcases getElem?_concat_cases ht with ht | ⟨rfl, rfl⟩
    · exact h.within column t ht
    · omega
  · intro k c hk hc
    rw [List.getElem?_append] at hk
    split at hk
    · obtain ⟨column, t, ht, hle, hlt⟩ := h.only k c hk hc
      have hcolumn : column < texts.length := (List.getElem?_eq_some_iff.1 ht).1
      exact ⟨column, t, by rw [List.getElem?_append_left hcolumn, ht], hle, hlt⟩
    · next hge =>
      -- A character of what is added belongs to the text, since there are only spaces after it.
      have hwithin : k - line.length < text.length := by
        by_contra hle
        rw [pad, List.getElem?_append_right (Nat.le_of_not_lt hle)] at hk
        exact hc (eq_of_getElem?_spaces hk)
      exact ⟨texts.length, text, List.getElem?_concat_length, by omega, by omega⟩
  · rw [List.length_append, length_pad hs, hlen, List.length_append, List.length_singleton, ho]

/-- More texts one after the other, by induction on the columns that are left. -/
theorem append {more : List (List Char)} {sizes : List Nat}
    (hf : List.Forall₂ (fun t size => t.length ≤ size) more sizes) (h : Places offset texts line)
    (ho : ∀ column, offset (texts.length + column) = offset texts.length + (sizes.take column).sum) :
    Places offset (texts ++ more) (line ++ (more.zip sizes).flatMap fun e => pad e.1 e.2) := by
  induction hf generalizing texts line with
  | nil => simpa using h
  | @cons t size more sizes ht _ ih =>
    have hone : offset (texts.length + 1) = offset texts.length + size := by simpa using ho 1
    have hrest := ih (h.concat ht hone) fun column => by
      have hc := ho (column + 1)
      rw [List.take_succ_cons, List.sum_cons] at hc
      rw [List.length_append, List.length_singleton, Nat.add_assoc, Nat.add_comm 1, hc, hone, Nat.add_assoc]
    rw [List.zip_cons_cons, List.flatMap_cons]
    simpa using hrest

end Places

/-! ### Shortened cells -/

section Cell

variable {cell : List Char} {size : Nat}

/-- A text that a longer one is shortened to: as much of its beginning as of its end, around three dots. -/
def Shortens (cell text : List Char) : Prop :=
  ∃ front omitted back, cell = front ++ omitted ++ back ∧ text = front ++ ['.', '.', '.'] ++ back ∧
    front ≠ [] ∧ front.length = back.length ∧ 3 < omitted.length

theorem elide_of_le (h : cell.length ≤ size) : elide cell (cell.length - size) = cell := by
  rw [Nat.sub_eq_zero_of_le h, elide, if_pos rfl]

theorem elide_of_lt (hs : 5 ≤ size) (hc : size < cell.length) :
    elide cell (cell.length - size) =
      cell.take ((size - 3) / 2) ++ ['.', '.', '.'] ++ cell.drop (cell.length - (size - 3) / 2) := by
  have hamount : cell.length - size ≠ 0 := by omega
  have hremaining : cell.length - (cell.length - size) = size := by omega
  simp only [elide, if_neg hamount, hremaining]
  split
  · rfl
  · -- One character stays at either end in the least size, as the rule for the greater ones would have it.
    obtain rfl : size = 5 := by omega
    rfl

theorem shortens_around {kept : Nat} (hk : kept ≠ 0) (hc : 2 * kept + 3 < cell.length) :
    Shortens cell (cell.take kept ++ ['.', '.', '.'] ++ cell.drop (cell.length - kept)) := by
  have hfront : (cell.take kept).length = kept := List.length_take_of_le (by omega)
  have hback : (cell.drop (cell.length - kept)).length = kept := by
    rw [List.length_drop]
    omega
  -- What is omitted comes after the front and is as long as both ends leave it.
  have hdrop : (cell.drop kept).drop (cell.length - 2 * kept) = cell.drop (cell.length - kept) := by
    rw [List.drop_drop]
    congr 1
    omega
  refine ⟨cell.take kept, (cell.drop kept).take (cell.length - 2 * kept), cell.drop (cell.length - kept), ?_, rfl, ?_,
    hfront.trans hback.symm, ?_⟩
  · rw [← hdrop, List.append_assoc, List.take_append_drop, List.take_append_drop]
  · apply List.ne_nil_of_length_pos
    omega
  · rw [List.length_take, List.length_drop]
    omega

theorem shortens_elide (hs : 5 ≤ size) (hc : size < cell.length) :
    Shortens cell (elide cell (cell.length - size)) := by
  rw [elide_of_lt hs hc]
  exact shortens_around (by omega) (by omega)

/-- A shortened cell fills a column of odd size, and leaves one place free in one of even size. -/
theorem length_elide (hs : 5 ≤ size) (hc : size < cell.length) :
    (elide cell (cell.length - size)).length = size - (size + 1) % 2 := by
  simp only [elide_of_lt hs hc, List.length_append, List.length_take, List.length_drop, List.length_cons,
    List.length_nil]
  omega

theorem newline_not_mem_elide (h : '\n' ∉ cell) (amount : Nat) : '\n' ∉ elide cell amount := by
  unfold elide
  split
  · exact h
  · rw [List.mem_append, List.mem_append]
    rintro ((hm | hm) | hm)
    · exact h (List.mem_of_mem_take hm)
    · revert hm
      decide
    · exact h (List.mem_of_mem_drop hm)

end Cell

/-! ### Sizes of columns -/

theorem naturalSizes_concat (rows : List (List (List Char))) (row : List (List Char)) :
    naturalSizes (rows ++ [row]) =
      List.zipWith (fun size cell => max size (cell.length + 1)) (naturalSizes rows) row := by
  rw [naturalSizes, List.foldl_append]
  rfl

theorem length_naturalSizes {rows : List (List (List Char))} (h : ∀ row ∈ rows, row.length = 3) :
    (naturalSizes rows).length = 3 := by
  induction rows using List.reverseRecOn with
  | nil => rfl
  | append_singleton rows row ih =>
    obtain ⟨hrows, hrow⟩ := List.forall_mem_append.1 h
    rw [naturalSizes_concat, List.length_zipWith, ih hrows, hrow row (List.mem_singleton_self row), Nat.min_self]

/-- A column is as large as its longest cell with a space after it, by induction on the rows from the last. -/
theorem getElem?_naturalSizes {rows : List (List (List Char))} {column size : Nat}
    (h : (naturalSizes rows)[column]? = some size) :
    (∀ row ∈ rows, ∀ cell, row[column]? = some cell → cell.length < size) ∧
      (size = 0 ∨ ∃ row ∈ rows, ∃ cell, row[column]? = some cell ∧ size = cell.length + 1) := by
  induction rows using List.reverseRecOn generalizing size with
  | nil =>
    have hzero : ∀ n ∈ naturalSizes [], n = 0 := by decide
    exact ⟨nofun, .inl (hzero size (List.mem_of_getElem? h))⟩
  | append_singleton rows row ih =>
    rw [naturalSizes_concat] at h
    obtain ⟨before, cell, hbefore, hcell, rfl⟩ := List.getElem?_zipWith_eq_some.1 h
    obtain ⟨hlt, hlongest⟩ := ih hbefore
    refine ⟨List.forall_mem_append.2 ⟨fun r hr c hc => ?_, fun r hr c hc => ?_⟩, ?_⟩
    · exact (hlt r hr c hc).trans_le (Nat.le_max_left _ _)
    · obtain rfl := List.mem_singleton.1 hr
      obtain rfl : cell = c := Option.some.inj (hcell.symm.trans hc)
      exact Nat.le_max_right _ _
    · right
      -- The new row has the longest cell, or one of the rows before it does.
      rcases Nat.le_total before (cell.length + 1) with hle | hle
      · exact ⟨row, List.mem_append_right _ (List.mem_singleton_self row), cell, hcell, Nat.max_eq_right hle⟩
      · rw [Nat.max_eq_left hle]
        obtain ⟨r, hr, c, hc, he⟩ := hlongest.resolve_left (by omega)
        exact ⟨r, List.mem_append_left _ hr, c, hc, he⟩

/-- A largest size and the last column that has it, of which `widestColumn` is the column. -/
def lastLargest (sizes : List Nat) : Nat × Nat :=
  sizes.zipIdx.foldl (fun best e => if best.1 ≤ e.1 then e else best) (0, 0)

theorem lastLargest_concat (sizes : List Nat) (size : Nat) :
    lastLargest (sizes ++ [size]) =
      if (lastLargest sizes).1 ≤ size then (size, sizes.length) else lastLargest sizes := by
  rw [lastLargest, List.zipIdx_append, List.foldl_append, List.zipIdx_singleton, Nat.zero_add]
  rfl

theorem le_lastLargest (sizes : List Nat) : ∀ size ∈ sizes, size ≤ (lastLargest sizes).1 := by
  induction sizes using List.reverseRecOn with
  | nil => exact nofun
  | append_singleton sizes last ih =>
    rw [lastLargest_concat]
    split
    · next h =>
      refine List.forall_mem_append.2 ⟨fun n hn => (ih n hn).trans h, fun n hn => ?_⟩
      exact (List.mem_singleton.1 hn).le
    · next h =>
      refine List.forall_mem_append.2 ⟨ih, fun n hn => ?_⟩
      rw [List.mem_singleton.1 hn]
      exact (Nat.lt_of_not_le h).le

theorem getElem?_lastLargest {sizes : List Nat} (hn : sizes ≠ []) :
    sizes[(lastLargest sizes).2]? = some (lastLargest sizes).1 := by
  induction sizes using List.reverseRecOn with
  | nil => contradiction
  | append_singleton sizes last ih =>
    rw [lastLargest_concat]
    split
    · exact List.getElem?_concat_length
    · next h =>
      -- The first column is never passed over, as every size is at least zero.
      have hget := ih fun he => h (he ▸ Nat.zero_le last)
      rw [List.getElem?_append_left (List.getElem?_eq_some_iff.1 hget).1, hget]

theorem total_eq_sum (sizes : List Nat) : total sizes = sizes.sum := List.sum_eq_foldl.symm

theorem sum_modify {sizes : List Nat} {column size : Nat} (h : sizes[column]? = some size) (f : Nat → Nat) :
    (sizes.modify column f).sum + size = sizes.sum + f size := by
  induction sizes generalizing column with
  | nil => contradiction
  | cons first rest ih =>
    cases column with
    | zero =>
      obtain rfl : first = size := Option.some.inj h
      rw [List.modify_zero_cons, List.sum_cons, List.sum_cons]
      omega
    | succ column =>
      have hrest := ih (show rest[column]? = some size from h)
      rw [List.modify_succ_cons, List.sum_cons, List.sum_cons]
      omega

variable (l : Layout) (sizes : List Nat)

theorem fittedSizes_of_le (h : sizes.sum ≤ l.width) : l.fittedSizes sizes = (none, sizes) := by
  rw [fittedSizes, total_eq_sum, if_pos h]

theorem fittedSizes_of_lt (h : l.width < sizes.sum) :
    l.fittedSizes sizes = (some (widestColumn sizes),
      sizes.modify (widestColumn sizes) fun size => max (size - (sizes.sum - l.width)) 5) := by
  rw [fittedSizes, total_eq_sum, if_neg h.not_ge]

/-- Whether a column is the one that is narrowed. -/
def Narrows (column : Nat) : Prop := l.width < sizes.sum ∧ column = widestColumn sizes

/-- What the widest column has left when all that is too much is taken from it, though no less than five. -/
def narrowedSize : Nat := max (sizes.getD (widestColumn sizes) 0 - (sizes.sum - l.width)) 5

theorem five_le_narrowedSize : 5 ≤ l.narrowedSize sizes := Nat.le_max_right _ _

theorem fst_fittedSizes {column : Nat} : (l.fittedSizes sizes).1 = some column ↔ l.Narrows sizes column := by
  rcases Nat.lt_or_ge l.width sizes.sum with h | h
  · rw [l.fittedSizes_of_lt sizes h, Narrows]
    simp [h, eq_comm]
  · rw [l.fittedSizes_of_le sizes h, Narrows]
    simp [h.not_gt]

/-- A column has the size that its cells ask for, unless it is narrowed. -/
theorem getElem?_fittedSizes {column size : Nat} (h : (l.fittedSizes sizes).2[column]? = some size) :
    ¬ l.Narrows sizes column ∧ sizes[column]? = some size ∨
      l.Narrows sizes column ∧ size = l.narrowedSize sizes := by
  rcases Nat.lt_or_ge l.width sizes.sum with hw | hw
  · rw [l.fittedSizes_of_lt sizes hw] at h
    by_cases hc : column = widestColumn sizes
    · rw [hc, List.getElem?_modify_eq] at h
      obtain ⟨natural, hn, rfl⟩ := Option.map_eq_some_iff.1 h
      refine .inr ⟨⟨hw, hc⟩, ?_⟩
      rw [narrowedSize, List.getD_eq_getElem?_getD, hn]
      rfl
    · rw [List.getElem?_modify_ne _ _ (Ne.symm hc)] at h
      exact .inl ⟨fun hnarrow => hc hnarrow.2, h⟩
  · rw [l.fittedSizes_of_le sizes hw] at h
    exact .inl ⟨fun hnarrow => hw.not_gt hnarrow.1, h⟩

theorem length_fittedSizes : (l.fittedSizes sizes).2.length = sizes.length := by
  rcases Nat.lt_or_ge l.width sizes.sum with h | h
  · rw [l.fittedSizes_of_lt sizes h, List.length_modify]
  · rw [l.fittedSizes_of_le sizes h]

theorem sum_fittedSizes_le {largest : Nat} (hw : sizes[widestColumn sizes]? = some largest)
    (h : sizes.sum ≤ l.width ∨ 5 ≤ largest - (sizes.sum - l.width)) :
    (l.fittedSizes sizes).2.sum ≤ l.width := by
  rcases Nat.lt_or_ge l.width sizes.sum with hlt | hge
  · have hroom : 5 ≤ largest - (sizes.sum - l.width) := h.resolve_left hlt.not_ge
    -- The widest column gives up all that is too much.
    have hsum : (l.fittedSizes sizes).2.sum + largest = sizes.sum + (largest - (sizes.sum - l.width)) := by
      rw [l.fittedSizes_of_lt sizes hlt, sum_modify hw, Nat.max_eq_left hroom]
    omega
  · rw [l.fittedSizes_of_le sizes hge]
    exact hge

/-! ### Rows -/

/-- What a column has in the place of a cell. -/
def shownCell (narrowed : Option Nat) (size column : Nat) (cell : List Char) : List Char :=
  if narrowed = some column then elide cell (cell.length - size) else cell

def shownCells (narrowed : Option Nat) (sizes : List Nat) (row : List (List Char)) : List (List Char) :=
  (row.zip sizes).zipIdx.map fun e => shownCell narrowed e.1.2 e.2 e.1.1

theorem getElem?_shownCells {narrowed : Option Nat} {sizes : List Nat} {row : List (List Char)} {column : Nat}
    {text : List Char} :
    (shownCells narrowed sizes row)[column]? = some text ↔
      ∃ cell size, row[column]? = some cell ∧ sizes[column]? = some size ∧
        text = shownCell narrowed size column cell := by
  simp only [shownCells, List.getElem?_map, List.getElem?_zipIdx, Option.map_map, Option.map_eq_some_iff,
    List.getElem?_zip_eq_some, Prod.exists, Nat.zero_add, Function.comp_apply, and_assoc]
  simp only [eq_comm]

theorem length_shownCells {narrowed : Option Nat} {sizes : List Nat} {row : List (List Char)}
    (h : sizes.length = row.length) : (shownCells narrowed sizes row).length = row.length := by
  rw [shownCells, List.length_map, List.length_zipIdx, List.length_zip, h, Nat.min_self]

theorem tableRow_eq (narrowed : Option Nat) (sizes : List Nat) (margin : Nat) (row : List (List Char)) :
    tableRow narrowed sizes margin row =
      spaces margin ++ ((shownCells narrowed sizes row).zip sizes).flatMap fun e => pad e.1 e.2 := by
  rw [tableRow, List.flatMap_def, List.flatMap_def]
  congr 2
  apply List.ext_getElem
  · simp [shownCells]
  · intro column _ _
    simp [shownCells, shownCell]

/-- Texts for the cells of a row, of which only the one in a column of some size may be shortened. It is if the
cell is longer than the column, and then it takes up all of the column but one place at most. -/
structure Abridges (column size : Nat) (cells texts : List (List Char)) : Prop where
  length_eq : texts.length = cells.length
  others : ∀ c, c ≠ column → texts[c]? = cells[c]?
  shortened : ∀ cell text, cells[column]? = some cell → texts[column]? = some text →
    cell.length ≤ size ∧ text = cell ∨ size < cell.length ∧ Shortens cell text ∧ size ≤ text.length + 1

section Rows

variable (rows : List (List (List Char)))

def columnSizes : List Nat := (l.fittedSizes (naturalSizes rows)).2

/-- Where a column begins. -/
def columnOffset (column : Nat) : Nat :=
  (l.width - total (l.columnSizes rows)) / 2 + ((l.columnSizes rows).take column).sum

/-- A row as it is before the blanks at its end are cut off. -/
def writtenRow (row : List (List Char)) : List Char :=
  tableRow (l.fittedSizes (naturalSizes rows)).1 (l.columnSizes rows)
    ((l.width - total (l.columnSizes rows)) / 2) row

def shownRow (row : List (List Char)) : List (List Char) :=
  shownCells (l.fittedSizes (naturalSizes rows)).1 (l.columnSizes rows) row

theorem columnOffset_succ {column size : Nat} (h : (l.columnSizes rows)[column]? = some size) :
    l.columnOffset rows (column + 1) = l.columnOffset rows column + size := by
  rw [columnOffset, columnOffset, List.take_add_one, List.sum_append, h, Nat.add_assoc]
  rfl

variable {rows} (h3 : ∀ row ∈ rows, row.length = 3)
include h3

theorem length_columnSizes : (l.columnSizes rows).length = 3 := by
  rw [columnSizes, length_fittedSizes, length_naturalSizes h3]

variable {row : List (List Char)} (hr : row ∈ rows) {column : Nat}
include hr

theorem length_shownRow : (l.shownRow rows row).length = row.length :=
  length_shownCells ((l.length_columnSizes h3).trans (h3 row hr).symm)

omit h3

/-- A cell is in full and followed by a space, or it is shortened to the size of a column that is narrowed. -/
theorem shownRow_cases {cell text : List Char} (hc : row[column]? = some cell)
    (ht : (l.shownRow rows row)[column]? = some text) :
    ∃ size, (l.columnSizes rows)[column]? = some size ∧
      (¬ l.Narrows (naturalSizes rows) column ∧ text = cell ∧ cell.length < size ∨
        l.Narrows (naturalSizes rows) column ∧ text = elide cell (cell.length - size) ∧
          size = l.narrowedSize (naturalSizes rows)) := by
  obtain ⟨cell', size, hcell, hsize, rfl⟩ := getElem?_shownCells.1 ht
  obtain rfl : cell' = cell := Option.some.inj (hcell.symm.trans hc)
  refine ⟨size, hsize, ?_⟩
  -- A size that the cells asked for is greater than each of them. A narrowed one says nothing about them.
  rcases l.getElem?_fittedSizes _ hsize with ⟨hn, hnatural⟩ | ⟨hn, rfl⟩
  · exact .inl ⟨hn, if_neg (mt (l.fst_fittedSizes _).1 hn), (getElem?_naturalSizes hnatural).1 row hr _ hc⟩
  · exact .inr ⟨hn, if_pos ((l.fst_fittedSizes _).2 hn), rfl⟩

/-- A text has room in its column, and it is the cell itself if there is room for that. -/
theorem shownRow_spec {cell text : List Char} (hc : row[column]? = some cell)
    (ht : (l.shownRow rows row)[column]? = some text) :
    ∃ size, (l.columnSizes rows)[column]? = some size ∧ text.length ≤ size ∧
      (cell.length ≤ size ∧ text = cell ∨
        size < cell.length ∧ l.Narrows (naturalSizes rows) column ∧ Shortens cell text ∧
          size ≤ text.length + 1) := by
  obtain ⟨size, hs, ⟨-, rfl, hlt⟩ | ⟨hn, rfl, hsize⟩⟩ := l.shownRow_cases hr hc ht
  · exact ⟨size, hs, hlt.le, .inl ⟨hlt.le, rfl⟩⟩
  · have h5 : 5 ≤ size := hsize ▸ l.five_le_narrowedSize _
    refine ⟨size, hs, ?_⟩
    rcases Nat.lt_or_ge size cell.length with hlt | hle
    · have hlen := length_elide h5 hlt
      exact ⟨by omega, .inr ⟨hlt, hn, shortens_elide h5 hlt, by omega⟩⟩
    · rw [elide_of_le hle]
      exact ⟨hle, .inl ⟨hle, rfl⟩⟩

include h3

/-- A row as it is written, up to the blanks at its end, has its texts where the columns begin. -/
theorem places_writtenRow :
    Places (l.columnOffset rows) (l.shownRow rows row) (l.writtenRow rows row) := by
  have hlen := l.length_shownRow h3 hr
  have hsizes : (l.shownRow rows row).length = (l.columnSizes rows).length := by
    rw [hlen, h3 row hr, l.length_columnSizes h3]
  have hfits : List.Forall₂ (fun text size => text.length ≤ size) (l.shownRow rows row) (l.columnSizes rows) := by
    refine List.forall₂_iff_get.2 ⟨hsizes, fun column ht _ => ?_⟩
    have hrow : column < row.length := hlen ▸ ht
    obtain ⟨size, hs, hle, -⟩ :=
      l.shownRow_spec hr (List.getElem?_eq_getElem hrow) (List.getElem?_eq_getElem ht)
    obtain ⟨_, rfl⟩ := List.getElem?_eq_some_iff.1 hs
    exact hle
  have h := (Places.nil (l.columnOffset rows)).append hfits fun column => by simp [columnOffset]
  rw [writtenRow, tableRow_eq]
  simpa [columnOffset, shownRow] using h

theorem getElem?_shownRow_of_not_narrows (hn : ¬ l.Narrows (naturalSizes rows) column) :
    (l.shownRow rows row)[column]? = row[column]? := by
  have hlen := l.length_shownRow h3 hr
  rcases Nat.lt_or_ge column row.length with hlt | hge
  · have ht := List.getElem?_eq_getElem (hlen ▸ hlt : column < (l.shownRow rows row).length)
    obtain ⟨size, -, -, ⟨-, he⟩ | ⟨-, hnarrow, -⟩⟩ := l.shownRow_spec hr (List.getElem?_eq_getElem hlt) ht
    · rw [ht, he, List.getElem?_eq_getElem hlt]
    · exact absurd hnarrow hn
  · rw [List.getElem?_eq_none hge, List.getElem?_eq_none (hlen ▸ hge)]

theorem length_writtenRow :
    (l.writtenRow rows row).length = (l.width - (l.columnSizes rows).sum) / 2 + (l.columnSizes rows).sum := by
  have htake : (l.columnSizes rows).take 3 = l.columnSizes rows :=
    List.take_of_length_le (l.length_columnSizes h3).le
  rw [(l.places_writtenRow h3 hr).length_chars, l.length_shownRow h3 hr, h3 row hr, columnOffset, htake, total_eq_sum]

/-- Only the cells of the widest column are ever shortened. -/
theorem abridges_shownRow :
    Abridges (widestColumn (naturalSizes rows)) (l.columnOffset rows (widestColumn (naturalSizes rows) + 1) -
      l.columnOffset rows (widestColumn (naturalSizes rows))) row (l.shownRow rows row) where
  length_eq := l.length_shownRow h3 hr
  others c hc := l.getElem?_shownRow_of_not_narrows h3 hr fun hnarrow => hc hnarrow.2
  shortened cell text hc ht := by
    obtain ⟨size, hs, -, hcases⟩ := l.shownRow_spec hr hc ht
    rw [l.columnOffset_succ rows hs, Nat.add_sub_cancel_left]
    exact hcases.imp_right fun ⟨hlt, _, hshort⟩ => ⟨hlt, hshort⟩

omit h3 hr

theorem newline_not_mem_writtenRow (hl : ∀ cell ∈ row, '\n' ∉ cell) : '\n' ∉ l.writtenRow rows row := by
  have hshown : ∀ text ∈ l.shownRow rows row, '\n' ∉ text := by
    intro text ht
    obtain ⟨column, hcolumn⟩ := List.mem_iff_getElem?.1 ht
    obtain ⟨cell, size, hc, -, rfl⟩ := getElem?_shownCells.1 hcolumn
    have hcell := hl cell (List.mem_of_getElem? hc)
    unfold shownCell
    split
    · exact newline_not_mem_elide hcell _
    · exact hcell
  rw [writtenRow, tableRow_eq, List.mem_append, List.mem_flatMap]
  rintro (h | ⟨e, he, h⟩)
  · exact newline_not_mem_spaces _ h
  · exact newline_not_mem_pad (hshown e.1 (List.of_mem_zip he).1) _ h

end Rows

/-! ### The text -/

theorem toList_table (l : Layout) (rows : List Row) :
    (l.table rows).toList =
      if rows.isEmpty then [] else block (rows.map fun r => l.writtenRow (rows.map Row.cells) r.cells) := by
  have hmap : (rows.map fun r => l.writtenRow (rows.map Row.cells) r.cells) =
      (rows.map Row.cells).map (l.writtenRow (rows.map Row.cells)) := List.map_map.symm
  rw [table, String.toList_ofList, tableText, List.isEmpty_map, hmap]
  rfl

theorem length_of_mem_map_cells {rows : List Row} : ∀ row ∈ rows.map Row.cells, row.length = 3 :=
  List.forall_mem_map.2 fun _ _ => rfl

/-- The size of a column in which a space comes after its longest cell. -/
def NeedsSize (rows : List Row) (column size : Nat) : Prop :=
  (∃ row ∈ rows, ∃ cell, row.cells[column]? = some cell ∧ size = cell.length + 1) ∧
    ∀ row ∈ rows, ∀ cell, row.cells[column]? = some cell → cell.length < size

theorem needsSize_of_naturalSizes {rows : List Row} (hn : rows ≠ []) {column size : Nat}
    (h : (naturalSizes (rows.map Row.cells))[column]? = some size) : NeedsSize rows column size := by
  obtain ⟨hlt, hlongest⟩ := getElem?_naturalSizes h
  have hlt : ∀ row ∈ rows, ∀ cell, row.cells[column]? = some cell → cell.length < size := List.forall_mem_map.1 hlt
  refine ⟨?_, hlt⟩
  rcases hlongest with rfl | ⟨row, hrow, cell, hc, he⟩
  · -- The rows have a cell in every column, which would be shorter than nothing.
    obtain ⟨row, hrow⟩ := List.exists_mem_of_ne_nil rows hn
    have hcolumn : column < 3 := by
      obtain ⟨hcolumn, -⟩ := List.getElem?_eq_some_iff.1 h
      rwa [length_naturalSizes length_of_mem_map_cells] at hcolumn
    exact absurd (hlt row hrow _ (List.getElem?_eq_getElem (l := row.cells) hcolumn)) (Nat.not_lt_zero _)
  · obtain ⟨r, hr, rfl⟩ := List.mem_map.1 hrow
    exact ⟨r, hr, cell, hc, he⟩

/-- How rows are spread over the columns of a table. -/
structure Alignment where
  /-- The sizes that the cells ask for. -/
  natural : List Nat
  widest : Nat
  /-- Where a column begins. -/
  offset : Nat → Nat

def Alignment.largest (a : Alignment) : Nat := a.natural.getD a.widest 0

/-- Lines that show the rows of a table on a terminal of some width. -/
structure Alignment.Shows (a : Alignment) (width : Nat) (rows : List Row) (printed : List (List Char)) :
    Prop where
  length_natural : a.natural.length = 3
  needs : ∀ column size, a.natural[column]? = some size → NeedsSize rows column size
  widest_lt : a.widest < 3
  le_largest : ∀ size ∈ a.natural, size ≤ a.largest
  /-- Blanks at the end of a line apart, the cells of a column begin at one offset in all rows. Those of a widest
  column may be shortened, and all others are in full. -/
  shown : List.Forall₂ (fun row line => ∃ texts blanks, (∀ c ∈ blanks, isBlank c = true) ∧
    Places a.offset texts (line ++ blanks) ∧
    Abridges a.widest (a.offset (a.widest + 1) - a.offset a.widest) row.cells texts ∧
    (a.natural.sum ≤ width → texts = row.cells)) rows printed
  /-- No line is too long, unless the widest column would become too narrow. -/
  fits : a.natural.sum ≤ width ∨ 5 ≤ a.largest - (a.natural.sum - width) → ∀ line ∈ printed, line.length ≤ width

/-- The alignment of the rows that are written. -/
def alignment (l : Layout) (rows : List Row) : Alignment :=
  ⟨naturalSizes (rows.map Row.cells), widestColumn (naturalSizes (rows.map Row.cells)),
    l.columnOffset (rows.map Row.cells)⟩

theorem alignment_shows (l : Layout) {rows : List Row} (hn : rows ≠ []) :
    (l.alignment rows).Shows l.width rows
      (rows.map fun r => trimRight (l.writtenRow (rows.map Row.cells) r.cells)) := by
  have h3 : ∀ row ∈ rows.map Row.cells, row.length = 3 := length_of_mem_map_cells
  have hlen := length_naturalSizes h3
  have hne : naturalSizes (rows.map Row.cells) ≠ [] := List.ne_nil_of_length_pos (by omega)
  have hwidest := getElem?_lastLargest hne
  have hlargest : (l.alignment rows).largest = (lastLargest (naturalSizes (rows.map Row.cells))).1 := by
    rw [Alignment.largest, List.getD_eq_getElem?_getD]
    exact congrArg (Option.getD · 0) hwidest
  refine ⟨hlen, fun column size h => needsSize_of_naturalSizes hn h, ?_, hlargest ▸ le_lastLargest _, ?_, ?_⟩
  · exact hlen ▸ (List.getElem?_eq_some_iff.1 hwidest).1
  · rw [List.forall₂_map_right_iff, List.forall₂_same]
    intro row hr
    have hrow : row.cells ∈ rows.map Row.cells := List.mem_map_of_mem hr
    obtain ⟨blanks, hline, hblank⟩ := exists_blanks_append (l.writtenRow (rows.map Row.cells) row.cells)
    refine ⟨l.shownRow (rows.map Row.cells) row.cells, blanks, hblank, ?_, l.abridges_shownRow h3 hrow, ?_⟩
    · rw [hline]
      exact l.places_writtenRow h3 hrow
    · intro hfit
      apply List.ext_getElem?
      intro column
      exact l.getElem?_shownRow_of_not_narrows h3 hrow fun hnarrow => hfit.not_gt hnarrow.1
  · intro hfit line hline
    obtain ⟨row, hr, rfl⟩ := List.mem_map.1 hline
    -- The margin is half of what the columns leave free, so that a row with its margin is no longer than the width.
    have hsum : (l.columnSizes (rows.map Row.cells)).sum ≤ l.width :=
      l.sum_fittedSizes_le _ hwidest (hlargest ▸ hfit)
    calc (trimRight (l.writtenRow (rows.map Row.cells) row.cells)).length
        ≤ (l.writtenRow (rows.map Row.cells) row.cells).length := length_trimRight_le _
      _ = (l.width - (l.columnSizes (rows.map Row.cells)).sum) / 2 + (l.columnSizes (rows.map Row.cells)).sum :=
          l.length_writtenRow h3 (List.mem_map_of_mem hr)
      _ ≤ l.width := by omega

/-- A table is written as lines that show its rows, with an empty line after the last. Every column begins at the
same offset in all of them. Only the cells of a widest column are shortened, and none if the table fits. No line
is longer than the width if that column has a size of five at least when all that is too much is taken from it. -/
theorem table_shows (l : Layout) {rows : List Row} (hn : rows ≠ [])
    (hl : ∀ row ∈ rows, ∀ cell ∈ row.cells, '\n' ∉ cell) :
    ∃ (a : Alignment) (printed : List (List Char)),
      lines (l.table rows).toList = printed ++ [[]] ∧ a.Shows l.width rows printed := by
  refine ⟨l.alignment rows, _, ?_, l.alignment_shows hn⟩
  have hfeed : ∀ line ∈ rows.map fun r => l.writtenRow (rows.map Row.cells) r.cells, '\n' ∉ line := by
    intro line hline
    obtain ⟨row, hr, rfl⟩ := List.mem_map.1 hline
    exact l.newline_not_mem_writtenRow (hl row hr)
  rw [toList_table, if_neg (by simpa using hn), lines_block hfeed, List.map_map]
  rfl

/-- Two columns are equally wide, and the last of them is narrowed. The first row loses blanks at its end. -/
theorem table_shows_of_tie :
    let l : Layout := ⟨24⟩
    let rows : List Row := [⟨"setenv", "GCC_ROOTS", "/opt/gcc\t"⟩, ⟨"prereq", "", "binutils"⟩, ⟨"", "PATH", "é/bin"⟩]
    rows ≠ [] ∧ (∀ row ∈ rows, ∀ cell ∈ row.cells, '\n' ∉ cell) ∧
      l.table rows = "setenv GCC_ROOTS /o...c\nprereq           bi...ls\n       PATH      é/bin\n\n" ∧
      ∃ (a : Alignment) (printed : List (List Char)),
        lines (l.table rows).toList = printed ++ [[]] ∧ a.Shows l.width rows printed := by
  intro l rows
  have hn : rows ≠ [] := List.cons_ne_nil _ _
  have hl : ∀ row ∈ rows, ∀ cell ∈ row.cells, '\n' ∉ cell := by decide +kernel
  exact ⟨hn, hl, by decide +kernel, l.table_shows hn hl⟩

/-! ### Between the columns -/

/-- There is a space between a cell and the next column, unless the cell fills a column that has been narrowed. It
does so if it is just as long as the column is wide, or if it is longer and the column has an odd size. -/
theorem table_apart_iff (l : Layout) (rows : List Row) :
    let natural := naturalSizes (rows.map Row.cells)
    let size := l.narrowedSize natural
    ∃ (offset : Nat → Nat) (written : List (List Char)),
      (l.table rows).toList = (if rows.isEmpty then [] else block written) ∧
      List.Forall₂ (fun row line => ∃ texts, Places offset texts line ∧ texts.length = row.cells.length ∧
        ∀ column cell text, row.cells[column]? = some cell → texts[column]? = some text →
          (text = cell ∨ Shortens cell text) ∧
          (offset column + text.length < offset (column + 1) ↔
            ¬ (l.Narrows natural column ∧ (cell.length = size ∨ size < cell.length ∧ size % 2 = 1))))
        rows written := by
  intro natural size
  have h3 : ∀ row ∈ rows.map Row.cells, row.length = 3 := length_of_mem_map_cells
  refine ⟨l.columnOffset (rows.map Row.cells), _, l.toList_table rows, ?_⟩
  rw [List.forall₂_map_right_iff, List.forall₂_same]
  intro row hr
  have hrow : row.cells ∈ rows.map Row.cells := List.mem_map_of_mem hr
  refine ⟨l.shownRow (rows.map Row.cells) row.cells, l.places_writtenRow h3 hrow, l.length_shownRow h3 hrow, ?_⟩
  intro column cell text hc ht
  obtain ⟨room, hroom, hcases⟩ := l.shownRow_cases hrow hc ht
  rw [l.columnOffset_succ _ hroom, Nat.add_lt_add_iff_left]
  rcases hcases with ⟨hn, rfl, hlt⟩ | ⟨hn, rfl, hsize⟩
  · exact ⟨.inl rfl, iff_of_true hlt fun h => hn h.1⟩
  · obtain rfl : room = size := hsize
    have h5 : 5 ≤ size := l.five_le_narrowedSize natural
    rw [and_iff_right hn]
    rcases Nat.lt_or_ge size cell.length with hlt | hle
    · -- Halving what the dots leave loses a place if the size is even, and this place is the space.
      refine ⟨.inr (shortens_elide h5 hlt), ?_⟩
      rw [length_elide h5 hlt]
      omega
    · rw [elide_of_le hle]
      exact ⟨.inl rfl, by omega⟩

/-- A narrowed column of size nine is filled by a cell that was shortened to nine characters, and one of size ten
by a cell that is as long as that. -/
theorem table_runs_together :
    (Layout.mk 18).table [⟨"setenv", "ABCDEFGHIJ", "x"⟩] = "setenv ABC...HIJ" ++ "x\n\n" ∧
      (Layout.mk 19).table [⟨"setenv", "ABCDEFGHIJ", "x"⟩] = "setenv ABCDEFGHIJ" ++ "x\n\n" := by
  decide +kernel

end Layout

end EnvModules
