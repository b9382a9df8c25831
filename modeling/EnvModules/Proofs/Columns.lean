import EnvModules.Layout
import EnvModules.Proofs.Words

/-!
Items in columns. Main statement: every item stands in a place of its own, from top to bottom and then from left
to right, and nothing but these items stands in the rows. No row is without an item, and none is longer than the
line if the longest item fits on it.
-/

namespace EnvModules

open Text

namespace Layout

variable {items : List (List Char)} {g : Grid} {row : Nat}

/-! ### The grid -/

/-- A column is one wider than the longest item. -/
theorem exists_longest (l : Layout) (hn : items ≠ []) :
    ∃ longest ∈ items, (l.grid items).cell = longest.length + 1 ∧
      ∀ item ∈ items, item.length ≤ longest.length := by
  have hlengths : items.map List.length ≠ [] := mt List.map_eq_nil_iff.1 hn
  obtain ⟨n, hmax⟩ := Option.ne_none_iff_exists'.1 (mt List.max?_eq_none_iff.1 hlengths)
  obtain ⟨hmem, hle⟩ := List.max?_eq_some_iff.1 hmax
  obtain ⟨longest, hl, rfl⟩ := List.mem_map.1 hmem
  refine ⟨longest, hl, ?_, List.forall_mem_map.1 hle⟩
  rw [grid, List.foldl_max, hmax]
  simp

theorem length_lt_cell (l : Layout) {item : List Char} (h : item ∈ items) :
    item.length < (l.grid items).cell := by
  obtain ⟨longest, -, hcell, hle⟩ := l.exists_longest (List.ne_nil_of_mem h)
  rw [hcell]
  exact Nat.lt_succ_of_le (hle item h)

theorem columns_pos (l : Layout) (items : List (List Char)) : 0 < (l.grid items).columns :=
  Nat.lt_of_lt_of_le Nat.zero_lt_one (Nat.le_max_left _ _)

theorem grid_rows (l : Layout) (items : List (List Char)) :
    (l.grid items).rows = (items.length + (l.grid items).columns - 1) / (l.grid items).columns := rfl

/-- There are places for all items. -/
theorem length_le_columns_mul_rows (l : Layout) (items : List (List Char)) :
    items.length ≤ (l.grid items).columns * (l.grid items).rows := by
  have hc := l.columns_pos items
  have hmod := Nat.mod_lt (items.length + (l.grid items).columns - 1) hc
  have hdiv := Nat.div_add_mod (items.length + (l.grid items).columns - 1) (l.grid items).columns
  rw [← grid_rows] at hdiv
  omega

theorem rows_le_length (l : Layout) (items : List (List Char)) : (l.grid items).rows ≤ items.length := by
  have hc := l.columns_pos items
  rw [grid_rows, Nat.div_le_iff_le_mul_add_pred hc]
  have hle := Nat.le_mul_of_pos_left items.length hc
  omega

theorem cell_mul_columns_le (l : Layout) (items : List (List Char)) (h : (l.grid items).cell ≤ l.width) :
    (l.grid items).margin + (l.grid items).cell * (l.grid items).columns ≤ l.width := by
  have hcell : 0 < (l.grid items).cell := Nat.succ_pos _
  have hfit : 1 ≤ l.width / (l.grid items).cell := (Nat.one_le_div_iff hcell).2 h
  have hcolumns : (l.grid items).columns ≤ l.width / (l.grid items).cell :=
    Nat.max_le.2 ⟨hfit, Nat.min_le_left _ _⟩
  have hle : (l.grid items).cell * (l.grid items).columns ≤ l.width :=
    calc (l.grid items).cell * (l.grid items).columns
        ≤ (l.grid items).cell * (l.width / (l.grid items).cell) := Nat.mul_le_mul_left _ hcolumns
      _ ≤ l.width := Nat.mul_div_le _ _
  have hmargin : (l.grid items).margin = (l.width - (l.grid items).cell * (l.grid items).columns) / 2 := rfl
  omega

/-! ### What stands in a row -/

/-- What stands at an offset of a line. After its end there are only spaces. -/
def charAt (cs : List Char) (offset : Nat) : Char := cs[offset]?.getD ' '

@[simp] theorem charAt_nil (k : Nat) : charAt [] k = ' ' := rfl

@[simp] theorem charAt_spaces (n k : Nat) : charAt (spaces n) k = ' ' := by
  simp only [charAt, spaces, List.getElem?_replicate]
  split_ifs <;> rfl

theorem charAt_append (line more : List Char) (k : Nat) :
    charAt (line ++ more) k = if k < line.length then charAt line k else charAt more (k - line.length) := by
  rw [charAt, List.getElem?_append]
  split_ifs <;> rfl

theorem charAt_of_length_le {line : List Char} {k : Nat} (h : line.length ≤ k) : charAt line k = ' ' := by
  rw [charAt, List.getElem?_eq_none h]
  rfl

theorem charAt_append_spaces (line : List Char) (n k : Nat) : charAt (line ++ spaces n) k = charAt line k := by
  rw [charAt_append, charAt_spaces]
  split_ifs with h
  · rfl
  · exact (charAt_of_length_le (Nat.le_of_not_lt h)).symm

theorem charAt_pad (item : List Char) (width k : Nat) : charAt (pad item width) k = charAt item k :=
  charAt_append_spaces item _ k

theorem length_pad {item : List Char} {width : Nat} (h : item.length ≤ width) :
    (pad item width).length = width := by
  rw [pad, spaces, List.length_append, List.length_replicate]
  omega

/-- What a column puts into a row. -/
def gridCell (g : Grid) (items : List (List Char)) (row column : Nat) : List Char :=
  match items[column * g.rows + row]? with
  | some item => pad item g.cell
  | none => []

theorem gridRow_eq (g : Grid) (items : List (List Char)) (row : Nat) :
    gridRow g items row = spaces g.margin ++ (List.range g.columns).flatMap (gridCell g items row) := rfl

theorem length_gridCell_le (hw : ∀ item ∈ items, item.length ≤ g.cell) (row column : Nat) :
    (gridCell g items row column).length ≤ g.cell := by
  unfold gridCell
  split
  · next item h => exact (length_pad (hw item (List.mem_of_getElem? h))).le
  · exact Nat.zero_le _

/-- Before a column that has an item in a row there are only columns that have one. -/
theorem length_flatMap_gridCell (hw : ∀ item ∈ items, item.length ≤ g.cell) {column : Nat}
    (h : column * g.rows + row < items.length) :
    ((List.range column).flatMap (gridCell g items row)).length = column * g.cell := by
  induction column with
  | zero => rw [List.range_zero, List.flatMap_nil, List.length_nil, Nat.zero_mul]
  | succ column ih =>
    rw [Nat.succ_mul] at h
    have hlt : column * g.rows + row < items.length := by omega
    have hcell : gridCell g items row column = pad items[column * g.rows + row] g.cell := by
      rw [gridCell, List.getElem?_eq_getElem hlt]
    rw [List.range_succ, List.flatMap_append, List.flatMap_singleton, List.length_append, ih hlt, hcell,
      length_pad (hw _ (List.getElem_mem hlt)), Nat.succ_mul]

/-- The columns one after the other, by induction on how many there are. -/
theorem charAt_flatMap_gridCell (hw : ∀ item ∈ items, item.length ≤ g.cell) (count column : Nat) {j : Nat}
    (hj : j < g.cell) :
    charAt ((List.range count).flatMap (gridCell g items row)) (column * g.cell + j) =
      if column < count then charAt (items[column * g.rows + row]?.getD []) j else ' ' := by
  induction count with
  | zero => rfl
  | succ count ih =>
    rw [List.range_succ, List.flatMap_append, List.flatMap_singleton]
    cases hi : items[count * g.rows + row]? with
    | none =>
      -- The column adds nothing, and there are only spaces where it would stand.
      have hcell : gridCell g items row count = [] := by rw [gridCell, hi]
      rw [hcell, List.append_nil, ih]
      rcases Nat.lt_trichotomy column count with hlt | rfl | hgt
      · rw [if_pos hlt, if_pos (Nat.lt_succ_of_lt hlt)]
      · rw [if_neg (Nat.lt_irrefl _), if_pos (Nat.lt_succ_self _), hi]
        rfl
      · rw [if_neg hgt.not_gt, if_neg (Nat.not_lt.2 hgt)]
    | some item =>
      have hcell : gridCell g items row count = pad item g.cell := by rw [gridCell, hi]
      obtain ⟨hlt, -⟩ := List.getElem?_eq_some_iff.1 hi
      have hitem : item.length ≤ g.cell := hw item (List.mem_of_getElem? hi)
      rw [charAt_append, length_flatMap_gridCell hw hlt, hcell, charAt_pad, ih]
      rcases Nat.lt_trichotomy column count with hlt | rfl | hgt
      · have hmul := Nat.mul_le_mul_right g.cell hlt
        rw [Nat.succ_mul] at hmul
        rw [if_pos (by omega), if_pos hlt, if_pos (Nat.lt_succ_of_lt hlt)]
      · rw [if_neg (by omega), if_pos (Nat.lt_succ_self _), Nat.add_sub_cancel_left, hi]
        rfl
      · have hmul := Nat.mul_le_mul_right g.cell hgt
        rw [Nat.succ_mul] at hmul
        rw [if_neg (by omega), if_neg (Nat.not_lt.2 hgt)]
        exact charAt_of_length_le (by omega)

/-- A text with no blank at its end other than spaces. -/
def EndsInSpaces (line : List Char) : Prop :=
  ∃ solid n, line = solid ++ spaces n ∧ ∀ c ∈ solid.getLast?, isBlank c = false

theorem endsInSpaces_spaces (n : Nat) : EndsInSpaces (spaces n) := ⟨[], n, rfl, by simp⟩

theorem EndsInSpaces.append_pad {line item : List Char} (h : EndsInSpaces line)
    (hi : ∀ c ∈ item.getLast?, isBlank c = false) (width : Nat) : EndsInSpaces (line ++ pad item width) := by
  cases hl : item.getLast? with
  | none =>
    obtain ⟨solid, n, rfl, hs⟩ := h
    obtain rfl := List.getLast?_eq_none_iff.1 hl
    refine ⟨solid, n + width, ?_, hs⟩
    simp [pad, spaces]
  | some c =>
    refine ⟨line ++ item, width - item.length, (List.append_assoc _ _ _).symm, ?_⟩
    rw [List.getLast?_append, hl]
    simpa [hl] using hi

theorem EndsInSpaces.append_flatMap {f : Nat → List Char} {columns : List Nat} {line : List Char}
    (h : EndsInSpaces line)
    (hf : ∀ column ∈ columns, f column = [] ∨
      ∃ item width, f column = pad item width ∧ ∀ c ∈ item.getLast?, isBlank c = false) :
    EndsInSpaces (line ++ columns.flatMap f) := by
  induction columns generalizing line with
  | nil => simpa using h
  | cons column columns ih =>
    obtain ⟨hcolumn, hrest⟩ := List.forall_mem_cons.1 hf
    rw [List.flatMap_cons, ← List.append_assoc]
    rcases hcolumn with he | ⟨item, width, he, hi⟩
    · rw [he, List.append_nil]
      exact ih h hrest
    · rw [he]
      exact ih (h.append_pad hi width) hrest

theorem trimRight_append_spaces {solid : List Char} (h : ∀ c ∈ solid.getLast?, isBlank c = false) (n : Nat) :
    trimRight (solid ++ spaces n) = solid := by
  have hspaces : ∀ c ∈ (spaces n).reverse, isBlank c = true := by
    intro c hc
    rw [spaces, List.reverse_replicate] at hc
    rw [List.eq_of_mem_replicate hc]
    decide
  rw [trimRight, dropRightWhile, List.reverse_append, List.dropWhile_append_of_pos hspaces]
  exact trimRight_eq_self h

/-- Blanks that are cut off at the end are read as the spaces they are. -/
theorem charAt_trimRight {line : List Char} (h : EndsInSpaces line) (k : Nat) :
    charAt (trimRight line) k = charAt line k := by
  obtain ⟨solid, n, rfl, hs⟩ := h
  rw [trimRight_append_spaces hs, charAt_append_spaces]

/-- The rows as they are written. -/
def printedRows (g : Grid) (items : List (List Char)) : List (List Char) :=
  (List.range g.rows).map fun row => trimRight (gridRow g items row)

theorem endsInSpaces_gridRow (hi : ∀ item ∈ items, ∀ c ∈ item.getLast?, isBlank c = false) (g : Grid)
    (row : Nat) : EndsInSpaces (gridRow g items row) := by
  refine (endsInSpaces_spaces g.margin).append_flatMap fun column _ => ?_
  cases hc : items[column * g.rows + row]? with
  | none => exact .inl rfl
  | some item => exact .inr ⟨item, g.cell, rfl, hi item (List.mem_of_getElem? hc)⟩

theorem charAt_printedRow_of_lt (hi : ∀ item ∈ items, ∀ c ∈ item.getLast?, isBlank c = false) {k : Nat}
    (hk : k < g.margin) : charAt (trimRight (gridRow g items row)) k = ' ' := by
  rw [charAt_trimRight (endsInSpaces_gridRow hi g row), gridRow_eq, charAt_append, charAt_spaces, spaces,
    List.length_replicate, if_pos hk]

/-- At every offset of a column there stands a character of its item in the row, or a space. -/
theorem charAt_printedRow (hi : ∀ item ∈ items, ∀ c ∈ item.getLast?, isBlank c = false)
    (hw : ∀ item ∈ items, item.length < g.cell) (hn : items.length ≤ g.columns * g.rows) (column : Nat) {j : Nat}
    (hj : j < g.cell) :
    charAt (trimRight (gridRow g items row)) (g.margin + (column * g.cell + j)) =
      charAt (items[column * g.rows + row]?.getD []) j := by
  rw [charAt_trimRight (endsInSpaces_gridRow hi g row), gridRow_eq, charAt_append, spaces, List.length_replicate,
    if_neg (by omega), Nat.add_sub_cancel_left, charAt_flatMap_gridCell (fun item h => (hw item h).le) _ _ hj]
  split_ifs with hcolumn
  · rfl
  · -- Further to the right there are no items any more.
    have hmul := Nat.mul_le_mul_right g.rows (Nat.le_of_not_lt hcolumn)
    rw [List.getElem?_eq_none (by omega)]
    rfl

/-! ### Places of items -/

/-- Where the column of an item begins, if the columns are filled one after the other. -/
def Grid.offset (g : Grid) (i : Nat) : Nat := g.margin + i / g.rows * g.cell

/-- Whether an item stands in a row at an offset. -/
def Grid.Occupies (g : Grid) (items : List (List Char)) (row offset i : Nat) : Prop :=
  ∃ item, items[i]? = some item ∧ i % g.rows = row ∧ g.offset i ≤ offset ∧ offset < g.offset i + item.length

/-- Rows that show items: each of them once, and nothing else. -/
structure Grid.Shows (g : Grid) (items rows : List (List Char)) : Prop where
  length_rows : rows.length = g.rows
  /-- The items go down the columns, and each is in full where its column begins. -/
  place : ∀ i item, items[i]? = some item → i / g.rows < g.columns ∧
    ∃ row, rows[i % g.rows]? = some row ∧ (row.drop (g.offset i)).take item.length = item
  /-- Whatever is no space belongs to one of the items, and to no other. -/
  only : ∀ r row k c, rows[r]? = some row → row[k]? = some c → c ≠ ' ' → ∃! i, g.Occupies items r k i
  occupied : ∀ r < g.rows, ∃ i < items.length, i % g.rows = r

theorem charAt_of_lt {cs : List Char} {k : Nat} (h : k < cs.length) : charAt cs k = cs[k] := by
  rw [charAt, List.getElem?_eq_getElem h]
  rfl

/-- A text that does not end in a blank stands in full where all its characters stand. -/
theorem take_drop_of_charAt {line item : List Char} {offset : Nat} (hi : ∀ c ∈ item.getLast?, isBlank c = false)
    (h : ∀ j < item.length, charAt line (offset + j) = charAt item j) :
    (line.drop offset).take item.length = item := by
  rcases List.eq_nil_or_concat' item with rfl | ⟨start, last, rfl⟩
  · rfl
  -- The last character is no space, so that the line does not end before it.
  have hlast : charAt line (offset + start.length) = last := by
    rw [h start.length (by simp), charAt_of_lt (by simp), List.getElem_concat_length rfl]
  have hne : last ≠ ' ' := by
    rintro rfl
    exact absurd (hi ' ' (by simp)) (by decide)
  have hlen : offset + start.length < line.length := by
    by_contra hle
    exact hne (hlast.symm.trans (charAt_of_length_le (Nat.le_of_not_lt hle)))
  have hsize : (start ++ [last]).length = start.length + 1 := by simp
  apply List.ext_getElem
  · rw [List.length_take, List.length_drop, hsize]
    omega
  · intro j hj hj'
    have hj := h j hj'
    rw [charAt_of_lt hj', charAt_of_lt (by omega)] at hj
    rw [List.getElem_take, List.getElem_drop]
    exact hj

theorem getElem?_printedRows {r : Nat} (h : r < g.rows) :
    (printedRows g items)[r]? = some (trimRight (gridRow g items r)) := by
  rw [printedRows, List.getElem?_map, List.getElem?_range h]
  rfl

variable (hi : ∀ item ∈ items, ∀ c ∈ item.getLast?, isBlank c = false)
variable (hw : ∀ item ∈ items, item.length < g.cell) (hn : items.length ≤ g.columns * g.rows)
include hi hw hn

theorem printedRows_place (hr : 0 < g.rows) {i : Nat} {item : List Char} (h : items[i]? = some item) :
    i / g.rows < g.columns ∧ ∃ row, (printedRows g items)[i % g.rows]? = some row ∧
      (row.drop (g.offset i)).take item.length = item := by
  obtain ⟨hlt, -⟩ := List.getElem?_eq_some_iff.1 h
  have hmem : item ∈ items := List.mem_of_getElem? h
  refine ⟨(Nat.div_lt_iff_lt_mul hr).2 (hlt.trans_le hn), _, getElem?_printedRows (Nat.mod_lt i hr), ?_⟩
  refine take_drop_of_charAt (hi item hmem) fun j hj => ?_
  have hindex : i / g.rows * g.rows + i % g.rows = i := Nat.div_add_mod' i g.rows
  rw [Grid.offset, Nat.add_assoc, charAt_printedRow hi hw hn (i / g.rows) (hj.trans (hw item hmem)), hindex, h]
  rfl

theorem printedRows_only (hc : 0 < g.cell) {r k : Nat} {row : List Char} {c : Char}
    (hrow : (printedRows g items)[r]? = some row) (hk : row[k]? = some c) (hs : c ≠ ' ') :
    ∃! i, g.Occupies items r k i := by
  have hlt : r < g.rows := by
    obtain ⟨hlt, -⟩ := List.getElem?_eq_some_iff.1 hrow
    simpa [printedRows] using hlt
  have hr : 0 < g.rows := Nat.zero_lt_of_lt hlt
  obtain rfl := Option.some.inj ((getElem?_printedRows hlt).symm.trans hrow)
  have hchar : charAt (trimRight (gridRow g items r)) k = c := by rw [charAt, hk]; rfl
  have hmargin : g.margin ≤ k := by
    by_contra hle
    exact hs (hchar.symm.trans (charAt_printedRow_of_lt hi (Nat.lt_of_not_le hle)))
  -- What comes after the margin is in some column, and the item there reaches as far as the offset.
  obtain ⟨column, j, hj, rfl⟩ : ∃ column j, j < g.cell ∧ k = g.margin + (column * g.cell + j) := by
    refine ⟨(k - g.margin) / g.cell, (k - g.margin) % g.cell, Nat.mod_lt _ hc, ?_⟩
    rw [Nat.div_add_mod']
    omega
  have hdiv : (column * g.rows + r) / g.rows = column := by
    rw [Nat.mul_comm, Nat.mul_add_div hr, Nat.div_eq_of_lt hlt, Nat.add_zero]
  have hmod : (column * g.rows + r) % g.rows = r := by
    rw [Nat.mul_comm, Nat.mul_add_mod, Nat.mod_eq_of_lt hlt]
  rw [charAt_printedRow hi hw hn column hj] at hchar
  cases hitem : items[column * g.rows + r]? with
  | none =>
    rw [hitem] at hchar
    exact absurd hchar.symm hs
  | some item =>
    rw [hitem] at hchar
    have hwithin : j < item.length := by
      by_contra hle
      exact hs (hchar.symm.trans (charAt_of_length_le (Nat.le_of_not_lt hle)))
    refine ⟨column * g.rows + r, ⟨item, hitem, hmod, ?_, ?_⟩, ?_⟩
    · rw [Grid.offset, hdiv]
      omega
    · rw [Grid.offset, hdiv]
      omega
    · -- Any other item in this row that reaches the offset is in the same column.
      rintro i ⟨item', hitem', hmod', hle, hgt⟩
      have hcell := hw item' (List.mem_of_getElem? hitem')
      rw [Grid.offset] at hle hgt
      have hleft : i / g.rows * g.cell < (column + 1) * g.cell := by
        rw [Nat.succ_mul]
        omega
      have hright : column * g.cell < (i / g.rows + 1) * g.cell := by
        rw [Nat.succ_mul]
        omega
      have hcolumn : i / g.rows = column :=
        Nat.le_antisymm (Nat.le_of_lt_succ (Nat.lt_of_mul_lt_mul_right hleft))
          (Nat.le_of_lt_succ (Nat.lt_of_mul_lt_mul_right hright))
      rw [← Nat.div_add_mod' i g.rows, hmod', hcolumn]

omit hi hw hn

theorem length_printedRow_le (hw : ∀ item ∈ items, item.length < g.cell) :
    ∀ row ∈ printedRows g items, row.length ≤ g.margin + g.cell * g.columns := by
  intro row hrow
  obtain ⟨r, -, rfl⟩ := List.mem_map.1 hrow
  have hcells (count : Nat) :
      ((List.range count).flatMap (gridCell g items r)).length ≤ g.cell * count := by
    induction count with
    | zero => exact Nat.zero_le _
    | succ count ih =>
      have hcell := length_gridCell_le (fun item h => (hw item h).le) r count
      rw [List.range_succ, List.flatMap_append, List.flatMap_singleton, List.length_append, Nat.mul_succ]
      omega
  calc (trimRight (gridRow g items r)).length ≤ (gridRow g items r).length := length_trimRight_le _
    _ = g.margin + ((List.range g.columns).flatMap (gridCell g items r)).length := by
        rw [gridRow_eq, List.length_append, spaces, List.length_replicate]
    _ ≤ g.margin + g.cell * g.columns := Nat.add_le_add_left (hcells g.columns) _

/-! ### The text -/

theorem newline_not_mem_spaces (n : Nat) : '\n' ∉ spaces n :=
  fun h => absurd (List.eq_of_mem_replicate h) (by decide)

theorem newline_not_mem_pad {item : List Char} (h : '\n' ∉ item) (width : Nat) : '\n' ∉ pad item width :=
  fun hm => (List.mem_append.1 hm).elim h (newline_not_mem_spaces _)

theorem not_mem_gridRow (hl : ∀ item ∈ items, '\n' ∉ item) (g : Grid) (row : Nat) :
    '\n' ∉ gridRow g items row := by
  rw [gridRow_eq, List.mem_append, List.mem_flatMap]
  rintro (h | ⟨column, -, h⟩)
  · exact newline_not_mem_spaces _ h
  · unfold gridCell at h
    split at h
    · next item hitem => exact newline_not_mem_pad (hl item (List.mem_of_getElem? hitem)) _ h
    · contradiction

/-- What is written of a line is a line of its own, since neither a line feed stands in it nor a carriage return
at its end. -/
theorem lines_block {ls : List (List Char)} (h : ∀ line ∈ ls, '\n' ∉ line) :
    lines (block ls) = ls.map trimRight ++ [[]] := by
  have hblock : block ls = (ls.map trimRight ++ [[]]).flatMap (· ++ ['\n']) := by
    rw [block, List.flatMap_append, List.flatMap_map]
    rfl
  rw [hblock]
  refine lines_flatMap_append _ fun line hline => ?_
  rcases List.mem_append.1 hline with hline | hline
  · obtain ⟨full, hfull, rfl⟩ := List.mem_map.1 hline
    obtain ⟨tail, ht⟩ := exists_trimRight_append full
    refine ⟨fun hm => h full hfull (ht ▸ List.mem_append_left _ hm), fun hm => ?_⟩
    exact absurd (isBlank_of_getLast?_trimRight hm) (by decide)
  · obtain rfl := List.mem_singleton.1 hline
    exact ⟨List.not_mem_nil, nofun⟩

theorem lines_printedRows (hl : ∀ item ∈ items, '\n' ∉ item) (g : Grid) :
    lines (block ((List.range g.rows).map (gridRow g items))) = printedRows g items ++ [[]] := by
  rw [lines_block (List.forall_mem_map.2 fun row _ => not_mem_gridRow hl g row), printedRows, List.map_map]
  rfl

theorem toList_columns (l : Layout) {items : List String} (hn : items ≠ []) :
    (l.columns items).toList =
      block ((List.range (l.grid (items.map String.toList)).rows).map
        (gridRow (l.grid (items.map String.toList)) (items.map String.toList))) := by
  have hempty : ¬(items.map String.toList).isEmpty = true := by simpa using hn
  rw [columns, String.toList_ofList, columnsText, if_neg hempty]

theorem shows_printedRows (l : Layout) (hn : items ≠ [])
    (hi : ∀ item ∈ items, ∀ c ∈ item.getLast?, isBlank c = false) :
    (l.grid items).Shows items (printedRows (l.grid items) items) := by
  have hw : ∀ item ∈ items, item.length < (l.grid items).cell := fun item h => l.length_lt_cell h
  have hplaces := l.length_le_columns_mul_rows items
  have hr : 0 < (l.grid items).rows := by
    by_contra h0
    rw [Nat.eq_zero_of_not_pos h0, Nat.mul_zero] at hplaces
    exact hn (List.eq_nil_of_length_eq_zero (Nat.le_zero.1 hplaces))
  refine ⟨?_, fun i item => printedRows_place hi hw hplaces hr, fun r row k c =>
    printedRows_only hi hw hplaces (Nat.succ_pos _), fun r hlt => ?_⟩
  · rw [printedRows, List.length_map, List.length_range]
  · -- The first column has an item in every row.
    exact ⟨r, hlt.trans_le (l.rows_le_length items), Nat.mod_eq_of_lt hlt⟩

/-- Items in columns are written as rows that show them, with an empty line after the last. Each item is in the
row and the column that its position gives, in columns one wider than the longest item, and no row goes beyond
the line if such a column fits on it. -/
theorem columns_shows (l : Layout) {items : List String} (hn : items ≠ [])
    (hi : ∀ item ∈ items, '\n' ∉ item.toList ∧ ∀ c ∈ item.toList.getLast?, isBlank c = false) :
    let g := l.grid (items.map String.toList)
    ∃ rows, lines (l.columns items).toList = rows ++ [[]] ∧ g.Shows (items.map String.toList) rows ∧
      (∃ longest ∈ items, g.cell = longest.length + 1 ∧ ∀ item ∈ items, item.length ≤ longest.length) ∧
      (g.cell ≤ l.width → ∀ row ∈ rows, row.length ≤ l.width) := by
  intro g
  have hne : items.map String.toList ≠ [] := by simpa using hn
  have hfeed : ∀ item ∈ items.map String.toList, '\n' ∉ item :=
    List.forall_mem_map.2 fun item h => (hi item h).1
  have hend : ∀ item ∈ items.map String.toList, ∀ c ∈ item.getLast?, isBlank c = false :=
    List.forall_mem_map.2 fun item h => (hi item h).2
  have hw : ∀ item ∈ items.map String.toList, item.length < g.cell := fun item h => l.length_lt_cell h
  refine ⟨printedRows g (items.map String.toList), ?_, l.shows_printedRows hne hend, ?_, ?_⟩
  · rw [l.toList_columns hn, lines_printedRows hfeed]
  · obtain ⟨longest, hmem, hcell, hle⟩ := l.exists_longest hne
    obtain ⟨item, hitem, rfl⟩ := List.mem_map.1 hmem
    exact ⟨item, hitem, hcell, List.forall_mem_map.1 hle⟩
  · intro hfit row hrow
    calc row.length ≤ g.margin + g.cell * g.columns := length_printedRow_le hw row hrow
      _ ≤ l.width := l.cell_mul_columns_le _ hfit

/-- There is an empty item among them, and the last of four columns stays empty. -/
theorem columns_shows_of_empty_column :
    let l : Layout := ⟨14⟩
    let items := ["ab", "", "é", "c", "de"]
    let g := l.grid (items.map String.toList)
    items ≠ [] ∧ (∀ item ∈ items, '\n' ∉ item.toList ∧ ∀ c ∈ item.toList.getLast?, isBlank c = false) ∧
      g = ⟨3, 4, 2, 1⟩ ∧ l.columns items = " ab é  de\n    c\n\n" ∧
      ∃ rows, lines (l.columns items).toList = rows ++ [[]] ∧ g.Shows (items.map String.toList) rows ∧
        (∃ longest ∈ items, g.cell = longest.length + 1 ∧ ∀ item ∈ items, item.length ≤ longest.length) ∧
        (g.cell ≤ l.width → ∀ row ∈ rows, row.length ≤ l.width) := by
  intro l items g
  have hn : items ≠ [] := List.cons_ne_nil _ _
  have hi : ∀ item ∈ items, '\n' ∉ item.toList ∧ ∀ c ∈ item.toList.getLast?, isBlank c = false := by
    simp [items, isBlank]
  exact ⟨hn, hi, by decide +kernel, by decide +kernel, l.columns_shows hn hi⟩

end Layout

end EnvModules
