import EnvModules.Environment
import EnvModules.Text.Blank
import EnvModules.Text.Numeral

/-!
Titles, columns and tables for a terminal of some width.
-/

namespace EnvModules

open Text

structure Layout where
  width : Nat
  deriving DecidableEq, Repr

/-- A row of a table. -/
structure Row where
  label : String
  name : String
  value : String
  deriving DecidableEq, Repr

def Row.cells (r : Row) : List (List Char) := [r.label.toList, r.name.toList, r.value.toList]

namespace Layout

def defaultWidth : Nat := 80

/-- A positive number as a width. One plus sign may precede it. -/
def width? (cs : List Char) : Option Nat :=
  let digits := match cs with
    | '+' :: rest => rest
    | _ => cs
  (word64? digits).filter (0 < ·)

/-- The width that the variable `COLUMNS` gives, or the default. -/
def ofEnvironment (env : Environment) : Layout :=
  ⟨((env.get? "COLUMNS").bind fun s => width? (trim s.toList)).getD defaultWidth⟩

def spaces (n : Nat) : List Char := List.replicate n ' '

def pad (cs : List Char) (width : Nat) : List Char := cs ++ spaces (width - cs.length)

/-- Each line without blanks at its end, and an empty line after the last. -/
def block (lines : List (List Char)) : List Char :=
  lines.flatMap (fun line => trimRight line ++ ['\n']) ++ ['\n']

/-- Emphasises a text. Where the text itself ends an emphasis, it begins again. -/
def bold (s : String) : String :=
  "\x1b[1m" ++ s.replace "\x1b[0m" "\x1b[0m\x1b[1m" ++ "\x1b[0m"

def dim (s : String) : String :=
  "\x1b[2m" ++ s.replace "\x1b[0m" "\x1b[0m\x1b[2m" ++ "\x1b[0m"

/-- Emphasises a text that ends no emphasis itself in bold and red. -/
def alarm (s : String) : String := "\x1b[1;31m" ++ s ++ "\x1b[0m"

/-- A title in the middle of a line of equals signs, and an empty line. -/
def title (l : Layout) (emphasis : Bool) (s : String) : String :=
  let padded := " " ++ s ++ " "
  let fill := l.width - padded.length
  let left := fill / 2
  String.ofList (List.replicate left '=') ++ (if emphasis then bold padded else padded) ++
    String.ofList (List.replicate (fill - left) '=') ++ "\n\n"

/-- How items are spread over columns. -/
structure Grid where
  /-- The width of a column. -/
  cell : Nat
  columns : Nat
  rows : Nat
  margin : Nat
  deriving DecidableEq, Repr

/-- As many columns as fit, though at least one and no more than there are items. -/
def grid (l : Layout) (items : List (List Char)) : Grid :=
  let cell := (items.map List.length).foldl max 0 + 1
  let columns := max 1 (min (l.width / cell) items.length)
  ⟨cell, columns, (items.length + columns - 1) / columns, (l.width - cell * columns) / 2⟩

def gridRow (g : Grid) (items : List (List Char)) (row : Nat) : List Char :=
  spaces g.margin ++
    (List.range g.columns).flatMap fun column =>
      match items[column * g.rows + row]? with
      | some item => pad item g.cell
      | none => []

/-- Items in columns, filled from top to bottom. No items take no line at all. -/
def columnsText (l : Layout) (items : List (List Char)) : List Char :=
  if items.isEmpty then []
  else
    let g := l.grid items
    block ((List.range g.rows).map (gridRow g items))

def columns (l : Layout) (items : List String) : String :=
  String.ofList (l.columnsText (items.map String.toList))

/-- Takes characters out of the middle of a text. Three dots stand for them. -/
def elide (cs : List Char) (amount : Nat) : List Char :=
  if amount = 0 then cs
  else
    let remaining := cs.length - amount
    let kept := if 5 < remaining then (remaining - 3) / 2 else 1
    cs.take kept ++ ['.', '.', '.'] ++ cs.drop (cs.length - kept)

/-- One more than the longest cell of each column. -/
def naturalSizes (rows : List (List (List Char))) : List Nat :=
  rows.foldl (fun sizes row => List.zipWith (fun size cell => max size (cell.length + 1)) sizes row)
    [0, 0, 0]

/-- The last of the largest sizes, by its position. -/
def widestColumn (sizes : List Nat) : Nat :=
  (sizes.zipIdx.foldl (fun best e => if best.1 ≤ e.1 then e else best) (0, 0)).2

def total (sizes : List Nat) : Nat := sizes.foldl (· + ·) 0

/-- The column to be narrowed, if the table is too wide, and the sizes of the columns. -/
def fittedSizes (l : Layout) (sizes : List Nat) : Option Nat × List Nat :=
  if total sizes ≤ l.width then (none, sizes)
  else
    let column := widestColumn sizes
    (some column, sizes.modify column fun size => max (size - (total sizes - l.width)) 5)

def tableRow (narrowed : Option Nat) (sizes : List Nat) (margin : Nat) (row : List (List Char)) :
    List Char :=
  spaces margin ++
    ((row.zip sizes).zipIdx).flatMap fun ((cell, size), column) =>
      pad (if narrowed = some column then elide cell (cell.length - size) else cell) size

def tableText (l : Layout) (rows : List (List (List Char))) : List Char :=
  if rows.isEmpty then []
  else
    let (narrowed, sizes) := l.fittedSizes (naturalSizes rows)
    block (rows.map (tableRow narrowed sizes ((l.width - total sizes) / 2)))

/-- Rows as a table. If it is too wide, the cells of its widest column are elided. -/
def table (l : Layout) (rows : List Row) : String :=
  String.ofList (l.tableText (rows.map Row.cells))

end Layout

end EnvModules
