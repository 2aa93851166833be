import Egress.Text.Width

/-!
Tables drawn with lines.

A column is as wide as its widest cell, with a blank on both sides. A cell with line breaks spans
several lines, and so does its row.
-/

set_option autoImplicit false

namespace Egress.Text

/-- A table. All rows have as many cells as the header. -/
structure Table where
  header : List String
  rows : List (List String)

/-- The characters of a horizontal line: its start, its fill, where columns meet, and its end. -/
structure Rule where
  start : String
  fill : Char
  joint : String
  stop : String

namespace Rule

/-- The line above the header. -/
def top : Rule := ⟨"┌", '─', "┬", "┐"⟩

/-- The line below the header. -/
def belowHeader : Rule := ⟨"╞", '═', "╪", "╡"⟩

def between : Rule := ⟨"├", '╌', "┼", "┤"⟩

/-- The line below the last row. -/
def bottom : Rule := ⟨"└", '─', "┴", "┘"⟩

/-- The line above, between or below columns of the given widths. -/
def draw (r : Rule) (widths : List Nat) : String :=
  r.start ++ r.joint.intercalate
    (widths.map fun w => String.ofList (List.replicate (w + 2) r.fill)) ++ r.stop

end Rule

def cellLines (cell : String) : List String := cell.splitOn "\n"

/-- The columns that a cell takes. -/
def cellWidth (cell : String) : Nat := ((cellLines cell).map width).foldl max 0

/-- The widths of the columns that hold all rows; a row may widen them. -/
def columnWidths (header : List String) (rows : List (List String)) : List Nat :=
  rows.foldl (fun widths row => List.zipWith max widths (row.map cellWidth)) (header.map cellWidth)

/-- A line of a cell with blanks around it, filled up to the width of its column. -/
def padLine (columnWidth : Nat) (line : String) : String :=
  " " ++ line ++ String.ofList (List.replicate (columnWidth - width line) ' ') ++ " "

/-- The lines of a row in columns of the given widths. -/
def drawRow (widths : List Nat) (row : List String) : List String :=
  let cells := row.map cellLines
  let height := (cells.map List.length).foldl max 0
  (List.range height).map fun i =>
    "│" ++ "┆".intercalate
      (List.zipWith (fun w lines => padLine w (lines.getD i "")) widths cells) ++ "│"

/-- The lines of the rows, with a rule between two of them. -/
def drawRows (widths : List Nat) : List (List String) → List String
  | [] => []
  | [row] => drawRow widths row
  | row :: rest => drawRow widths row ++ Rule.between.draw widths :: drawRows widths rest

def Table.lines (t : Table) : List String :=
  let widths := columnWidths t.header t.rows
  Rule.top.draw widths :: drawRow widths t.header ++ Rule.belowHeader.draw widths ::
    drawRows widths t.rows ++ [Rule.bottom.draw widths]

def Table.render (t : Table) : String := "\n".intercalate t.lines

end Egress.Text
