import LexicalPaths.Display.Report

/-!
# Printing on a terminal

What the commands print, as lines of plain text.  The columns of a table are padded to the width of
their longest cell.
-/

namespace LexicalPaths.Display

/-- The text that a cell shows; there are no tags in the cells of the reports. -/
def Cell.text : Cell → Text
  | .markup t | .plain t => t

/-- The texts side by side, each padded to its width. -/
def paddedRow : List Nat → List Text → Text
  | width :: widths, cell :: cells =>
    let rest := paddedRow widths cells
    if rest = [] then cell
    else cell ++ List.replicate (width - cell.length + 2) ' ' ++ rest
  | _, _ => []

def columnWidths (rows : List (List Text)) : List Nat :=
  let count := (rows.map List.length).foldl max 0
  (List.range count).map fun column =>
    (rows.map fun row => ((row[column]?).getD []).length).foldl max 0

/-- The lines of a table: its title, its headers, and its rows. -/
def Table.lines (table : Table) : List Text :=
  let rows := table.columns :: table.rows.map fun row => row.map Cell.text
  table.title :: rows.map (paddedRow (columnWidths rows))

def Shown.lines : Shown → List Text
  | .line t => [t]
  | .table columns => columns.lines

end LexicalPaths.Display
