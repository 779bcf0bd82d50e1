/-
  Tables of text with aligned columns.

  * `Text.grid`: a title, a header line, a rule and one line per row.
  * `Text.columnWidth`: how wide a column is.
-/
import SelectorRename.Text.Blank

namespace SelectorRename.Text

/-- A column is as wide as its widest cell. Cells count characters, the header its encoded size. -/
def columnWidth (rows : List (List String)) (column : Nat) (header : String) : Nat :=
  (rows.filterMap (·[column]?)).foldl (fun width cell => max width cell.length) header.utf8ByteSize

/-- A cell filled up with spaces on its right. -/
def padCell (cell : String) (width : Nat) : List Char :=
  cell.toList ++ List.replicate (width - cell.length) ' '

/-- One line of a grid: the cells that have a column, without blanks at the end. -/
def gridLine (widths : List Nat) (cells : List String) : String :=
  String.ofList (trimRight (" | ".toList.intercalate (cells.zipWith padCell widths)))

/-- A table with the columns of its header; what a row has beyond them is left out. -/
def grid (title : String) (header : List String) (rows : List (List String)) : String :=
  let widths := header.mapIdx fun column cell => columnWidth rows column cell
  let rule := "-+-".intercalate (widths.map fun width => String.ofList (List.replicate width '-'))
  "\n".intercalate (title :: gridLine widths header :: rule :: rows.map (gridLine widths))

end SelectorRename.Text
