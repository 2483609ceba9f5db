import OpenApiManifest.Text.Width

/-!
# Tables

A table of texts in columns that are as wide as their widest cell.  A cell has one blank on each side
and may have several lines.  There is a line above and below each column, and an unbroken one under
the header.
-/

namespace OpenApiManifest.CommandLine

/-- The side of a column to which a cell is moved. -/
inductive Side where
  | left | right
  deriving DecidableEq, Repr

/-- A cell. -/
structure Cell where
  text : String
  side : Side
  deriving DecidableEq, Repr

namespace Cell

def lines (cell : Cell) : List String :=
  cell.text.splitOn "\n"

/-- The width of the widest line of a cell. -/
def width (cell : Cell) : Nat :=
  (cell.lines.map Width.text).foldl max 0

end Cell

/-- A table: the cells of its header and of its rows. -/
structure Table where
  header : List String
  rows : List (List Cell)
  deriving DecidableEq, Repr

namespace Table

def blanks (n : Nat) : String :=
  String.ofList (List.replicate n ' ')

def rule (n : Nat) : String :=
  String.ofList (List.replicate n '─')

/-- A line of a cell in a column. -/
def pad (side : Side) (width : Nat) (line : String) : String :=
  let room := blanks (width - Width.text line)
  match side with
  | .left => " " ++ line ++ room ++ " "
  | .right => " " ++ room ++ line ++ " "

def headerRow (table : Table) : List Cell :=
  table.header.map fun text => ⟨text, .left⟩

/-- The width of each column without the blanks around. -/
def widths (table : Table) : List Nat :=
  (table.headerRow :: table.rows).foldr
    (fun row widths =>
      List.zipWith max (row.map Cell.width ++ List.replicate (widths.length - row.length) 0)
        (widths ++ List.replicate (row.length - widths.length) 0))
    []

def rowLines (widths : List Nat) (row : List Cell) : List String :=
  let height := (row.map fun cell => cell.lines.length).foldl max 0
  (List.range height).map fun i =>
    " ".intercalate
      (List.zipWith (fun width (cell : Cell) => pad cell.side width (cell.lines.getD i ""))
        widths row)

def lines (table : Table) : List String :=
  let widths := table.widths
  let edge := " ".intercalate (widths.map fun width => rule (width + 2))
  let whole := rule (widths.foldl (fun sum width => sum + (width + 3)) 0 - 1)
  [edge] ++ rowLines widths table.headerRow ++ [whole] ++ table.rows.flatMap (rowLines widths)
    ++ [edge]

def text (table : Table) : String :=
  "\n".intercalate table.lines

end Table

end OpenApiManifest.CommandLine
