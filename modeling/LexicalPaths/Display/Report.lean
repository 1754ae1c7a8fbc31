import LexicalPaths.Manifest.Basic
import LexicalPaths.Path.Order

/-!
# Reports

What the commands print: lines of text, the table that takes a path apart, and the table of a
manifest's outputs.
-/

namespace LexicalPaths.Display

/-- A cell of a table. -/
inductive Cell where
  /-- Text in which tags in square brackets count. -/
  | markup (t : Text)
  /-- Text that is escaped, so that it is shown as it is. -/
  | plain (t : Text)
deriving DecidableEq

/-- A table: a title, the headers of its columns, and its rows. -/
structure Table where
  title : Text
  columns : List Text
  rows : List (List Cell)
deriving DecidableEq

/-- Something that is printed. -/
inductive Shown where
  | line (t : Text)
  | table (table : Table)
deriving DecidableEq

/-- The text of a part of a path, or a dash if the path has no such part. -/
def partCell : Option Path → Cell
  | some p => .plain p.raw
  | none => .markup ['-']

def answerCell (b : Bool) : Cell :=
  .markup (if b then "yes".toList else "no".toList)

def detailsRow (name : String) (cell : Cell) : List Cell :=
  [.markup name.toList, cell]

def detailsTable (p : Path) : Table where
  title := "Path".toList
  columns := ["Property".toList, "Value".toList]
  rows := [
    detailsRow "raw" (.plain p.raw),
    detailsRow "uri" (.plain p.display),
    detailsRow "root" (partCell p.root?),
    detailsRow "parent" (partCell p.parent?),
    detailsRow "file name" (.plain p.fileName.raw),
    detailsRow "names" (.markup (toString p.nameCount).toList),
    detailsRow "absolute" (answerCell p.isAbsolute),
    detailsRow "trailing separator" (answerCell p.hasTrailingSeparator),
    detailsRow "portable" (.plain p.portableText),
    detailsRow "native" (.plain p.nativeText)]

/-- The line of a name, when `index` names come before it. -/
def nameLine (name : Text) (index : Nat) : Shown :=
  .line ("  [".toList ++ (toString index).toList ++ "] ".toList ++ name)

/-- A path taken apart: a table, and a line for each name. -/
def details (p : Path) : List Shown :=
  .table (detailsTable p) :: p.names.zipIdx.map fun (name, index) => nameLine name index

def propertiesCell (output : Output) : Cell :=
  let sorted := output.properties.mergeSort fun a b => Text.order a.1 b.1 != .gt
  .plain (Text.joinWith [',', ' '] (sorted.map fun (key, value) => key ++ ['='] ++ value))

def outputsTable (outputs : Manifest) : Table where
  title := "Build outputs".toList
  columns := ["Type".toList, "Path".toList, "Properties".toList]
  rows := outputs.map fun output =>
    [.plain output.type, .plain output.path.raw, propertiesCell output]

/-- A manifest: the table of its outputs, or a line that says there are none. -/
def listing (outputs : Manifest) : List Shown :=
  if outputs.isEmpty then [.line "No outputs recorded".toList]
  else [.table (outputsTable outputs)]

end LexicalPaths.Display
