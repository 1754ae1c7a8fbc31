import LexicalPaths.Json.Printer
import LexicalPaths.Json.Reader
import LexicalPaths.Manifest.Basic
import LexicalPaths.Manifest.Record
import LexicalPaths.Path.Relativize
import LexicalPaths.Path.Resolve

/-!
# Manifest documents

A manifest is kept as a JSON list of records.  Outputs below the folder of the manifest are
recorded relative to it, and what is recorded without a root is read relative to it, so that a
folder that has moved takes its outputs along.
-/

namespace LexicalPaths.Manifest

/-- The key of the type of an output; the type stands in a table of its own. -/
def outputTypeKey : Text := "outputType".toList

def typeKey : Text := "type".toList

def propertiesKey : Text := "properties".toList

/-- The form in which a path is recorded in the manifest of the folder `base`. -/
def stored (base p : Path) : Path :=
  if p.isAbsolute && p.uri == base.uri then (base.below? p).getD p else p

/-- What is recorded of an output.  A type that was left out is not a text. -/
structure Draft where
  type : Datum
  path : Path
  properties : List (Text × Text)

def Draft.ofOutput (output : Output) : Draft :=
  ⟨.text output.type, output.path, output.properties⟩

/-- The record of a draft in the manifest of the folder `base`. -/
def recordDraft (base : Path) (d : Draft) : Datum :=
  .table <|
    (outputTypeKey, .table [(typeKey, d.type)]) ::
      Record.encode base.uri (stored base d.path) ++
      [(propertiesKey, .table (d.properties.map fun (key, value) => (key, .text value)))]

/-- The document of the manifest of the folder `base` with the given drafts. -/
def persistDrafts (base : Path) (layout : Json.Layout) (drafts : List Draft) : Text :=
  Json.write layout (.list (drafts.map (recordDraft base)))

/-- The record of an output in the manifest of the folder `base`. -/
def record (base : Path) (output : Output) : Datum :=
  recordDraft base (.ofOutput output)

/-- The document of the manifest of the folder `base`. -/
def persist (base : Path) (layout : Json.Layout) (outputs : Manifest) : Text :=
  persistDrafts base layout (outputs.map .ofOutput)

/-- The place of a recorded path: without a root it starts at the folder `base`. -/
def placed (base p : Path) : Path :=
  if p.rootEnd = 0 ∧ p.uri = base.uri then base.resolve p else p

def typeName? (entries : List (Text × Datum)) : Option Text :=
  match Datum.entry? outputTypeKey entries with
  | some (.table type) =>
    match Datum.entry? typeKey type with
    | some (.text name) => some name
    | _ => none
  | _ => none

/-- The properties that a record lists, or `none` if it lists something else. -/
def properties? (entries : List (Text × Datum)) : Option (List (Text × Text)) :=
  match Datum.entry? propertiesKey entries with
  | none => some []
  | some (.table properties) => some (properties.map fun (key, value) => (key, value.display))
  | some _ => none

/-- The output that a record in the manifest of the folder `base` describes. -/
def readRecord (base : Path) : Datum → Except Fault Output
  | .table entries =>
    match typeName? entries, Datum.entry? Record.pathKey entries with
    | none, _ => .error (.noType (.table entries))
    | _, none => .error (.pathMissing (.table entries))
    | some type, some _ =>
      match Record.decode base.uri entries, properties? entries with
      | .error fault, _ => .error fault
      | .ok _, none => .error (.propertiesKind (.table entries))
      | .ok p, some properties => .ok ⟨type, placed base p, properties⟩
  | d => .error (.noTable d)

/-- The outputs that records describe; the first record at fault decides. -/
def readRecords (base : Path) : List Datum → Except Fault Manifest
  | [] => .ok []
  | d :: rest =>
    match readRecord base d with
    | .error fault => .error fault
    | .ok output => (readRecords base rest).map (output :: ·)

/-- Whether a type is among those to keep; without a choice all are.  Values that are not texts are
no types. -/
def keepsType (types? : Option (List Datum)) (type : Text) : Bool :=
  types?.all fun types => types.any fun
    | .text t => t == type
    | _ => false

def checkTypes (types? : Option (List Datum)) : Except Error Unit :=
  match (types?.getD []).find? fun d => !d.canBeKey with
  | some d => .error (.typeKind d.kind)
  | none => .ok ()

/-- The items of a document, which must be a list.  As many lists and tables may lie in each other
as there is room for; `none` stands for room without end. -/
def itemsWithin (room? : Option Nat) (document : Text) : Except Error (List Datum) :=
  match Json.readWithin room? document with
  | .error (.syntaxAt fault left) =>
    .error (.format (.syntaxAt document fault (document.length - left)))
  | .error (.tooManyDigits digits) => .error (.tooManyDigits digits)
  | .error .tooDeep => .error .tooDeep
  | .ok (.list items) => .ok items
  | .ok _ => .error (.format .noList)

/-- Reads the document of the manifest of the folder `base`, as far as there is room, and keeps the
outputs of the chosen types. -/
def loadWithin (room? : Option Nat) (base : Path) (types? : Option (List Datum))
    (document : Text) : Except Error Manifest := do
  let items ← itemsWithin room? document
  checkTypes types?
  match readRecords base items with
  | .error fault => throw (.format fault)
  | .ok outputs => return outputs.filter fun output => keepsType types? output.type

def items (document : Text) : Except Error (List Datum) :=
  itemsWithin none document

/-- Reads the document of the manifest of the folder `base` and keeps the outputs of the chosen
types. -/
def load (base : Path) (types? : Option (List Datum)) (document : Text) : Except Error Manifest :=
  loadWithin none base types? document

end LexicalPaths.Manifest
