import LexicalPaths.Datum.AsPath
import LexicalPaths.Display.PathText

/-!
# Events on the terminal

A log record may carry an event: a name, and details that are kept as attributes of the record.
An event is shown as an icon, what happened, the manifest it happened to, and the details in
parentheses.
-/

namespace LexicalPaths.Display

abbrev Attributes := List (Text × Datum)

/-- What can happen to a manifest. -/
inductive EventKind where
  | saved
  | loaded
  | missing
  | failed
deriving DecidableEq

def EventKind.name : EventKind → Text
  | .saved => "manifest.save".toList
  | .loaded => "manifest.load".toList
  | .missing => "manifest.missing".toList
  | .failed => "manifest.error".toList

def EventKind.ofName? (name : Text) : Option EventKind :=
  [EventKind.saved, .loaded, .missing, .failed].find? fun kind => kind.name == name

/-- The icon of an event; events of unknown kinds have one too. -/
def eventIcon : Option EventKind → Text
  | some .saved => ['💾']
  | some .loaded => ['📄']
  | some .failed => ['❌']
  | some .missing | none => ['\u2139', '\ufe0f']

def eventColor : Option EventKind → Color
  | some .saved => .green
  | some .loaded => .cyan
  | some .missing => .yellow
  | some .failed => .red
  | none => .blue

def eventPhrase : Option EventKind → Text
  | some .saved => "Saved manifest ".toList
  | some .loaded => "Loaded manifest ".toList
  | some .missing => "No manifest at ".toList
  | some .failed => "Unreadable manifest ".toList
  | none => []

def eventKey : Text := "path_event".toList

def manifestKey : Text := "manifest_path".toList

/-- The key of the folder that the manifest is shown relative to. -/
def baseKey : Text := "base_path".toList

def entriesKey : Text := "entries".toList

def errorKey : Text := "error_message".toList

/-- The attribute with the given key; a missing one is null. -/
def detail (key : Text) (attributes : Attributes) : Datum :=
  (Datum.entry? key attributes).getD .null

/-- The text of the base folder that an attribute names; an unset one names none. -/
def baseOf (d : Datum) : Except NoPath (Option Text) :=
  if d.isSet then d.asPath.map some else .ok none

/-- The number of outputs of an event, if it is a whole number. -/
def entriesDetail (attributes : Attributes) : List Text :=
  match detail entriesKey attributes with
  | .int n => ["entries=".toList ++ (Datum.int n).display]
  | .bool b => ["entries=".toList ++ (Datum.bool b).display]
  | _ => []

/-- What went wrong in an event, if anything. -/
def errorDetail (attributes : Attributes) : List Text :=
  let error := detail errorKey attributes
  if error.isSet then [error.display] else []

/-- The details of an event in parentheses, or nothing if there are none. -/
def eventDetails (attributes : Attributes) : Text :=
  match entriesDetail attributes ++ errorDetail attributes with
  | [] => []
  | details => [' ', '('] ++ Text.joinWith [',', ' '] details ++ [')']

/-- A record without an event shows its message, and one with an event shows the event. -/
inductive Rendered (σ : Type) where
  | message (styled : σ)
  | event (styled : σ)

section

variable {σ : Type} (library : TextLibrary σ)

/-- Adds the manifest of an event to a text; an unset attribute adds nothing. -/
def addEventPath (s : σ) (attributes : Attributes) : Except NoPath σ :=
  let manifest := detail manifestKey attributes
  if manifest.isSet then
    (baseOf (detail baseKey attributes)).map fun base? =>
      library.appendStyled s (pathText library manifest.display base?)
  else .ok s

/-- The event with the given name and attributes, as the terminal shows it. -/
def eventText (name : Text) (attributes : Attributes) : Except NoPath σ :=
  let kind? := EventKind.ofName? name
  let color := eventColor kind?
  let head := library.append (library.empty none) (eventIcon kind? ++ [' ']) (some ⟨color, true⟩)
  let opened := library.append (library.empty (some (.ofColor color))) (eventPhrase kind?) none
  (addEventPath library opened attributes).map fun body =>
    let details := eventDetails attributes
    library.appendStyled head (if details = [] then body else library.append body details none)

def render (message : Text) (attributes : Attributes) : Except NoPath (Rendered σ) :=
  match detail eventKey attributes with
  | .text name => (eventText library name attributes).map .event
  | _ => .ok (.message (library.ofText message))

end

end LexicalPaths.Display
