import LexicalPaths.Command.Verb

/-!
# Requests

What a command line asks for, once its words are in their places.
-/

namespace LexicalPaths.Command

/-- What can be done with one path. -/
inductive PathTask where
  | inspect
  | normalize
  | convert (form : Form)
deriving DecidableEq

/-- What can be done with two paths. -/
inductive PairTask where
  | resolve
  | relativize
deriving DecidableEq

/-- What a command is asked to do.  Arguments and values that were left out are not texts. -/
inductive Task where
  | path (task : PathTask) (path : Datum)
  | pair (task : PairTask) (base other : Datum) (normalize : Bool)
  | manifest (folder : Datum) (types? : Option (List Datum))
  | record (folder type path : Datum) (properties : List Datum)

/-- What a command line asks for. -/
structure Request where
  task : Task
  /-- The URI of the filesystem of the given paths, if one is given. -/
  filesystem? : Option Datum
  verbose : Bool
  quiet : Bool

/-- The types that are chosen, if any are. -/
def chosenTypes (reading : Reading) : Option (List Datum) :=
  match reading.valuesOf typeOption with
  | [] => none
  | types => some types

/-- The form that is chosen.  Paths are usually converted to the portable one, and to the raw one if
the choice was left out. -/
def chosenForm (reading : Reading) : Form :=
  match reading.value? formOption with
  | none => .portable
  | some (.text name) => (Form.ofName? name).getD .raw
  | some _ => .raw

/-- What a reading of the words of a command asks the command to do. -/
def Task.ofReading (verb : Verb) (reading : Reading) : Task :=
  let first := reading.argument 0
  let second := reading.argument 1
  match verb with
  | .inspect => .path .inspect first
  | .normalize => .path .normalize first
  | .convert => .path (.convert (chosenForm reading)) first
  | .resolve => .pair .resolve first second (reading.isSet normalizeFlag)
  | .relativize => .pair .relativize first second (reading.isSet normalizeFlag)
  | .manifest => .manifest first (chosenTypes reading)
  | .record => .record first second (reading.argument 2) (reading.valuesOf propertyOption)

def Request.ofReading (verb : Verb) (reading : Reading) : Request where
  task := .ofReading verb reading
  filesystem? := (reading.value? filesystemOption).filter Datum.isSet
  verbose := reading.isSet verboseFlag
  quiet := reading.isSet quietFlag

def Request.read (dialect : Dialect) (words : List Text) : Except Stop Request := do
  let opening ← Opening.read dialect [] words
  let reading ← opening.verb.grammar.read dialect opening.rest
  match opening.extras ++ reading.extras with
  | [] => return .ofReading opening.verb reading
  | extras => throw (.misuse programName (.unrecognized extras))

/-- Splits a property into its key and its value, or `none` if it has no key. -/
def property? (t : Text) : Option (Text × Text) :=
  match Text.cut? '=' t with
  | none | some ([], _) => none
  | some (key, value) => some (key, value)

/-- Sets a property: in place if the key is there, and at the end if it is not. -/
def setProperty (properties : List (Text × Text)) (key value : Text) : List (Text × Text) :=
  match properties with
  | [] => [(key, value)]
  | (k, v) :: rest =>
    if k = key then (k, value) :: rest else (k, v) :: setProperty rest key value

/-- Why a value sets no property. -/
inductive PropertyFault where
  /-- It is a text, but no key with a value. -/
  | malformed (t : Text)
  /-- It is no text, but a value of the given kind. -/
  | noText (kind : Text)
deriving DecidableEq

/-- The properties that values set, or why the first one that sets none does not. -/
def propertiesFrom (properties : List (Text × Text)) :
    List Datum → Except PropertyFault (List (Text × Text))
  | [] => .ok properties
  | .text t :: rest =>
    match property? t with
    | some (key, value) => propertiesFrom (setProperty properties key value) rest
    | none => .error (.malformed t)
  | d :: _ => .error (.noText d.kind)

end LexicalPaths.Command
