import LexicalPaths.Datum.Basic
import LexicalPaths.Json.Error

/-!
# Faults of manifests

Why a record names no path and why a text is no manifest.  Each fault keeps the value that is at
fault, so that its message can show it.
-/

namespace LexicalPaths.Manifest

/-- What is wrong with the form of a manifest or of one of its records. -/
inductive Fault where
  /-- The document is not JSON. -/
  | syntaxAt (document : Text) (fault : Json.Fault) (offset : Nat)
  /-- The document is not a list. -/
  | noList
  /-- A record is not a table. -/
  | noTable (record : Datum)
  /-- A record does not name the type of its output. -/
  | noType (record : Datum)
  /-- A record of an output does not mention a path. -/
  | pathMissing (record : Datum)
  /-- The path of a record is not a text. -/
  | pathKind (record : Datum)
  /-- The filesystem of a record is not a text. -/
  | filesystemKind (value : Datum)
  /-- The properties of a record are not a table. -/
  | propertiesKind (record : Datum)

def Fault.message : Fault → Text
  | .syntaxAt document fault offset =>
    "Manifest is not valid JSON: ".toList ++ Json.faultMessage document fault offset
  | .noList => "Manifest must be a JSON array of output records".toList
  | .noTable record => "Output record must be an object: ".toList ++ record.literal
  | .noType record => "Output record has no 'outputType.type': ".toList ++ record.literal
  | .pathMissing record => "Output record has no 'path': ".toList ++ record.literal
  | .pathKind record => "Record has no string 'path': ".toList ++ record.literal
  | .filesystemKind value => "Record 'filesystem' must be a string: ".toList ++ value.literal
  | .propertiesKind record => "'properties' must be an object: ".toList ++ record.literal

/-- Why a text cannot be read as a manifest. -/
inductive Error where
  | format (fault : Fault)
  | tooManyDigits (digits : Nat)
  /-- More lists and tables lie in each other than there is room for. -/
  | tooDeep
  /-- A value of the given kind stands among the types to keep, and cannot be one. -/
  | typeKind (kind : Text)

def Error.message : Error → Text
  | .format fault => fault.message
  | .tooManyDigits digits => Json.tooManyDigitsMessage digits
  | .tooDeep => Json.tooDeepMessage
  | .typeKind kind => Datum.noKeyMessage kind

end LexicalPaths.Manifest
