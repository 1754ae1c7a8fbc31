import LexicalPaths.Datum.Moment
import LexicalPaths.Decimal.Shortest
import LexicalPaths.Text.Quoted

/-!
# Data

The values that documents hold: JSON values, and the values of configuration documents, which add
dates and times.  A table keeps its entries in the order in which their keys first appear.
-/

namespace LexicalPaths

/-- A value of a document. -/
inductive Datum where
  | null
  | bool (b : Bool)
  | int (n : Int)
  | float (x : Binary64)
  | text (t : Text)
  | moment (m : Moment)
  | list (items : List Datum)
  | table (entries : List (Text × Datum))

namespace Datum

/-- Sets the value of a key: in place if the key is there, and at the end if it is not. -/
def setEntry (key : Text) (value : Datum) : List (Text × Datum) → List (Text × Datum)
  | [] => [(key, value)]
  | (k, v) :: rest =>
    if k = key then (k, value) :: rest else (k, v) :: setEntry key value rest

/-- The entries of a table in which each key has the last of its values. -/
def tableEntries (pairs : List (Text × Datum)) : List (Text × Datum) :=
  pairs.foldl (fun entries (key, value) => setEntry key value entries) []

def entry? (key : Text) (entries : List (Text × Datum)) : Option Datum :=
  entries.lookup key

/-- Whether the value counts as set: absent, false, zero and empty values do not. -/
def isSet : Datum → Bool
  | .null => false
  | .bool b => b
  | .int n => n != 0
  | .float x => !x.isZero
  | .text t => !t.isEmpty
  | .moment _ => true
  | .list items => !items.isEmpty
  | .table entries => !entries.isEmpty

def kind : Datum → Text
  | .null => "NoneType".toList
  | .bool _ => "bool".toList
  | .int _ => "int".toList
  | .float _ => "float".toList
  | .text _ => "str".toList
  | .moment (.date _) => "date".toList
  | .moment (.time _) => "time".toList
  | .moment (.dateTime ..) => "datetime".toList
  | .list _ => "list".toList
  | .table _ => "dict".toList

/-- Whether the value can be part of a key: lists and tables cannot. -/
def canBeKey : Datum → Bool
  | .list _ | .table _ => false
  | _ => true

/-- The wording of the refusal to use a value of the given kind in a key. -/
def noKeyMessage (kind : Text) : Text :=
  "unhashable type: '".toList ++ kind ++ ['\'']

mutual

/-- Whether all integers of the value have few enough digits to be written. -/
def isWritable : Datum → Bool
  | .int n => n.natAbs < Nat.pow 10 Text.maxDigits
  | .list items => areWritable items
  | .table entries => areWritableEntries entries
  | _ => true

def areWritable : List Datum → Bool
  | [] => true
  | item :: rest => isWritable item && areWritable rest

def areWritableEntries : List (Text × Datum) → Bool
  | [] => true
  | (_, value) :: rest => isWritable value && areWritableEntries rest

end

/-- The wording of the refusal to write a value that is not writable. -/
def noTextMessage : Text :=
  "Exceeds the limit (4300 digits) for integer string conversion; ".toList ++
    "use sys.set_int_max_str_digits() to increase the limit".toList

mutual

/-- The value as source text: texts are quoted, lists stand in brackets and tables in braces. -/
def literal : Datum → Text
  | .null => "None".toList
  | .bool true => "True".toList
  | .bool false => "False".toList
  | .int n => (toString n).toList
  | .float x => x.toText
  | .text t => Text.quoted t
  | .moment m => m.literal
  | .list items => ['['] ++ literalItems items ++ [']']
  | .table entries => ['\x7b'] ++ literalEntries entries ++ ['\x7d']

def literalItems : List Datum → Text
  | [] => []
  | [item] => literal item
  | item :: rest => literal item ++ [',', ' '] ++ literalItems rest

def literalEntries : List (Text × Datum) → Text
  | [] => []
  | [(key, value)] => Text.quoted key ++ [':', ' '] ++ literal value
  | (key, value) :: rest =>
    Text.quoted key ++ [':', ' '] ++ literal value ++ [',', ' '] ++ literalEntries rest

end

/-- The value as text: a text is itself, a moment is spelled out, and all else is source text. -/
def display : Datum → Text
  | .text t => t
  | .moment m => m.toText
  | d => d.literal

end Datum

end LexicalPaths
