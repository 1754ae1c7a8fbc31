import LexicalPaths.Datum.Basic

/-!
# Writing JSON

Documents are written on one line, with `, ` and `: ` between their parts, or indented, with one
item on each line.  Texts keep all characters but quotes, backslashes and controls.
-/

namespace LexicalPaths.Json

def escapeChar (c : Char) : Text :=
  if c = '"' then ['\\', '"']
  else if c = '\\' then ['\\', '\\']
  else if c = '\n' then ['\\', 'n']
  else if c = '\r' then ['\\', 'r']
  else if c = '\t' then ['\\', 't']
  else if c = '\x0c' then ['\\', 'f']
  else if c = '\x08' then ['\\', 'b']
  else if c.toNat < 0x20 then ['\\', 'u'] ++ Text.hexDigits 4 c.toNat
  else [c]

def string (t : Text) : Text :=
  '"' :: t.flatMap escapeChar ++ ['"']

def numberText : Binary64 → Text
  | .notNumber => "NaN".toList
  | .infinite negative => (if negative then ['-'] else []) ++ "Infinity".toList
  | x => x.toText

/-- How a document is laid out: on one line, or on lines that are indented by the text `unit` for
each level. -/
inductive Layout where
  | line
  | indented (unit : Text)
deriving DecidableEq

/-- What stands between two parts at the given depth, after a comma if there is one. -/
def Layout.breakAt (layout : Layout) (depth : Nat) : Text :=
  match layout with
  | .line => []
  | .indented unit => '\n' :: (List.replicate depth unit).flatten

def Layout.comma (layout : Layout) (depth : Nat) : Text :=
  match layout with
  | .line => [',', ' ']
  | .indented _ => ',' :: layout.breakAt depth

mutual

def print (layout : Layout) (depth : Nat) : Datum → Text
  | .null => "null".toList
  | .bool true => "true".toList
  | .bool false => "false".toList
  | .int n => (toString n).toList
  | .float x => numberText x
  | .text t => string t
  | .moment m => string m.toText
  | .list [] => ['[', ']']
  | .list (item :: rest) =>
    ['['] ++ layout.breakAt (depth + 1) ++ printItems layout (depth + 1) (item :: rest) ++
      layout.breakAt depth ++ [']']
  | .table [] => ['\x7b', '\x7d']
  | .table (entry :: rest) =>
    ['\x7b'] ++ layout.breakAt (depth + 1) ++ printEntries layout (depth + 1) (entry :: rest) ++
      layout.breakAt depth ++ ['\x7d']

def printItems (layout : Layout) (depth : Nat) : List Datum → Text
  | [] => []
  | [item] => print layout depth item
  | item :: rest =>
    print layout depth item ++ layout.comma depth ++ printItems layout depth rest

def printEntries (layout : Layout) (depth : Nat) : List (Text × Datum) → Text
  | [] => []
  | [(key, item)] => string key ++ [':', ' '] ++ print layout depth item
  | (key, item) :: rest =>
    string key ++ [':', ' '] ++ print layout depth item ++ layout.comma depth ++
      printEntries layout depth rest

end

def write (layout : Layout) (d : Datum) : Text :=
  print layout 0 d

end LexicalPaths.Json
