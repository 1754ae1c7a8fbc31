import LexicalPaths.Toml.Value

/-!
# TOML documents

A document is a list of statements, one on a line: a key with its value, the header of a table, or
the header of a new item of a list of tables.  Headers and chains of keys open tables, and each
table can be opened only once.
-/

namespace LexicalPaths.Toml

/-- What has been read of a document. -/
structure Draft where
  entries : List (Text × Datum)
  header : List Text
  opened : List (List Text)
  /-- The tables that chains of keys have opened since the last header. -/
  pending : List (List Text)
  closed : List (List Text)

def Draft.empty : Draft := ⟨[], [], [], [], []⟩

/-- The chains of the tables that a chain of keys below `header` leads through. -/
def passedTables (header key : List Text) : List (List Text) :=
  (List.range (key.length - 1)).map fun i => header ++ key.take (i + 1)

/-- Adds a key with its value below the header, or `none` if the key is taken or leads into a table
that is not open to it. -/
def Draft.add? (draft : Draft) (key : List Text) (value : Datum) : Option Draft :=
  let passed := passedTables draft.header key
  if passed.any draft.opened.contains then none
  else if isClosed draft.closed (draft.header ++ key.dropLast) then none
  else
    (addAt true (draft.header ++ key) value draft.entries).map fun entries =>
      { draft with
        entries := entries
        pending := passed ++ draft.pending
        closed := if isNest value then (draft.header ++ key) :: draft.closed else draft.closed }

/-- The draft after the tables that chains of keys have opened are closed to headers. -/
def Draft.settle (draft : Draft) : Draft :=
  { draft with opened := draft.pending ++ draft.opened, pending := [] }

def Draft.openTable? (draft : Draft) (key : List Text) : Option Draft :=
  if draft.opened.contains key || isClosed draft.closed key then none
  else
    (changeAt true some key draft.entries).map fun entries =>
      { draft with entries := entries, header := key, opened := key :: draft.opened }

def addItem (key : Text) (entries : List (Text × Datum)) : Option (List (Text × Datum)) :=
  match Datum.entry? key entries with
  | some (.list items) => some (Datum.setEntry key (.list (items ++ [.table []])) entries)
  | some _ => none
  | none => some (entries ++ [(key, .list [.table []])])

/-- Opens a new item of a list of tables by its header.  What was opened or closed in the item
before does not matter any more. -/
def Draft.openItem? (draft : Draft) (key : List Text) : Option Draft :=
  let outside := fun (chain : List Text) => !key.isPrefixOf chain
  match isClosed draft.closed key, key.getLast? with
  | false, some last =>
    (changeAt true (addItem last) key.dropLast draft.entries).map fun entries =>
      { draft with
        entries := entries
        header := key
        opened := key :: draft.opened.filter outside
        closed := draft.closed.filter outside }
  | _, _ => none

def accept (draft? : Option Draft) (rest : Text) : Read Draft :=
  match draft? with
  | some draft => .ok (draft, rest)
  | none => fail rest

def readPair (draft : Draft) (t : Text) : Read Draft :=
  match readKey t with
  | .error e => .error e
  | .ok (key, '=' :: rest) =>
    match readValue (2 * t.length) (skipSpace rest) with
    | .error e => .error e
    | .ok (value, rest) => accept (draft.add? key value) rest
  | .ok (_, rest) => fail rest

/-- Reads the header of a table, behind its opening bracket. -/
def readTableHeader (draft : Draft) (t : Text) : Read Draft :=
  match readKey (skipSpace t) with
  | .error e => .error e
  | .ok (key, ']' :: rest) => accept (draft.settle.openTable? key) rest
  | .ok (_, rest) => fail rest

/-- Reads the header of an item, behind its opening brackets. -/
def readItemHeader (draft : Draft) (t : Text) : Read Draft :=
  match readKey (skipSpace t) with
  | .error e => .error e
  | .ok (key, ']' :: ']' :: rest) => accept (draft.settle.openItem? key) rest
  | .ok (_, rest) => fail rest

/-- Reads the statement at the beginning of a text, if there is one. -/
def readStatement (draft : Draft) (t : Text) : Read Draft :=
  match t with
  | [] => .ok (draft, [])
  | '\n' :: rest => .ok (draft, '\n' :: rest)
  | '#' :: rest => .ok (draft, '#' :: rest)
  | '[' :: '[' :: rest => readItemHeader draft rest
  | '[' :: rest => readTableHeader draft rest
  | t => readPair draft t

/-- Reads the rest of a document.  `fuel` bounds the number of its lines. -/
def readLines : Nat → Draft → Text → Except Error Draft
  | 0, draft, _ => .ok draft
  | fuel + 1, draft, t =>
    match readStatement draft (skipSpace t) with
    | .error e => .error e
    | .ok (draft, rest) =>
      match skipComment (skipSpace rest) with
      | .error e => .error e
      | .ok [] => .ok draft
      | .ok ('\n' :: rest) => readLines fuel draft rest
      | .ok rest => fail rest

def unifyBreaks : Text → Text
  | '\r' :: '\n' :: t => '\n' :: unifyBreaks t
  | c :: t => c :: unifyBreaks t
  | [] => []

def read (document : Text) : Except Error (List (Text × Datum)) :=
  let t := unifyBreaks document
  (readLines t.length.succ .empty t).map Draft.entries

end LexicalPaths.Toml
