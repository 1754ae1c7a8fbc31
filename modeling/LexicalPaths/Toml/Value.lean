import LexicalPaths.Toml.Clock
import LexicalPaths.Toml.Key
import LexicalPaths.Toml.Number

/-!
# Values of TOML documents

Strings, truth values, lists, inline tables, dates, times and numbers.  The keys of an inline table
may be chains, which open tables within it; a list or a table that is written out inline is closed
to all further keys.
-/

namespace LexicalPaths.Toml

/-- Finds the table that the chain `key` leads to, opening those that are missing, and changes its
entries.  Through lists the chain leads to the last item, unless `throughLists` is false.  `none`
if something else than a table stands in the way, or if the change fails. -/
def changeAt (throughLists : Bool) (change : List (Text × Datum) → Option (List (Text × Datum))) :
    List Text → List (Text × Datum) → Option (List (Text × Datum))
  | [], entries => change entries
  | key :: chain, entries =>
    let put := fun value => Datum.setEntry key value entries
    match Datum.entry? key entries with
    | none => (changeAt throughLists change chain []).map fun inner => put (.table inner)
    | some (.table inner) =>
      (changeAt throughLists change chain inner).map fun inner => put (.table inner)
    | some (.list items) =>
      match throughLists, items.getLast? with
      | true, some (.table inner) =>
        (changeAt throughLists change chain inner).map fun inner =>
          put (.list (items.dropLast ++ [.table inner]))
      | _, _ => none
    | some _ => none

/-- Adds an entry to a table that does not hold its key yet. -/
def addEntry (key : Text) (value : Datum) (entries : List (Text × Datum)) :
    Option (List (Text × Datum)) :=
  match Datum.entry? key entries with
  | some _ => none
  | none => some (entries ++ [(key, value)])

def addAt (throughLists : Bool) (chain : List Text) (value : Datum)
    (entries : List (Text × Datum)) : Option (List (Text × Datum)) :=
  match chain.getLast? with
  | some key => changeAt throughLists (addEntry key value) chain.dropLast entries
  | none => none

def isNest : Datum → Bool
  | .list _ | .table _ => true
  | _ => false

/-- Whether one of the closed chains is a beginning of `key`. -/
def isClosed (closed : List (List Text)) (key : List Text) : Bool :=
  closed.any fun chain => chain.isPrefixOf key

/-- The text behind a comment at its beginning, if there is one: the rest starts at the line end. -/
def skipComment (t : Text) : Except Error Text :=
  match t with
  | '#' :: rest =>
    let comment := rest.takeWhile (· != '\n')
    if comment.any isControl then fail rest else .ok (rest.drop comment.length)
  | t => .ok t

/-- The text behind the space, line ends and comments at its beginning.  `fuel` bounds the number
of comments. -/
def skipBlankFrom : Nat → Text → Except Error Text
  | 0, t => .ok t
  | fuel + 1, t =>
    match t.dropWhile isSpaceOrBreak with
    | '#' :: rest =>
      match skipComment ('#' :: rest) with
      | .ok rest => skipBlankFrom fuel rest
      | .error e => .error e
    | t => .ok t

/-- The text behind the space, line ends and comments at its beginning. -/
def skipBlank (t : Text) : Except Error Text :=
  skipBlankFrom t.length t

/-- Whether the text starts a string of several lines, behind its first quote. -/
def isTripled (quote : Char) (t : Text) : Bool :=
  t.take 2 == [quote, quote]

/-- A string that was read, as a value. -/
def textRead : Read Text → Read Datum :=
  Except.map fun (t, rest) => (.text t, rest)

mutual

/-- The value at the beginning of a text.  `fuel` bounds how many values are read within it. -/
def readValue : Nat → Text → Read Datum
  | 0, t => fail t
  | fuel + 1, t =>
    match t with
    | '"' :: rest =>
      textRead (if isTripled '"' rest then readEscapedLines (rest.drop 2) else readEscaped rest)
    | '\'' :: rest =>
      textRead (if isTripled '\'' rest then readLiteralLines (rest.drop 2) else readLiteral rest)
    | 't' :: 'r' :: 'u' :: 'e' :: rest => .ok (.bool true, rest)
    | 'f' :: 'a' :: 'l' :: 's' :: 'e' :: rest => .ok (.bool false, rest)
    | '[' :: rest =>
      match skipBlank rest with
      | .error e => .error e
      | .ok (']' :: rest) => .ok (.list [], rest)
      | .ok rest => (readItems fuel rest).map fun (items, rest) => (.list items, rest)
    | '\x7b' :: rest =>
      match skipSpace rest with
      | '\x7d' :: rest => .ok (.table [], rest)
      | rest => (readEntries fuel [] [] rest).map fun (entries, rest) => (.table entries, rest)
    | t => (readMoment? t).getD (readNumber t)

/-- The items of a list, up to and with its closing bracket. -/
def readItems : Nat → Text → Read (List Datum)
  | 0, t => fail t
  | fuel + 1, t =>
    match readValue fuel t with
    | .error e => .error e
    | .ok (item, rest) =>
      match skipBlank rest with
      | .error e => .error e
      | .ok (']' :: rest) => .ok ([item], rest)
      | .ok (',' :: rest) =>
        match skipBlank rest with
        | .error e => .error e
        | .ok (']' :: rest) => .ok ([item], rest)
        | .ok rest => (readItems fuel rest).map fun (items, rest) => (item :: items, rest)
      | .ok rest => fail rest

/-- The entries of an inline table, up to and with its closing brace, added to the ones that come
before.  The chains in `closed` lead to lists and tables among those. -/
def readEntries : Nat → List (List Text) → List (Text × Datum) → Text → Read (List (Text × Datum))
  | 0, _, _, t => fail t
  | fuel + 1, closed, before, t =>
    match readKey t with
    | .error e => .error e
    | .ok (key, '=' :: rest) =>
      match readValue fuel (skipSpace rest) with
      | .error e => .error e
      | .ok (value, rest) =>
        if isClosed closed key then fail rest
        else
          match addAt false key value before with
          | none => fail rest
          | some entries =>
            match skipSpace rest with
            | '\x7d' :: rest => .ok (entries, rest)
            | ',' :: rest =>
              let closed := if isNest value then key :: closed else closed
              readEntries fuel closed entries (skipSpace rest)
            | rest => fail rest
    | .ok (_, rest) => fail rest

end

end LexicalPaths.Toml
