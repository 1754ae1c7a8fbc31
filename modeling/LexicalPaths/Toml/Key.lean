import LexicalPaths.Text.Digits
import LexicalPaths.Toml.Error

/-!
# Strings and keys of TOML documents

Strings come in four forms: between double quotes with escapes, or between single quotes as they
are, each on one line or, with the quotes tripled, on several.  A key is a chain of parts with
points between them; a part is a bare word or a string on one line.
-/

namespace LexicalPaths.Toml

def isSpace (c : Char) : Bool :=
  c == ' ' || c == '\t'

/-- Whether the character is blank within a list, which may stretch over lines. -/
def isSpaceOrBreak (c : Char) : Bool :=
  isSpace c || c == '\n'

def skipSpace (t : Text) : Text :=
  t.dropWhile isSpace

/-- Whether the character may stand in no string of one line and in no comment: the controls other
than the tab. -/
def isControl (c : Char) : Bool :=
  (c.toNat < 0x20 && c != '\t') || c.toNat == 0x7F

def isRefused (lines : Bool) (c : Char) : Bool :=
  isControl c && !(lines && c == '\n')

def simpleEscape? : Char → Option Char
  | 'b' => some '\x08'
  | 't' => some '\t'
  | 'n' => some '\n'
  | 'f' => some '\x0c'
  | 'r' => some '\r'
  | '"' => some '"'
  | '\\' => some '\\'
  | _ => none

/-- The character that hexadecimal digits name, if there is one. -/
def charOfHex? (digits : Text) : Option Char :=
  let n := Text.natOfDigits 16 digits
  if digits.all Text.isHexDigit && (n < 0xD800 || (0xE000 ≤ n && n < 0x110000)) then
    some (Char.ofNat n)
  else none

/-- What follows a backslash at the end of a line in a string of several lines: the rest of the
text, without the space up to the next visible character.  `none` if the line does not end. -/
def afterContinuation? (t : Text) : Option Text :=
  match skipSpace t with
  | [] => some []
  | '\n' :: rest => some (rest.dropWhile isSpaceOrBreak)
  | _ => none

/-- What a backslash escapes at the beginning of a text. -/
inductive Escape where
  /-- A character, and the rest. -/
  | char (c : Char) (rest : Text)
  /-- Nothing: the line goes on in the rest. -/
  | goOn (rest : Text)
  | fault

/-- The escape whose text, behind the backslash, is at the beginning of `t`. -/
def readEscape (lines : Bool) : Text → Escape
  | [] => .fault
  | 'u' :: t =>
    match charOfHex? (t.take 4), decide (4 ≤ t.length) with
    | some c, true => .char c (t.drop 4)
    | _, _ => .fault
  | 'U' :: t =>
    match charOfHex? (t.take 8), decide (8 ≤ t.length) with
    | some c, true => .char c (t.drop 8)
    | _, _ => .fault
  | c :: t =>
    if lines && isSpaceOrBreak c then
      match afterContinuation? (c :: t) with
      | some rest => .goOn rest
      | none => .fault
    else
      match simpleEscape? c with
      | some x => .char x t
      | none => .fault

def consRead (c : Char) : Read Text → Read Text
  | .ok (t, rest) => .ok (c :: t, rest)
  | .error e => .error e

/-- The text of a string with escapes, up to and with its closing quotes.  `fuel` bounds the number
of its characters. -/
def escapedFrom (lines : Bool) : Nat → Text → Read Text
  | 0, t => fail t
  | _, [] => fail []
  | fuel + 1, c :: t =>
    if c = '"' then
      if lines then
        match t with
        | '"' :: '"' :: rest => .ok ([], rest)
        | _ => consRead c (escapedFrom lines fuel t)
      else .ok ([], t)
    else if c = '\\' then
      match readEscape lines t with
      | .char x rest => consRead x (escapedFrom lines fuel rest)
      | .goOn rest => escapedFrom lines fuel rest
      | .fault => fail t
    else if isRefused lines c then fail (c :: t)
    else consRead c (escapedFrom lines fuel t)

/-- The text of a string without escapes, up to and with its closing quotes. -/
def literalFrom (lines : Bool) : Text → Read Text
  | [] => fail []
  | '\'' :: t =>
    if lines then
      match t with
      | '\'' :: '\'' :: rest => .ok ([], rest)
      | _ => consRead '\'' (literalFrom lines t)
    else .ok ([], t)
  | c :: t => if isRefused lines c then fail (c :: t) else consRead c (literalFrom lines t)

/-- Adds up to two quotes that directly follow the closing quotes of a string of several lines:
they belong to its text. -/
def withClosingQuotes (quote : Char) (t rest : Text) : Text × Text :=
  match rest with
  | a :: b :: more =>
    if a = quote then
      if b = quote then (t ++ [quote, quote], more) else (t ++ [quote], b :: more)
    else (t, rest)
  | [a] => if a = quote then (t ++ [quote], []) else (t, rest)
  | [] => (t, [])

def dropBreak : Text → Text
  | '\n' :: t => t
  | t => t

/-- The string with escapes whose opening quote is in front of `t`. -/
def readEscaped (t : Text) : Read Text :=
  escapedFrom false t.length.succ t

/-- The string with escapes on several lines whose opening quotes are in front of `t`. -/
def readEscapedLines (t : Text) : Read Text :=
  (escapedFrom true t.length.succ (dropBreak t)).map fun (s, rest) => withClosingQuotes '"' s rest

/-- The string without escapes whose opening quote is in front of `t`. -/
def readLiteral (t : Text) : Read Text :=
  literalFrom false t

/-- The string without escapes on several lines whose opening quotes are in front of `t`. -/
def readLiteralLines (t : Text) : Read Text :=
  (literalFrom true (dropBreak t)).map fun (s, rest) => withClosingQuotes '\'' s rest

def isBareChar (c : Char) : Bool :=
  c.isAlphanum || c == '-' || c == '_'

def readKeyPart : Text → Read Text
  | '\'' :: t => readLiteral t
  | '"' :: t => readEscaped t
  | t =>
    match t.takeWhile isBareChar with
    | [] => fail t
    | word => .ok (word, t.dropWhile isBareChar)

/-- The key at the beginning of a text: its parts, and what follows them and the space behind them.
`fuel` bounds the number of parts. -/
def readKeyFrom : Nat → Text → Read (List Text)
  | 0, t => fail t
  | fuel + 1, t =>
    match readKeyPart t with
    | .error e => .error e
    | .ok (part, rest) =>
      match skipSpace rest with
      | '.' :: rest =>
        (readKeyFrom fuel (skipSpace rest)).map fun (parts, rest) => (part :: parts, rest)
      | rest => .ok ([part], rest)

def readKey (t : Text) : Read (List Text) :=
  readKeyFrom t.length.succ t

end LexicalPaths.Toml
