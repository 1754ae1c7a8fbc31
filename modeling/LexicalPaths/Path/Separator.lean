import LexicalPaths.Text.Basic

/-!
# Separators

Two characters separate the names of a path, `/` and `\`.  A text may mix them; the one that
decides its convention is the first to appear, where a drive colon counts for `\`.
-/

namespace LexicalPaths.Separator

def portable : Char := '/'

def backslash : Char := '\\'

def native : Char := portable

def driveColon : Char := ':'

/-- Whether `c` separates names, in either convention. -/
def isSeparator (c : Char) : Bool :=
  c == portable || c == backslash

/-- The text with every `/` replaced by `separator`, and then every `\` of the outcome. -/
def unify (separator : Text) (t : Text) : Text :=
  (t.replaceChar portable separator).replaceChar backslash separator

/-- The convention that a text uses: `\` if a backslash or a drive colon comes before the first
`/`, and `/` otherwise. -/
def detect : Text → Char
  | [] => portable
  | c :: t =>
    if c = portable then portable
    else if c = backslash ∨ c = driveColon then backslash
    else detect t

/-- The offset of the first separator, or the length of the text without one. -/
def firstIndex (t : Text) : Nat :=
  (t.takeWhile fun c => !isSeparator c).length

/-- An offset that a text does not reach. -/
structure OffsetError where
  offset : Int
deriving DecidableEq

def OffsetError.message (_ : OffsetError) : Text :=
  "string index out of range".toList

/-- The offset of the first separator at or after `start`, or the length of the text.  Negative
offsets count from the end; behind the last of them the search goes on at the beginning. -/
def firstIndexFrom (t : Text) (start : Int) : Except OffsetError Int :=
  if 0 ≤ start then
    let start := min start.toNat t.length
    .ok (start + firstIndex (t.drop start))
  else if t.length < start.natAbs then .error ⟨start⟩
  else
    let tail := t.drop (t.length - start.natAbs)
    .ok (if firstIndex tail < tail.length then start + firstIndex tail else firstIndex t)

end LexicalPaths.Separator
