/-!
# Text

A text is a list of characters, so every length, offset and comparison in this library counts
code points.  The file collects the operations on texts that the other modules share: their
order, replacing single characters, splitting at a character, and joining.
-/

namespace LexicalPaths

/-- A text: its characters in order. -/
abbrev Text := List Char

namespace Text

/-- The order of two texts by the code points at their first difference; a proper beginning comes
before the longer text. -/
def order : Text → Text → Ordering
  | [], [] => .eq
  | [], _ :: _ => .lt
  | _ :: _, [] => .gt
  | a :: s, b :: t =>
    if a.toNat < b.toNat then .lt
    else if b.toNat < a.toNat then .gt
    else order s t

/-- Every occurrence of `old` is replaced by the text `new`. -/
def replaceChar (t : Text) (old : Char) (new : Text) : Text :=
  t.flatMap fun c => if c = old then new else [c]

/-- The pieces between the occurrences of `c`; there is always at least one. -/
def splitAt (c : Char) : Text → List Text
  | [] => [[]]
  | x :: t =>
    if x = c then [] :: splitAt c t
    else
      match splitAt c t with
      | [] => [[x]]
      | piece :: pieces => (x :: piece) :: pieces

/-- The parts before and after the first occurrence of `c`, or `none` without one. -/
def cut? (c : Char) : Text → Option (Text × Text)
  | [] => none
  | x :: t =>
    if x = c then some ([], t)
    else (cut? c t).map fun (before, after) => (x :: before, after)

/-- The part before the first occurrence of `c`, or all of the text without one. -/
def before (c : Char) (t : Text) : Text :=
  t.takeWhile (· != c)

/-- The texts in order with `separator` between any two neighbours. -/
def joinWith (separator : Text) : List Text → Text
  | [] => []
  | [t] => t
  | t :: u :: rest => t ++ separator ++ joinWith separator (u :: rest)

/-- The text between the offsets `start` and `stop`; empty when they are out of order. -/
def slice (t : Text) (start stop : Nat) : Text :=
  (t.take stop).drop start

/-- Whether the text contains the character `c`. -/
def holds (c : Char) (t : Text) : Bool :=
  t.any (· == c)

end Text

end LexicalPaths
