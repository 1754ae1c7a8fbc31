import LexicalPaths.Text.Digits

/-!
# Internet addresses

Which texts are addresses of version 4 or version 6.  A version 6 address may end in a version 4
address and may name a zone after a percent sign.
-/

namespace LexicalPaths.Uri

/-- One of the four numbers of a version 4 address: at most 255, without a leading zero. -/
def isOctet (t : Text) : Bool :=
  !t.isEmpty && t.all Char.isDigit && t.length ≤ 3 && (t == ['0'] || t.head? != some '0') &&
    Text.natOfDigits 10 t ≤ 255

/-- Whether the text is an address of version 4. -/
def isVersion4 (t : Text) : Bool :=
  let octets := t.splitAt '.'
  octets.length == 4 && octets.all isOctet

/-- One of the eight groups of a version 6 address. -/
def isGroup (t : Text) : Bool :=
  !t.isEmpty && t.length ≤ 4 && t.all Text.isHexDigit

/-- The groups of a version 6 address, a closing version 4 address counting for two, or `none` if
that address is not one. -/
def groups? (t : Text) : Option (List Text) :=
  let pieces := t.splitAt ':'
  if pieces.length < 3 then none
  else
    match pieces.getLast? with
    | some last =>
      if !last.holds '.' then some pieces
      else if isVersion4 last then some (pieces.dropLast ++ [['0'], ['0']])
      else none
    | none => none

/-- The number of empty groups strictly between the first and the last. -/
def innerGaps (groups : List Text) : Nat :=
  (groups.dropLast.drop 1).countP List.isEmpty

/-- Whether the groups around the one gap `::` are in order: together at most seven, and empty at
an end only if the gap lies there. -/
def areAroundGap (groups : List Text) : Bool :=
  let gap := 1 + ((groups.drop 1).takeWhile fun g => !g.isEmpty).length
  let front := groups.take gap
  let back := groups.drop (gap + 1)
  let front := if front == [[]] then [] else front
  let back := if back == [[]] then [] else back
  front.all isGroup && back.all isGroup && front.length + back.length < 8

/-- Whether the text is an address of version 6 without a zone. -/
def isVersion6Plain (t : Text) : Bool :=
  match groups? t with
  | none => false
  | some groups =>
    if 9 < groups.length then false
    else if innerGaps groups = 0 then groups.length == 8 && groups.all isGroup
    else innerGaps groups == 1 && areAroundGap groups

/-- Whether the text is an address of version 6. -/
def isVersion6 (t : Text) : Bool :=
  match t.cut? '%' with
  | none => isVersion6Plain t
  | some (address, zone) => !zone.isEmpty && !zone.holds '%' && isVersion6Plain address

end LexicalPaths.Uri
