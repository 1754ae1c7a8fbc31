import LexicalPaths.Archive.Fault
import LexicalPaths.Archive.Number

/-!
# The end of an archive

An archive ends with a record that says how long its directory is, and a comment behind the record.
The directory comes directly before the record.  A large archive has a larger record in front of
that one, and a locator between the two.
-/

namespace LexicalPaths.Archive

def endMark : List UInt8 := [0x50, 0x4B, 0x05, 0x06]

/-- The size of the record at the end, without a comment. -/
def endSize : Nat := 22

def maxComment : Nat := 65535

def locatorMark : List UInt8 := [0x50, 0x4B, 0x06, 0x07]

def locatorSize : Nat := 20

def largeEndMark : List UInt8 := [0x50, 0x4B, 0x06, 0x06]

def largeEndSize : Nat := 56

def isMarkedAt (bytes : List UInt8) (offset : Nat) (mark : List UInt8) : Bool :=
  mark.isPrefixOf (bytes.drop offset)

/-- Whether the last bytes are a record at the end that has no comment. -/
def endsPlainly (bytes : List UInt8) : Bool :=
  endSize ≤ bytes.length && isMarkedAt bytes (bytes.length - endSize) endMark &&
    number bytes (bytes.length - 2) 2 == 0

/-- The bytes from the last occurrence of the end mark on, if there is one. -/
def lastRecord? : List UInt8 → Option (List UInt8)
  | [] => none
  | b :: rest =>
    match lastRecord? rest with
    | some found => some found
    | none => if endMark.isPrefixOf (b :: rest) then some (b :: rest) else none

/-- The offset of the record at the end, behind which a comment may follow. -/
def ending? (bytes : List UInt8) : Option Nat :=
  if endsPlainly bytes then some (bytes.length - endSize)
  else
    match lastRecord? (bytes.drop (bytes.length - (maxComment + 1 + endSize))) with
    | some record =>
      if endSize ≤ record.length then some (bytes.length - record.length) else none
    | none => none

/-- Where a directory ends, and how long it is. -/
structure Extent where
  stop : Nat
  size : Nat
deriving DecidableEq

/-- The extent that the record at offset `place` gives. -/
def Extent.plain (bytes : List UInt8) (place : Nat) : Extent :=
  ⟨place, number bytes (place + 12) 4⟩

/-- The extent that the larger record at offset `place` gives. -/
def Extent.large (bytes : List UInt8) (place : Nat) : Extent :=
  ⟨place, number bytes (place + 40) 8⟩

/-- The extent of the directory, when the record at the end lies at offset `place`.  A larger record
counts if a locator says that there is one. -/
def Extent.at (bytes : List UInt8) (place : Nat) : Except Fault Extent :=
  if place < locatorSize || !isMarkedAt bytes (place - locatorSize) locatorMark then
    .ok (.plain bytes place)
  else if number bytes (place - 16) 4 ≠ 0 ∨ 1 < number bytes (place - 4) 4 then
    .error .severalDisks
  else if place < locatorSize + largeEndSize then .error .ending
  else
    let large := place - (locatorSize + largeEndSize)
    if isMarkedAt bytes large largeEndMark then .ok (.large bytes large)
    else .ok (.plain bytes place)

/-- The directory of an archive, entry by entry. -/
def directory (bytes : List UInt8) : Except Fault (List UInt8) :=
  match ending? bytes with
  | none => .error .ending
  | some place => do
    let extent ← Extent.at bytes place
    if extent.stop < extent.size then throw .directoryPlace
    return (bytes.drop (extent.stop - extent.size)).take extent.size

end LexicalPaths.Archive
