import LexicalPaths.Path.Separator
import LexicalPaths.Text.UpperCase

/-!
# Roots

The root of a path text is its beginning: nothing, a run of separators, or a drive name with its
colon and the separators behind it.  The names follow.
-/

namespace LexicalPaths.Root

open Separator

def separatorRun (t : Text) : Nat :=
  (t.takeWhile isSeparator).length

/-- The offset of the first drive colon, or the length of the text without one. -/
def firstColon (t : Text) : Nat :=
  (t.takeWhile (· != driveColon)).length

/-- The length of the root of a path text.  A colon that comes before every separator ends a
drive name. -/
def length (t : Text) : Nat :=
  if firstColon t < firstIndex t then
    firstColon t + 1 + separatorRun (t.drop (firstColon t + 1))
  else separatorRun t

/-- The offset behind the last drive colon, or 0 without one. -/
def afterDrive (t : Text) : Nat :=
  t.length - (t.reverse.takeWhile (· != driveColon)).length

/-- The offset behind the last drive colon before the offset `stop`, or 0 without one.  A negative
`stop` counts from the end. -/
def driveEnd (t : Text) (stop : Int) : Nat :=
  afterDrive (t.take (if stop < 0 then stop + t.length else stop).toNat)

/-- The upper-case drive name of a root, or the upper case of the whole root if it names no
drive. -/
def driveName (root : Text) : Text :=
  (root.before driveColon).upper

/-- The form in which roots are compared: portable separators and an upper-case drive. -/
def key (root : Text) : Text :=
  let t := unify [portable] root
  Text.upper (t.take (afterDrive t)) ++ t.drop (afterDrive t)

end LexicalPaths.Root
