import LexicalPaths.Path.Navigation

/-!
# Relativization

The path that leads from a base to a target: up from the base to the last folder that both share,
and down to the target.  Between different roots no such path exists, and the target is kept with
its own root.
-/

namespace LexicalPaths.Path

open Separator

/-- The key of an optional root; no root has the empty key. -/
def rootKey (p : Path) : Text :=
  match p.root? with
  | some root => Root.key root.raw
  | none => []

/-- The names that are not empty. -/
def properNames (p : Path) : List Text :=
  p.names.filter fun name => !name.isEmpty

def commonNames : List Text → List Text → Nat
  | a :: as, b :: bs => if a = b then commonNames as bs + 1 else 0
  | _, _ => 0

/-- The root text that a target keeps when it is seen from `p` across different roots: the drive
is left out if it is the drive of `p`. -/
def keptRoot (p other : Path) : Text :=
  let drive := Root.afterDrive (p.text.take p.rootEnd)
  if 0 < drive ∧ drive ≤ other.rootEnd ∧
      Text.upper (other.text.take drive) = Text.upper (p.text.take drive) then
    other.text.slice drive other.rootEnd
  else other.rootText

/-- The path that leads from `p` to `other`. -/
def relativize (p other : Path) : Path :=
  if p.isEmpty then other
  else if p.isAbsolute && other.isEmpty then other
  else if p.rootKey ≠ other.rootKey then
    let root := p.keptRoot other
    let text := root ++ other.namesText
    withRoot p.uri text root.length (detect text)
  else
    let mine := p.properNames
    let theirs := other.properNames
    let common := commonNames mine theirs
    let names := List.replicate (mine.length - common) parentName ++ theirs.drop common
    let trail := if other.hasTrailingSeparator && !names.isEmpty then [other.separator] else []
    let text := Text.joinWith [other.separator] names ++ trail
    withRoot p.uri text 0 other.separator

/-- The path that leads from `base` down to `p`, if `p` lies below `base`. -/
def below? (base p : Path) : Option Path :=
  let relative := base.relativize p
  match relative.root?, relative.names with
  | none, name :: _ => if name = parentName then none else some relative
  | _, _ => none

end LexicalPaths.Path
