import LexicalPaths.Path.Navigation

/-!
# Resolution

Resolving a path against a base answers where one ends up who stands at the base and follows the
path: a relative path is appended, and an absolute one replaces the base.
-/

namespace LexicalPaths.Path

open Separator

/-- Two paths agree on filesystem, root and names. -/
def same (p q : Path) : Bool :=
  p.uri == q.uri && p.rootText == q.rootText && p.namesText == q.namesText

/-- Whether a path with the root `other?` continues one with the root `root?`: both have none, or
their drive names agree up to case. -/
def compatibleRoots : Option Path → Option Path → Bool
  | none, none => true
  | some root, some other =>
    root.same other || Root.driveName root.raw == Root.driveName other.raw
  | _, _ => false

/-- The place that `other` leads to from `p`.  An absolute path replaces `p`, but one with a single
separator as its root keeps the drive of `p`; a relative path is appended unless it names another
drive. -/
def resolve (p other : Path) : Path :=
  let drive := Root.afterDrive (p.text.take p.rootEnd)
  if p.isEmpty then other
  else if other.isAbsolute then
    if other.rootEnd = 1 ∧ 0 < drive then
      let text := p.text.take drive ++ unify [p.separator] other.raw
      withRoot p.uri text (drive + 1) (detect text)
    else other
  else if other.rootEnd ≠ 0 ∧ compatibleRoots p.root? other.root? = false then other
  else if other.start = other.stop then p
  else
    let gap := if decide (p.start < p.stop) && !p.separatorBefore p.stop then [p.separator] else []
    let text := p.raw ++ gap ++ unify [p.separator] other.namesText
    { p with text := text, start := p.rootEnd, stop := text.length }

end LexicalPaths.Path
