import LexicalPaths.Path.Navigation

/-!
# Normalization

A normalized path has no `.` names, no empty names, and no `..` name that an earlier name or the
root takes back.
-/

namespace LexicalPaths.Path

open Separator

/-- Adds a name to the names kept so far, the latest first.  A `..` takes back the latest name; if
there is none, it is kept on a relative path and dropped below a root. -/
def keepName (absolute : Bool) (kept : List Text) (name : Text) : List Text :=
  if name = parentName then
    match kept with
    | [] => if absolute then [] else [name]
    | latest :: earlier =>
      if latest = parentName then (if absolute then kept else name :: kept) else earlier
  else if name = [] ∨ name = selfName then kept
  else name :: kept

/-- The names that remain of `names`, in order. -/
def remainingNames (absolute : Bool) (names : List Text) : List Text :=
  (names.foldl (keepName absolute) []).reverse

/-- The equivalent path without superfluous names.  Its text is built anew and its root is read
from that text. -/
def normalize (p : Path) : Path :=
  let names := remainingNames p.isAbsolute p.names ++ if p.hasTrailingSeparator then [[]] else []
  let root := match p.root? with
    | some root => unify [p.separator] root.raw
    | none => []
  let text := root ++ Text.joinWith [p.separator] names
  withRoot p.uri text (Root.length text) p.separator

end LexicalPaths.Path
