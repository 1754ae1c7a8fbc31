import LexicalPaths.Datum.Basic

/-!
# Data as paths

Only a text can be used as the text of a path.
-/

namespace LexicalPaths

/-- The attempt to use a value of the given kind as a path. -/
structure NoPath where
  kind : Text
deriving DecidableEq

def NoPath.message (e : NoPath) : Text :=
  "expected str, bytes or os.PathLike object, not ".toList ++ e.kind

def Datum.asPath : Datum → Except NoPath Text
  | .text t => .ok t
  | d => .error ⟨d.kind⟩

end LexicalPaths
