import LexicalPaths.Path.Basic

/-!
# Manifests

A manifest lists the outputs of a build in order.  An output has a type, a path, and properties.
-/

namespace LexicalPaths

/-- An output of a build. -/
structure Output where
  type : Text
  path : Path
  properties : List (Text × Text)

abbrev Manifest := List Output

namespace Manifest

/-- The outputs of the given type, in order. -/
def ofType (outputs : Manifest) (type : Text) : Manifest :=
  outputs.filter fun output => output.type == type

def firstOfType? (outputs : Manifest) (type : Text) : Option Output :=
  outputs.find? fun output => output.type == type

end Manifest

end LexicalPaths
