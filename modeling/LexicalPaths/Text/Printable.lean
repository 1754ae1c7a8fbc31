import LexicalPaths.Text.Basic
import LexicalPaths.Text.Printable.Table

/-!
# Printable characters

A character is printable when a quoted text may show it as itself.
-/

namespace LexicalPaths.Text

def isPrintable (c : Char) : Bool :=
  !Printable.hidden.any fun (first, last) => first ≤ c.toNat && c.toNat ≤ last

end LexicalPaths.Text
