import LexicalPaths.Json.Error
import LexicalPaths.Text.Basic

/-!
# Faults of TOML documents

Why a text is no TOML document.  A fault is placed by how much of the document is left, which a
reader knows; its message names the line.
-/

namespace LexicalPaths.Toml

/-- Why a text is no document. -/
inductive Error where
  /-- The document is not well formed where the given number of characters is left. -/
  | malformed (left : Nat)
  | tooManyDigits (digits : Nat)
deriving DecidableEq

/-- The outcome of reading something at the beginning of a text: a value and the rest. -/
abbrev Read (α : Type) := Except Error (α × Text)

/-- The fault that lies at the beginning of `rest`. -/
def fail {α : Type} (rest : Text) : Except Error α :=
  .error (.malformed rest.length)

def malformedLabel : Text := "Malformed TOML".toList

def Error.message (document : Text) : Error → Text
  | .malformed left =>
    let line := (document.take (document.length - left)).count '\n' + 1
    malformedLabel ++ " (line ".toList ++ (toString line).toList ++ [')']
  | .tooManyDigits digits => Json.tooManyDigitsMessage digits

end LexicalPaths.Toml
