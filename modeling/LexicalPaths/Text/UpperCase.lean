import LexicalPaths.Text.Basic
import LexicalPaths.Text.UpperCase.Table

/-!
# Upper case

Upper-casing by the full Unicode rules, character by character.  The result may be longer than
the text: `ß` becomes `SS`.
-/

namespace LexicalPaths.Text

def upperChar (c : Char) : Text :=
  match UpperCase.expansions.lookup c.toNat with
  | some codes => codes.map Char.ofNat
  | none =>
    match UpperCase.runs.find? fun run => run.holds c.toNat with
    | some run => [Char.ofNat (c.toNat + run.shift).toNat]
    | none => [c]

def upper (t : Text) : Text :=
  t.flatMap upperChar

end LexicalPaths.Text
