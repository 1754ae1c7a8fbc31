import LexicalPaths.Display.Styled
import LexicalPaths.Path.Relativize

/-!
# Paths on the terminal

A path is shown relative to a base folder if it lies below it, and cut down to its last names.
Separators and the ellipsis stand out in colour.
-/

namespace LexicalPaths.Display

def shownNames : Nat := 4

def ellipsis : Char := '…'

/-- The form of `p` that is shown: the way down from the base if there is one. -/
def shownForm (p : Path) (base? : Option Path) : Path :=
  match base? with
  | some base => (base.below? p).getD p
  | none => p

/-- The root of a path, an ellipsis if it has many names, and its last names. -/
def shortText (p : Path) : Text :=
  let names := p.names
  let root := (p.root?.map Path.raw).getD []
  let cut := if shownNames < names.length then [ellipsis, p.separator] else []
  root ++ cut ++ Text.joinWith [p.separator] (names.drop (names.length - shownNames))

def pathColor (c : Char) : Color :=
  if c = '/' ∨ c = '\\' ∨ c = ellipsis then .magenta else .white

/-- The text of a path, with a style for each character. -/
def colored {σ : Type} (library : TextLibrary σ) (t : Text) : σ :=
  t.foldl (fun s c => library.append s [c] (some (.ofColor (pathColor c)))) (library.empty none)

/-- The base folder with the given text; an empty text names none. -/
def baseFolder (base? : Option Text) : Option Path :=
  base?.bind fun t => if t = [] then none else some (.parse Path.localUri t)

/-- The path with the text `t` as the terminal shows it to who works in the folder `base?`. -/
def pathText {σ : Type} (library : TextLibrary σ) (t : Text) (base? : Option Text) : σ :=
  let shown := shortText (shownForm (.parse Path.localUri t) (baseFolder base?))
  colored library (if shown = [] then Path.selfName else shown)

end LexicalPaths.Display
