import LexicalPaths.Text.Basic

/-!
# Styled text

A text for a terminal together with the styles of its parts.  What is displayed is put together by
a library of styled texts, which is a parameter of the display.  In the library that is used here,
control characters that a terminal would act on do not enter the text; the part that held them keeps
its span, which may be empty.
-/

namespace LexicalPaths.Display

/-- The colours in use. -/
inductive Color where
  | blue
  | cyan
  | green
  | magenta
  | red
  | white
  | yellow
deriving DecidableEq

def Color.name : Color → Text
  | .blue => "blue".toList
  | .cyan => "cyan".toList
  | .green => "green".toList
  | .magenta => "magenta".toList
  | .red => "red".toList
  | .white => "white".toList
  | .yellow => "yellow".toList

/-- A way to print a part of a text. -/
structure Style where
  color : Color
  bold : Bool
deriving DecidableEq

def Style.name (style : Style) : Text :=
  (if style.bold then "bold ".toList else []) ++ style.color.name

def Style.ofColor (color : Color) : Style :=
  ⟨color, false⟩

/-- The part of a text from offset `start` to offset `stop`, in a style. -/
structure Span where
  start : Nat
  stop : Nat
  style : Style
deriving DecidableEq

/-- The span moved back by `offset`. -/
def Span.shift (offset : Nat) (span : Span) : Span :=
  { span with start := span.start + offset, stop := span.stop + offset }

/-- A library of styled texts, which have the type `σ`. -/
structure TextLibrary (σ : Type) where
  /-- The empty text; what is added to it is in the given style. -/
  empty : Option Style → σ
  ofText : Text → σ
  /-- Adds a piece, which can have a style of its own. -/
  append : σ → Text → Option Style → σ
  /-- Adds a styled text. -/
  appendStyled : σ → σ → σ
  /-- The text without its styles. -/
  plain : σ → Text
  /-- The parts that have a style of their own, in the order in which they were added. -/
  spans : σ → List Span
  /-- The characters that do not enter a text. -/
  strips : Char → Bool

/-- A text with spans, and a style for all of it. -/
structure Styled where
  text : Text
  spans : List Span
  style? : Option Style
deriving DecidableEq

/-- Whether a terminal acts on the character: bell, backspace, vertical tab, form feed, and
carriage return. -/
def isControl (c : Char) : Bool :=
  c.toNat == 7 || c.toNat == 8 || c.toNat == 11 || c.toNat == 12 || c.toNat == 13

def withoutControls (t : Text) : Text :=
  t.filter fun c => !isControl c

namespace Styled

/-- The span from one offset to another, if there is a style for it. -/
def spanIn (start stop : Nat) (style? : Option Style) : List Span :=
  (style?.map (Span.mk start stop)).toList

/-- Adds a piece of text; nothing is added for an empty piece. -/
def add (s : Styled) (piece : Text) (style? : Option Style) : Styled :=
  if piece = [] then s
  else
    let text := s.text ++ withoutControls piece
    { s with text := text, spans := s.spans ++ spanIn s.text.length text.length style? }

def addStyled (s other : Styled) : Styled :=
  let text := s.text ++ other.text
  let spans := spanIn s.text.length text.length other.style? ++
    other.spans.map (Span.shift s.text.length)
  { s with text := text, spans := s.spans ++ spans }

/-- The library of styled texts that are kept as their characters and spans. -/
def library : TextLibrary Styled where
  empty style? := ⟨[], [], style?⟩
  ofText t := ⟨withoutControls t, [], none⟩
  append := add
  appendStyled := addStyled
  plain s := s.text
  spans s := s.spans
  strips := isControl

end Styled

end LexicalPaths.Display
