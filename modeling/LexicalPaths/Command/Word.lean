import LexicalPaths.Command.Usage
import LexicalPaths.Host.Machine
import LexicalPaths.Text.DecimalDigit

/-!
# Words of a command line

A word that starts with a hyphen is an option, unless it is a negative number or holds a space.
Options can be shortened as long as they stay unambiguous, and can have their value attached with an
equals sign.  After a divider, a word of two hyphens, every word is an argument.
-/

namespace LexicalPaths.Command

/-- An option. -/
structure Rule where
  /-- The spelling of the option, with its two hyphens. -/
  name : Text
  takesValue : Bool
  /-- The values to choose from; an empty list allows all. -/
  choices : List Text

/-- A word of a command line. -/
inductive Word where
  | argument (t : Text)
  /-- Asks for help, unless a text is attached that help refuses. -/
  | help (refused? : Option Text)
  /-- An option, and the value that is attached to it. -/
  | option (rule : Rule) (value? : Option Text)
  | unknown (t : Text)

def divider : Text := ['-', '-']

def shortHelp : Text := ['-', 'h']

def longHelp : Text := "--help".toList

def helpTitle : Text := shortHelp ++ ['/'] ++ longHelp

/-- Whether the text consists of decimal digits, at least one. -/
def isNumeral (t : Text) : Bool :=
  !t.isEmpty && t.all Text.isDecimalDigit

/-- Whether the text is a whole number or a decimal fraction, without a sign. -/
def isUnsigned (t : Text) : Bool :=
  isNumeral t ||
    match t.dropWhile Text.isDecimalDigit with
    | '.' :: fraction => isNumeral fraction
    | _ => false

/-- Whether the text behind a hyphen makes a negative number; a line end may follow it. -/
def isNegated (t : Text) : Bool :=
  isUnsigned t || (t.getLast? == some '\n' && isUnsigned t.dropLast)

/-- The word `word` that no rule fits; `t` is its text behind the first hyphen. -/
def plainWord (word t : Text) : Word :=
  if isNegated t || word.any (· == ' ') then .argument word else .unknown word

/-- What of the text `t` help refuses when it is attached to its short option.  Help can be asked
for repeatedly in one word, by the letter of the option alone. -/
def refusedLetters (t : Text) : Option Text :=
  match t.dropWhile (· == 'h') with
  | [] => none
  | rest => some rest

/-- What of the text `t` help refuses when it is attached to its short option and other letters
count as options of their own. -/
def refusedBehindLetters (t : Text) : Option Text :=
  match t.dropWhile (· == 'h') with
  | '=' :: value => some value
  | '-' :: rest => some ('-' :: rest)
  | _ => none

def refusedByHelp (dialect : Dialect) (t : Text) : Option Text :=
  if dialect.splitsLetters then refusedBehindLetters t
  else
    match t with
    | ['='] => some []
    | '=' :: value => refusedLetters value
    | t => refusedLetters t

/-- The part of an option before its equals sign, and the value behind it. -/
def splitValue (word : Text) : Text × Option Text :=
  match Text.cut? '=' word with
  | some (name, value) => (name, some value)
  | none => (word, none)

/-- The option that a name means, exactly or shortened. -/
def named (rules : List Rule) (word name : Text) (value? : Option Text) : Except UsageError Word :=
  let help := (longHelp, Word.help value?)
  let known := help :: rules.map fun rule => (rule.name, .option rule value?)
  match known.lookup name with
  | some found => .ok found
  | none =>
    match known.filter fun (spelling, _) => name.isPrefixOf spelling with
    | [] => .ok (plainWord word (word.drop 1))
    | [(_, found)] => .ok found
    | several => .error (.ambiguous word (several.map Prod.fst))

def classify (dialect : Dialect) (rules : List Rule) (word : Text) : Except UsageError Word :=
  match word with
  | '-' :: '-' :: _ =>
    let (name, value?) := splitValue word
    named rules word name value?
  | '-' :: 'h' :: t => .ok (.help (refusedByHelp dialect t))
  | '-' :: c :: t => .ok (plainWord word (c :: t))
  | _ => .ok (.argument word)

/-- The words before the divider, and the arguments behind it if there is one. -/
structure Line where
  words : List Word
  divided? : Option (List Text)

def Line.read (dialect : Dialect) (rules : List Rule) : List Text → Except UsageError Line
  | [] => .ok ⟨[], none⟩
  | word :: rest =>
    if word = divider then .ok ⟨[], some rest⟩
    else do
      let first ← classify dialect rules word
      let line ← Line.read dialect rules rest
      return { line with words := first :: line.words }

end LexicalPaths.Command
