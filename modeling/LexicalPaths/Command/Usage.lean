import LexicalPaths.Text.Quoted

/-!
# Misused command lines

Why a command line cannot be carried out as it stands.
-/

namespace LexicalPaths.Command

/-- What is wrong with a command line. -/
inductive UsageError where
  | required (names : List Text)
  | ambiguous (word : Text) (options : List Text)
  | valueMissing (option : Text)
  /-- An option has a value that it does not take. -/
  | valueIgnored (option value : Text)
  /-- A value is not among those to choose from. -/
  | invalidChoice (argument value : Text) (choices : List Text)
  | unrecognized (words : List Text)
  /-- A property is not a key with a value. -/
  | invalidProperty (property : Text)
deriving DecidableEq

def commaList (texts : List Text) : Text :=
  Text.joinWith [',', ' '] texts

def about (argument fault : Text) : Text :=
  "argument ".toList ++ argument ++ [':', ' '] ++ fault

def UsageError.message : UsageError → Text
  | .required names => "the following arguments are required: ".toList ++ commaList names
  | .ambiguous word options =>
    "ambiguous option: ".toList ++ word ++ " could match ".toList ++ commaList options
  | .valueMissing option => about option "expected one argument".toList
  | .valueIgnored option value =>
    about option ("ignored explicit argument ".toList ++ Text.quoted value)
  | .invalidChoice argument value choices =>
    about argument ("invalid choice: ".toList ++ Text.quoted value ++ " (choose from ".toList ++
      commaList (choices.map Text.quoted) ++ [')'])
  | .unrecognized words => "unrecognized arguments: ".toList ++ Text.joinWith [' '] words
  | .invalidProperty property =>
    "Invalid property '".toList ++ property ++ "', expected KEY=VALUE".toList

/-- Why a command line asks for nothing that could be carried out. -/
inductive Stop where
  | help (program : Text)
  | misuse (program : Text) (error : UsageError)
deriving DecidableEq

end LexicalPaths.Command
