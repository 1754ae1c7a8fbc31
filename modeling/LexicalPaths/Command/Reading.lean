import LexicalPaths.Command.Word
import LexicalPaths.Datum.Basic

/-!
# Reading command lines

The words of a command line are given to the arguments and options of a grammar from left to right.
Words that nothing takes are collected, and arguments that no word is left for are missed.
-/

namespace LexicalPaths.Command

/-- What a command takes. -/
structure Grammar where
  program : Text
  arguments : List Text
  rules : List Rule

/-- What has been read of a command line. -/
structure Reading where
  /-- The arguments in order.  What was left out is not a text. -/
  arguments : List Datum
  flags : List Text
  values : List (Text × Datum)
  /-- The words that nothing takes. -/
  extras : List Text

/-- A reading on the way through a command line. -/
structure Draft extends Reading where
  missing : List Text
  justTaken : Bool

def Draft.start (arguments : List Text) : Draft where
  arguments := []
  flags := []
  values := []
  extras := []
  missing := arguments
  justTaken := false

def leftOut : Datum := .list []

/-- Takes a value for the next argument; without one, the word is left over. -/
def Draft.take (draft : Draft) (value : Datum) (word : Text) : Draft :=
  match draft.missing with
  | [] => { draft with extras := draft.extras ++ [word], justTaken := false }
  | _ :: missing =>
    { draft with
      arguments := draft.arguments ++ [value]
      missing := missing
      justTaken := true }

/-- Takes a word behind the divider.  A second divider there can leave an argument out. -/
def Draft.takeDivided (dialect : Dialect) (draft : Draft) (word : Text) : Draft :=
  let leaves := word = divider ∧ dialect.keepsDivider = false
  draft.take (if leaves then leftOut else .text word) word

/-- Takes the divider and the words behind it.  The divider belongs to the argument before it or
behind it, and is left over if there is neither. -/
def Draft.divide (dialect : Dialect) (draft : Draft) (words : List Text) : Draft :=
  if draft.justTaken then words.foldl (Draft.takeDivided dialect) draft
  else
    match draft.missing, words with
    | _ :: _, word :: words =>
      words.foldl (Draft.takeDivided dialect) (draft.take (.text word) word)
    | _, words => { draft with extras := draft.extras ++ divider :: words }

/-- The value that a text gives to an option; it must be among the choices.  A divider can leave the
value out. -/
def Rule.valueOf (dialect : Dialect) (rule : Rule) (t : Text) : Except UsageError Datum :=
  if t = divider ∧ dialect.keepsAttached = false then .ok leftOut
  else if rule.choices = [] ∨ t ∈ rule.choices then .ok (.text t)
  else .error (.invalidChoice rule.name t rule.choices)

def Draft.setValue (dialect : Dialect) (draft : Draft) (rule : Rule) (t : Text) :
    Except UsageError Draft :=
  (rule.valueOf dialect t).map fun value =>
    { draft with values := draft.values ++ [(rule.name, value)], justTaken := false }

def Draft.takeWords (dialect : Dialect) (program : Text) (draft : Draft) :
    List Word → Except Stop Draft
  | [] => .ok draft
  | .argument t :: rest => (draft.take (.text t) t).takeWords dialect program rest
  | .help none :: _ => .error (.help program)
  | .help (some refused) :: _ => .error (.misuse program (.valueIgnored helpTitle refused))
  | .unknown t :: rest =>
    { draft with extras := draft.extras ++ [t], justTaken := false : Draft }.takeWords dialect
      program rest
  | .option rule (some value) :: rest =>
    if rule.takesValue then
      match draft.setValue dialect rule value with
      | .ok draft => draft.takeWords dialect program rest
      | .error error => .error (.misuse program error)
    else .error (.misuse program (.valueIgnored rule.name value))
  | .option rule none :: rest =>
    if rule.takesValue then
      match rest with
      | .argument value :: rest =>
        match draft.setValue dialect rule value with
        | .ok draft => draft.takeWords dialect program rest
        | .error error => .error (.misuse program error)
      | _ => .error (.misuse program (.valueMissing rule.name))
    else
      { draft with flags := draft.flags ++ [rule.name], justTaken := false : Draft }.takeWords
        dialect program rest

def Grammar.read (dialect : Dialect) (grammar : Grammar) (words : List Text) :
    Except Stop Reading := do
  match Line.read dialect grammar.rules words with
  | .error error => .error (.misuse grammar.program error)
  | .ok line =>
    let draft ← (Draft.start grammar.arguments).takeWords dialect grammar.program line.words
    let draft := match line.divided? with
      | some words => draft.divide dialect words
      | none => draft
    if draft.missing = [] then .ok draft.toReading
    else .error (.misuse grammar.program (.required draft.missing))

namespace Reading

def argument (reading : Reading) (place : Nat) : Datum :=
  (reading.arguments[place]?).getD leftOut

def isSet (reading : Reading) (flag : Text) : Bool :=
  reading.flags.contains flag

def valuesOf (reading : Reading) (name : Text) : List Datum :=
  (reading.values.filter fun value => value.1 == name).map Prod.snd

def value? (reading : Reading) (name : Text) : Option Datum :=
  (reading.valuesOf name).getLast?

end Reading

end LexicalPaths.Command
