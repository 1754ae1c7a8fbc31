import LexicalPaths.Command.Reading

/-!
# The commands

The name of a command and what it takes.  The first word of a command line that is not an option
must be the name of a command; the words behind it are the command's own.
-/

namespace LexicalPaths.Command

/-- What a command does. -/
inductive Verb where
  | inspect
  | normalize
  | convert
  | resolve
  | relativize
  | manifest
  | record
deriving DecidableEq

def programName : Text := "lexpath".toList

def filesystemOption : Text := "--filesystem".toList

def verboseFlag : Text := "--verbose".toList

/-- The flag that asks for errors only. -/
def quietFlag : Text := "--quiet".toList

def formOption : Text := "--form".toList

def normalizeFlag : Text := "--normalize".toList

def typeOption : Text := "--type".toList

def propertyOption : Text := "--property".toList

def flag (name : Text) : Rule := ⟨name, false, []⟩

def valued (name : Text) : Rule := ⟨name, true, []⟩

/-- The forms of a path. -/
inductive Form where
  | raw
  | portable
  | native
deriving DecidableEq

def Form.all : List Form := [.raw, .portable, .native]

def Form.name : Form → Text
  | .raw => "raw".toList
  | .portable => "portable".toList
  | .native => "native".toList

def Form.ofName? (name : Text) : Option Form :=
  Form.all.find? fun form => form.name == name

namespace Verb

def all : List Verb :=
  [.inspect, .normalize, .convert, .resolve, .relativize, .manifest, .record]

def name : Verb → Text
  | .inspect => "inspect".toList
  | .normalize => "normalize".toList
  | .convert => "convert".toList
  | .resolve => "resolve".toList
  | .relativize => "relativize".toList
  | .manifest => "manifest".toList
  | .record => "record".toList

def ofName? (name : Text) : Option Verb :=
  all.find? fun verb => verb.name == name

def program (verb : Verb) : Text :=
  programName ++ [' '] ++ verb.name

def arguments : Verb → List Text
  | .inspect | .normalize | .convert => ["PATH".toList]
  | .resolve | .relativize => ["BASE".toList, "OTHER".toList]
  | .manifest => ["FOLDER".toList]
  | .record => ["FOLDER".toList, "TYPE".toList, "PATH".toList]

def volumeRules : List Rule :=
  [flag verboseFlag, flag quietFlag]

def rules : Verb → List Rule
  | .inspect | .normalize => valued filesystemOption :: volumeRules
  | .convert =>
    valued filesystemOption :: volumeRules ++ [⟨formOption, true, Form.all.map Form.name⟩]
  | .resolve | .relativize => flag normalizeFlag :: valued filesystemOption :: volumeRules
  | .manifest => valued typeOption :: volumeRules
  | .record => valued propertyOption :: volumeRules

def grammar (verb : Verb) : Grammar :=
  ⟨verb.program, verb.arguments, verb.rules⟩

end Verb

def verbTitle : Text := "command".toList

def noVerb : Stop :=
  .misuse programName (.required [verbTitle])

/-- The command with the given name, which must exist. -/
def verbNamed (name : Text) : Except Stop Verb :=
  match Verb.ofName? name with
  | some verb => .ok verb
  | none =>
    .error (.misuse programName (.invalidChoice verbTitle name (Verb.all.map Verb.name)))

/-- What a command line begins with: options that the program does not know, and a command. -/
structure Opening where
  extras : List Text
  verb : Verb
  rest : List Text

/-- Reads the beginning of a command line, after options that the program does not know. -/
def Opening.read (dialect : Dialect) (extras : List Text) : List Text → Except Stop Opening
  | [] => .error noVerb
  | word :: rest =>
    if word = divider ∧ rest = [] then .error noVerb
    else if word = divider then (verbNamed word).map fun verb => ⟨extras, verb, rest⟩
    else
      match classify dialect [] word with
      | .error error => .error (.misuse programName error)
      | .ok (.help none) => .error (.help programName)
      | .ok (.help (some refused)) =>
        .error (.misuse programName (.valueIgnored helpTitle refused))
      | .ok (.argument name) => (verbNamed name).map fun verb => ⟨extras, verb, rest⟩
      | .ok _ => Opening.read dialect (extras ++ [word]) rest

end LexicalPaths.Command
