import LexicalPaths.Command.Verb

/-!
# Help

How the program and its commands are used, each on one line.
-/

namespace LexicalPaths.Command

/-- What may stand for an option: its spelling, and a placeholder for its value. -/
def Rule.usage (rule : Rule) : Text :=
  ['['] ++ rule.name ++ (if rule.takesValue then " VALUE".toList else []) ++ [']']

def Verb.usage (verb : Verb) : Text :=
  Text.joinWith [' ']
    (verb.program :: "[-h]".toList :: verb.rules.map Rule.usage ++ verb.arguments)

def programUsage : Text :=
  Text.joinWith [' ']
    [programName, "[-h]".toList, Text.joinWith ['|'] (Verb.all.map Verb.name), "...".toList]

/-- How the program, or the command that is called `program` in messages, is used. -/
def usage (program : Text) : Text :=
  match Verb.all.find? fun verb => verb.program == program with
  | some verb => verb.usage
  | none => programUsage

end LexicalPaths.Command
