import LexicalPaths.Display.Report
import LexicalPaths.Host.Links

/-!
# The machine

What the machine decides for a program that runs on it: where symbolic links lead, what the user may
do, whether what is printed gets out, and how much there is room for.  None of it changes while the
program runs.
-/

namespace LexicalPaths

/-- What can be done at a path. -/
inductive Access where
  | look
  | read
  | write
  | make
deriving DecidableEq

/-- Why something cannot be printed. -/
inductive PrintFault where
  /-- The output refuses what is written to it. -/
  | refused (reason : Text)
  /-- The encoding of the output lacks a character. -/
  | unencodable (reason : Text)
  /-- Nobody reads the output any more, which ends the program. -/
  | closed
deriving DecidableEq

/-- When a log file is put aside, and how many of them are kept. -/
structure Rotation where
  /-- The length, in bytes, that a log file does not reach. -/
  limit : Nat
  backups : Nat

/-- How command lines are read, where one version of the library that reads them differs from
another. -/
structure Dialect where
  /-- Whether a divider that is attached to an option is its value, and does not leave it out. -/
  keepsAttached : Bool
  /-- Whether a second divider is an argument, and does not leave one out. -/
  keepsDivider : Bool
  /-- Whether help is given when an unknown letter is attached to its short option. -/
  splitsLetters : Bool
deriving DecidableEq

/-- The machine that a program runs on. -/
structure Machine where
  links : Links
  /-- Why the user may not do something at a path, or `none` if the user may. -/
  denies : Access → HostPath → Option Text
  /-- Why something cannot be printed behind what was printed before, or `none` if it can. -/
  prints : List Display.Shown → Display.Shown → Option PrintFault
  /-- The home folder of the account that runs the program. -/
  account? : Option Text
  /-- How many log files are kept, unless a log file is never put aside. -/
  rotation? : Option Rotation
  /-- The length from which on a text does not fit into memory. -/
  memory : Nat
  /-- How many lists and tables may lie in each other in a document that is read. -/
  nesting : Nat
  dialect : Dialect

namespace Machine

/-- A machine without links, which denies nothing and prints everything. -/
def plain : Machine where
  links := []
  denies _ _ := none
  prints _ _ := none
  account? := none
  rotation? := none
  memory := 0x10000000000
  nesting := 900
  dialect := ⟨false, false, false⟩

end Machine

end LexicalPaths
