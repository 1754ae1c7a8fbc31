import LexicalPaths.Command.Run

/-!
# What a command line reaches

A command line reads and writes few files: the configuration, the log file, the manifest of a
folder, and the entries that mark the folder of a project.  This module says which files they are,
and what has changed after a command.
-/

namespace LexicalPaths.Command

/-- The paths that `act` finds, or none if it fails. -/
def foundBy (act : Act (List HostPath)) : Act (List HostPath) :=
  tryCatch act fun _ => return []

def markersReached : Act (List HostPath) := do
  let folders := (← get).program.parent.upwards
  return folders.flatMap fun folder => projectMarkers.map folder.child

def configReached : Act (List HostPath) :=
  foundBy do return [← Act.defaultConfigPath (← get).environment]

/-- The log file, as far as the configuration is known. -/
def logReached : Act (List HostPath) :=
  foundBy do
    let logFile ← logFileFor (← Config.load)
    return [← Act.locate (← Act.lift .noPath logFile.asPath)]

def manifestReached (folder : Datum) : Act (List HostPath) :=
  foundBy do return [← Act.resolve (Manifest.file (← folderNamed folder))]

/-- The manifest that a command line is about, if it is about one. -/
def taskReached (words : List Text) : Act (List HostPath) := do
  match Request.read (← get).machine.dialect words with
  | .ok request =>
    match request.task with
    | .manifest folder _ | .record folder .. => manifestReached folder
    | _ => return []
  | .error _ => return []

/-- The files that a command line reaches.  The log file is known only after the configuration file
has been looked at. -/
def reached (words : List Text) : Act (List HostPath) := do
  return (← markersReached) ++ (← configReached) ++ (← logReached) ++ (← taskReached words)

/-- The entries that are new or different in `after`, folders before what they hold. -/
def changes (before after : Files) : Files :=
  (after.filter fun (place, entry) => before.lookup place != some entry).mergeSort
    fun a b => a.1.length ≤ b.1.length

end LexicalPaths.Command
