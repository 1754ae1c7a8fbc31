import LexicalPaths.Host.Locate
import LexicalPaths.Text.Blank

/-!
# Where the program keeps its files

The configuration and the log file lie in the folder of the project that the program belongs to,
unless the environment names another place.
-/

namespace LexicalPaths

def projectMarkers : List Text :=
  ["pyproject.toml".toList, ".git".toList]

/-- The path, and the paths above it up to the root or to the working folder. -/
def HostPath.upwards (p : HostPath) : List HostPath :=
  (List.range (p.names.length + 1)).reverse.map fun count => { p with names := p.names.take count }

namespace Act

/-- Whether a folder holds one of the given entries; the entries are looked up in order. -/
def holdsAny (folder : HostPath) : List Text → Act Bool
  | [] => return false
  | name :: names => do
    if ← holds (folder.child name) then return true
    else holdsAny folder names

/-- The first of the folders that is the folder of a project, or the working folder. -/
def projectAmong : List HostPath → Act HostPath
  | [] => absolute ⟨0, []⟩
  | folder :: folders => do
    if ← holdsAny folder projectMarkers then return folder
    else projectAmong folders

/-- The folder of the project that the file `start` belongs to. -/
def projectRoot (start : HostPath) : Act HostPath :=
  projectAmong start.parent.upwards

/-- The path that the environment names, if it names one. -/
def namedPath? (environment : List (Text × Text)) (name? : Option Text) : Option Text :=
  match name? with
  | none | some [] => none
  | some name =>
    match (environment.lookup name).map Text.trim with
    | none | some [] => none
    | some named => some named

/-- The place of a file: the explicit one, or else the one that the environment names, or else the
usual one. -/
def overridablePath (explicit? : Option Text) (environment : List (Text × Text))
    (name? : Option Text) (usual : Act HostPath) : Act HostPath := do
  match explicit?, namedPath? environment name? with
  | some explicit, _ => locate (.ofText explicit)
  | none, some named => locate (.ofText named)
  | none, none => locate (← usual)

def configVariable : Text := "LEXPATH_CONFIG".toList

def projectConfig : Act HostPath := do
  let root ← projectRoot (← get).program
  return (root.child "config".toList).child "config.toml".toList

def defaultConfigPath (environment : List (Text × Text)) : Act HostPath :=
  overridablePath none environment (some configVariable) projectConfig

def defaultLogFile : Act HostPath := do
  let root ← projectRoot (← get).program
  let folder ← resolve (root.child "logs".toList)
  resolve (folder.child "lexpath.log".toList)

end Act

end LexicalPaths
