import LexicalPaths.Host.Failure
import LexicalPaths.Text.Blank

/-!
# Configurations

A configuration has three settings: the filesystem of paths that name none, the log file, and the
indentation of manifests.  Settings come from documents, so their values can be of any kind; what
can be mended is mended, and the rest is kept for the code that uses it to refuse.
-/

namespace LexicalPaths

/-- The setting of the log file: a path, or a value that is none. -/
inductive LogFile where
  | path (p : HostPath)
  | value (d : Datum)

def LogFile.isSet : LogFile → Bool
  | .path _ => true
  | .value d => d.isSet

def LogFile.asPath : LogFile → Except NoPath HostPath
  | .path p => .ok p
  | .value d => d.asPath.map .ofText

/-- A configuration. -/
structure Config where
  /-- The URI of the filesystem of paths that name none; null for the local one. -/
  filesystemUri : Datum
  logFile : LogFile
  indent : Datum

namespace Config

def filesystemKey : Text := "default_filesystem_uri".toList

def logFileKey : Text := "log_file".toList

def indentKey : Text := "manifest_indent".toList

def isSetting (name : Text) : Bool :=
  name == filesystemKey || name == logFileKey || name == indentKey

/-- The indentation in place of one that cannot be used. -/
def usualIndent : Datum := .int 2

/-- The filesystem as a configuration keeps it: an unset value is null. -/
def keptFilesystem (d : Datum) : Datum :=
  if d.isSet then d else .null

/-- The log file as a configuration keeps it: a text is a path, and a blank text is null. -/
def keptLogFile : Datum → LogFile
  | .text t => if t.trim = [] then .value .null else .path (.ofText t)
  | d => .value d

/-- The indentation as a configuration keeps it: it must be a whole number, not negative. -/
def keptIndent : Datum → Datum
  | .int n => if n < 0 then usualIndent else .int n
  | .bool b => .bool b
  | _ => usualIndent

/-- The configuration with the settings of a table; other entries are left out. -/
def ofEntries (entries : List (Text × Datum)) : Config where
  filesystemUri := keptFilesystem ((Datum.entry? filesystemKey entries).getD .null)
  logFile := keptLogFile ((Datum.entry? logFileKey entries).getD .null)
  indent := keptIndent ((Datum.entry? indentKey entries).getD usualIndent)

def usual : Config := ofEntries []

/-- The configuration with the settings of a table; other entries are refused. -/
def ofSettings (entries : List (Text × Datum)) : Except Failure Config :=
  match entries.find? fun (name, _) => !isSetting name with
  | some (name, _) => .error (.unknownSetting name)
  | none => .ok (ofEntries entries)

/-- The configuration after its settings are set to the values of a table, as they are. -/
def change (config : Config) (entries : List (Text × Datum)) : Config where
  filesystemUri := (Datum.entry? filesystemKey entries).getD config.filesystemUri
  logFile := ((Datum.entry? logFileKey entries).map LogFile.value).getD config.logFile
  indent := (Datum.entry? indentKey entries).getD config.indent

def escapeChar (c : Char) : Text :=
  if c = '\\' then ['\\', '\\'] else if c = '"' then ['\\', '"'] else [c]

/-- A text as a string in a document: backslashes and quotes are escaped, and nothing else is. -/
def stringText (t : Text) : Text :=
  '"' :: t.flatMap escapeChar ++ ['"']

def valueText : Datum → Text
  | .bool true => "true".toList
  | .bool false => "false".toList
  | .text t => stringText t
  | d => d.display

/-- The lines of a setting; a null setting has none. -/
def settingLines (name : Text) : Datum → List Text
  | .null => []
  | d => [name ++ " = ".toList ++ valueText d]

def logFileDatum : LogFile → Datum
  | .path p => .text p.toText
  | .value d => d

def lines (config : Config) : List Text :=
  ["# lexpath Configuration File".toList, [],
    "# Filesystem URI used for paths given without one (optional)".toList,
    "# Example: default_filesystem_uri = \"zip:file:///tmp/app.zip!/\"".toList] ++
  settingLines filesystemKey config.filesystemUri ++
  [[], "# Log file path (optional)".toList,
    "# Example: log_file = \"/path/to/logs/lexpath.log\"".toList] ++
  settingLines logFileKey (logFileDatum config.logFile) ++
  [[], "# Indentation of written output.json manifests".toList,
    indentKey ++ " = ".toList ++ valueText config.indent, []]

def isWritable (config : Config) : Bool :=
  config.filesystemUri.isWritable && (logFileDatum config.logFile).isWritable &&
    config.indent.isWritable

def document (config : Config) : Text :=
  Text.joinWith ['\n'] config.lines

end Config

end LexicalPaths
