import LexicalPaths.Config.Location
import LexicalPaths.Toml.Document

/-!
# Keeping configurations

The configuration is loaded once and then remembered.  If there is no configuration file, one with
the usual settings is made.
-/

namespace LexicalPaths.Config

def reportUnsaved (failure : Failure) : Act Unit :=
  if failure.isSystem then
    Act.log .error ("Failed to save configuration: ".toList ++ failure.message)
  else pure ()

/-- Writes a configuration to a file, by default to the configuration file.  The result is the
file. -/
def save (config : Config) (target? : Option HostPath) : Act HostPath := do
  let target ←
    match target? with
    | some target => pure target
    | none => Act.defaultConfigPath (← get).environment
  Act.reporting reportUnsaved do
    Act.ensureFolders target.parent
    if !config.isWritable then throw .longInteger
    Act.writeText target config.document
    Act.log .info ("Configuration saved to ".toList ++ target.toText)
  return target

/-- The names of a table that are no settings, in order. -/
def unknownSettings (entries : List (Text × Datum)) : List Text :=
  let names := (entries.map Prod.fst).filter fun name => !isSetting name
  names.mergeSort fun a b => Text.order a b != .gt

def read (file : HostPath) : Act Config := do
  let document ← Act.lift .encoding (Utf8.decode (← Act.readBytes file))
  let entries ← Act.lift (.toml document) (Toml.read document)
  match unknownSettings entries with
  | [] => pure ()
  | names =>
    Act.log .warning
      ("Ignoring unknown configuration keys: ".toList ++ Text.joinWith [',', ' '] names)
  Act.log .debug ("Configuration loaded from ".toList ++ file.toText)
  return ofEntries entries

/-- The configuration in a file, which is made if it is missing. -/
def readOrCreate (file : HostPath) : Act Config := do
  if ← Act.holds file then read file
  else
    let _ ← save usual (some file)
    Act.log .info ("Created default configuration at ".toList ++ file.toText)
    return usual

def reportUnloaded (failure : Failure) : Act Unit :=
  Act.log .error ("Failed to load configuration: ".toList ++ failure.message)

def load : Act Config := do
  match (← get).config? with
  | some config => return config
  | none =>
    let file ← Act.defaultConfigPath (← get).environment
    let config ← Act.reporting reportUnloaded (readOrCreate file)
    modify fun host => { host with config? := some config }
    return config

/-- Forgets the configuration, so that it is loaded anew. -/
def reset : Act Unit :=
  modify fun host => { host with config? := none }

end LexicalPaths.Config
