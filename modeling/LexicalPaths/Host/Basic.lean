import LexicalPaths.Config.Basic
import LexicalPaths.Display.Report
import LexicalPaths.Log.Record
import LexicalPaths.Log.Rotation
import LexicalPaths.Provider.Basic

/-!
# The host

What the library acts on: the machine, its files, the environment, the registered providers, the
cached configuration, and what has been logged and printed.  An action changes the host and may
fail; what it has changed before it fails stays changed.
-/

namespace LexicalPaths

/-- A host and what has happened on it. -/
structure Host where
  machine : Machine
  files : Files
  folder : Place
  environment : List (Text × Text)
  /-- The home folders of the users, by their names. -/
  homes : List (Text × Text)
  program : HostPath
  time : Text
  /-- The configuration, once it has been loaded. -/
  config? : Option Config
  providers : Providers
  logger : Logger
  /-- The records that went to the console, in order. -/
  records : List LogRecord
  /-- What was printed, in order. -/
  shown : List Display.Shown

abbrev Act := ExceptT Failure (StateM Host)

namespace Host

def record (host : Host) (record : LogRecord) : Host :=
  if record.level < Logger.threshold then host
  else
    let records :=
      if host.logger.console ≤ record.level then host.records ++ [record] else host.records
    let files :=
      match host.logger.file? with
      | some (place, level) =>
        if level ≤ record.level then
          host.files.addLine host.machine.rotation? place (record.line host.time)
        else host.files
      | none => host.files
    { host with records := records, files := files }

end Host

namespace Act

def logWith (level : Level) (message : Text) (attributes : Display.Attributes) : Act Unit :=
  modify fun host => host.record ⟨level, message, attributes⟩

def log (level : Level) (message : Text) : Act Unit :=
  logWith level message []

/-- Logs a message that may be impossible to write.  Then it fails if the console would show it, and
nothing is logged otherwise. -/
def logWritten (level : Level) (message : Except Failure Text) : Act Unit := do
  match message with
  | .ok message => log level message
  | .error failure => if (← get).logger.console ≤ level then throw failure else pure ()

/-- Prints one thing after the other, up to the first that cannot be printed. -/
def print : List Display.Shown → Act Unit
  | [] => pure ()
  | item :: rest => do
    let host ← get
    match host.machine.prints host.shown item with
    | some fault => throw (.unprinted fault)
    | none =>
      modify fun host => { host with shown := host.shown ++ [item] }
      print rest

/-- Runs `report` on a failure of `act`, and passes the failure on. -/
def reporting {α : Type} (report : Failure → Act Unit) (act : Act α) : Act α :=
  tryCatch act fun failure => do
    report failure
    throw failure

/-- The value of an outcome; a fault becomes a failure. -/
def lift {ε α : Type} (failure : ε → Failure) : Except ε α → Act α
  | .ok a => pure a
  | .error e => throw (failure e)

end Act

end LexicalPaths
