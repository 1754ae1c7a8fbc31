import LexicalPaths.Command.Request
import LexicalPaths.Config.Storage
import LexicalPaths.Log.Setup
import LexicalPaths.Manifest.Folder
import LexicalPaths.Path.Normalize
import LexicalPaths.Path.Order
import LexicalPaths.Path.Relativize

/-!
# Running commands

A command line is read, the configuration is loaded, the log is set up, and the command is carried
out.  Failures that a user can cause are logged; the others are left to the host.
-/

namespace LexicalPaths.Command

/-- How a command line ends. -/
inductive Outcome where
  | done
  /-- The command has failed, and the log says why. -/
  | failed
  | stopped (stop : Stop)

def Outcome.code : Outcome → Nat
  | .done | .stopped (.help _) => 0
  | .failed => 1
  | .stopped (.misuse ..) => 2

/-- Prints unless the command is to be quiet. -/
def printUnless (quiet : Bool) (shown : List Display.Shown) : Act Unit :=
  if quiet then pure () else Act.print shown

/-- Checks that a value can be the filesystem of a path, which is part of a key. -/
def checkFilesystem (filesystem : Datum) : Act Unit :=
  if filesystem.canBeKey then pure () else throw (.unhashable filesystem.kind)

/-- The path that an argument names on the given filesystem.  A filesystem that is not a text is
known by its source text. -/
def pathOn (filesystem argument : Datum) : Act Path := do
  let t ← Act.lift .noPath argument.asPath
  checkFilesystem filesystem
  return .parse filesystem.display t

def pathLiteral (filesystem : Datum) (p : Path) : Text :=
  "PathString(".toList ++ Text.quoted p.raw ++ ", filesystem_uri=".toList ++ filesystem.literal ++
    [')']

def logLiteral (filesystem : Datum) (message : Text) : Act Unit :=
  Act.logWritten .debug (if filesystem.isWritable then .ok message else .error .longInteger)

/-- The details of a path on the given filesystem, whose URI must be a text to be shown. -/
def detailsOn (filesystem : Datum) (p : Path) : Act (List Display.Shown) :=
  match filesystem with
  | .text _ => return Display.details p
  | d => throw (.noText d.fullKind "endswith".toList)

def inForm (form : Form) (p : Path) : Text :=
  match form with
  | .raw => p.raw
  | .portable => p.portableText
  | .native => p.nativeText

def runPath (task : PathTask) (filesystem argument : Datum) (quiet : Bool) : Act Unit := do
  let p ← pathOn filesystem argument
  logLiteral filesystem ("Parsed ".toList ++ pathLiteral filesystem p)
  match task with
  | .inspect => if quiet then pure () else Act.print (← detailsOn filesystem p)
  | .normalize => printUnless quiet [.line p.normalize.raw]
  | .convert form => printUnless quiet [.line (inForm form p)]

def PairTask.name : PairTask → Text
  | .resolve => Verb.resolve.name
  | .relativize => Verb.relativize.name

def PairTask.result (task : PairTask) (base other : Path) (normalize : Bool) : Path :=
  let p := match task with
    | .resolve => base.resolve other
    | .relativize => base.relativize other
  if normalize then p.normalize else p

def runPair (task : PairTask) (filesystem base other : Datum) (normalize quiet : Bool) :
    Act Unit := do
  let base ← pathOn filesystem base
  let other ← pathOn filesystem other
  let result := task.result base other normalize
  logLiteral filesystem
    (task.name ++ ['('] ++ pathLiteral filesystem base ++ [',', ' '] ++
      pathLiteral filesystem other ++ ") -> ".toList ++ pathLiteral filesystem result)
  printUnless quiet [.line result.raw]

def runManifest (folder : HostPath) (types? : Option (List Datum)) (quiet : Bool) : Act Unit := do
  let outputs ← Manifest.ofFolder folder types?
  printUnless quiet (Display.listing outputs)

/-- Adds an output to the manifest of a folder and shows the manifest. -/
def runRecord (folder : HostPath) (type path indent : Datum) (properties : List (Text × Text))
    (quiet : Bool) : Act Unit := do
  let outputs ← Manifest.ofFolder folder none
  let p ← pathOn (.text Path.localUri) path
  let added : Manifest.Draft := ⟨type, p, properties⟩
  let _ ← Manifest.saveDrafts folder indent (outputs.map .ofOutput ++ [added])
  runManifest folder none quiet

def folderNamed (argument : Datum) : Act HostPath := do
  let t ← Act.lift .noPath argument.asPath
  Act.expandHome (.ofText t)

def filesystemFor (request : Request) (config : Config) : Datum :=
  match request.filesystem?, config.filesystemUri with
  | some uri, _ => uri
  | none, .null => .text Path.localUri
  | none, d => d

def carryOut (request : Request) (config : Config) : Act Outcome := do
  let filesystem := filesystemFor request config
  match request.task with
  | .path task path =>
    runPath task filesystem path request.quiet
    return .done
  | .pair task base other normalize =>
    runPair task filesystem base other normalize request.quiet
    return .done
  | .manifest folder types? =>
    runManifest (← folderNamed folder) types? request.quiet
    return .done
  | .record folder type path properties =>
    let folder ← folderNamed folder
    match propertiesFrom [] properties with
    | .error (.malformed t) => return .stopped (.misuse programName (.invalidProperty t))
    | .error (.noText kind) => throw (.noText kind "partition".toList)
    | .ok properties =>
      runRecord folder type path config.indent properties request.quiet
      return .done

/-- The level from which on a request lets records through to the console. -/
def consoleLevel (request : Request) : Level :=
  if request.quiet then .error else if request.verbose then .debug else .info

/-- The log file that a configuration sets, or the usual one. -/
def logFileFor (config : Config) : Act LogFile := do
  if config.logFile.isSet then return config.logFile
  else return .path (← Act.defaultLogFile)

def handle (request : Request) : Act Outcome := do
  let config ← Config.load
  Act.setupLogger (some (← logFileFor config)) (consoleLevel request) .debug
  carryOut request config

/-- Logs a failure that a user can cause, and passes on any other. -/
def report (failure : Failure) : Act Outcome := do
  if failure.isReported then
    Act.log .error failure.message
    return .failed
  else throw failure

def run (words : List Text) : Act Outcome := do
  match Request.read (← get).machine.dialect words with
  | .error stop => return .stopped stop
  | .ok request => tryCatch (handle request) report

end LexicalPaths.Command
