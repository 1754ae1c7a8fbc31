import LexicalPaths.Command.Help
import LexicalPaths.Command.Reach
import LexicalPaths.Display.Terminal
import Std.Time.Format

/-!
# The program

The command line of the program.  It looks at the files that a command reaches, runs the command,
writes what has changed, and prints.
-/

namespace LexicalPaths.Program

def lookAt (p : HostPath) : IO (Option Entry) := do
  let path := (← IO.currentDir) / String.ofList p.toText
  if ← path.isDir then return some .folder
  else if ← path.pathExists then return some (.file (← IO.FS.readBinFile path).toList)
  else return none

def lookAlong (p : HostPath) : IO Files := do
  let mut files : Files := []
  for count in List.range p.names.length do
    let names := p.names.take (count + 1)
    if let some entry ← lookAt (.ofNames names) then
      files := files.put names entry
  return files

/-- The host with what lies at the files that a command line reaches. -/
def observe (words : List Text) (host : Host) : IO Host := do
  match (Command.reached words).run.run host with
  | (.ok paths, _) =>
    let mut files := host.files
    for path in paths do
      for (place, entry) in ← lookAlong path do
        files := files.put place entry
    return { host with files := files }
  | (.error _, _) => return host

def accounts : IO Text := do
  try return (← IO.FS.readFile "/etc/passwd").toList
  catch _ => return []

/-- The variables with the given names, as far as the environment has them. -/
def valuesOf (names : List Text) : IO (List (Text × Text)) := do
  let mut found := []
  for name in names do
    if let some value ← IO.getEnv (String.ofList name) then
      found := found ++ [(name, value.toList)]
  return found

/-- The time as the log shows it, from its standard form. -/
def logTime (time : Text) : Text :=
  time.take 10 ++ [' '] ++ time.slice 11 19 ++ [','] ++ time.slice 20 23

def startHost : IO Host := do
  let folder := HostPath.ofText (← IO.currentDir).toString.toList
  let program := HostPath.ofText (← IO.appPath).toString.toList
  let environment ← valuesOf [Act.homeVariable, Act.configVariable]
  let time := logTime (toString (← Std.Time.PlainDateTime.now)).toList
  return {
    machine := { Machine.plain with rotation? := some .usual }
    files := []
    folder := folder.names
    environment := environment
    homes := Act.homesOfAccounts (← accounts)
    program := program
    time := time
    config? := none
    providers := Providers.initial
    logger := ⟨.info, none⟩
    records := []
    shown := [] }

def write (place : Place) (entry : Entry) : IO Unit := do
  let path := String.ofList (HostPath.ofNames place).toText
  match entry with
  | .folder => IO.FS.createDir path
  | .file bytes => IO.FS.writeBinFile path bytes.toByteArray

def printRecord (r : LogRecord) : IO Unit :=
  match Display.render Display.Styled.library r.message r.attributes with
  | .ok (.event styled) => IO.eprintln (String.ofList styled.text)
  | _ => IO.eprintln (String.ofList r.message)

def printShown (shown : Display.Shown) : IO Unit :=
  for line in shown.lines do
    IO.println (String.ofList line)

def printStop : Command.Stop → IO Unit
  | .help program => IO.println ("usage: " ++ String.ofList (Command.usage program))
  | .misuse program error => do
    IO.eprintln ("usage: " ++ String.ofList (Command.usage program))
    IO.eprintln (String.ofList (program ++ ": error: ".toList ++ error.message))

def runWords (words : List Text) : IO UInt32 := do
  let host ← observe words (← observe words (← startHost))
  let (outcome, after) := (Command.run words).run.run host
  for (place, entry) in Command.changes host.files after.files do
    write place entry
  for r in after.records do
    printRecord r
  for shown in after.shown do
    printShown shown
  match outcome with
  | .ok outcome =>
    if let .stopped stop := outcome then printStop stop
    return outcome.code.toUInt32
  | .error failure =>
    IO.eprintln (String.ofList failure.message)
    return 1

end LexicalPaths.Program

def main (arguments : List String) : IO UInt32 :=
  LexicalPaths.Program.runWords (arguments.map String.toList)
