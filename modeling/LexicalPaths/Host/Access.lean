import LexicalPaths.Host.Basic

/-!
# Access to files

Actions on the file system.  A path that the file system refuses is named in the failure.
-/

namespace LexicalPaths.Act

def checkPath (p : HostPath) : Act Unit :=
  if p.names.any (Text.holds '\x00') then throw .nullCharacter else pure ()

/-- Carries out an operation of the file system on the path `p`, which needs access to it. -/
def onFiles {α : Type} (access : Access) (p : HostPath)
    (operation : Files → Links → Place → HostPath → Except Refusal α) : Act α := do
  checkPath p
  let host ← get
  match host.machine.denies access p with
  | some reason => throw (.denied reason)
  | none =>
    lift (fun refusal => .refused refusal p.toText)
      (operation host.files host.machine.links host.folder p)

/-- What a path names, if it names anything.  Too many links on the way lead to nothing. -/
def entry? (p : HostPath) : Act (Option Entry) := do
  let host ← get
  if p.names.any (Text.holds '\x00') then return none
  else
    match host.machine.denies .look p, host.files.spot host.machine.links host.folder p with
    | some reason, _ => throw (.denied reason)
    | none, .ok (.entry _ entry) => return some entry
    | none, .error .nameTooLong => throw (.refused .nameTooLong p.toText)
    | none, _ => return none

def holds (p : HostPath) : Act Bool :=
  return (← entry? p).isSome

def isFile (p : HostPath) : Act Bool := do
  match ← entry? p with
  | some (.file _) => pure true
  | _ => pure false

def isFolder (p : HostPath) : Act Bool := do
  match ← entry? p with
  | some .folder => pure true
  | _ => pure false

def readBytes (p : HostPath) : Act (List UInt8) :=
  onFiles .read p Files.read

def unifyLines : Text → Text
  | '\r' :: '\n' :: t => '\n' :: unifyLines t
  | '\r' :: t => '\n' :: unifyLines t
  | c :: t => c :: unifyLines t
  | [] => []

/-- The text of a file, with unified line ends. -/
def readText (p : HostPath) : Act Text := do
  let bytes ← readBytes p
  return unifyLines (← lift .encoding (Utf8.decode bytes))

def writeBytes (p : HostPath) (bytes : List UInt8) : Act Unit := do
  let place ← onFiles .write p Files.filePlace
  modify fun host => { host with files := host.files.put place (.file bytes) }

def writeText (p : HostPath) (t : Text) : Act Unit :=
  writeBytes p (Utf8.encode t)

/-- Opens a file that will be added to, and returns its place; a missing file is made. -/
def openEnd (p : HostPath) : Act Place := do
  let place ← onFiles .write p Files.filePlace
  modify fun host => { host with files := host.files.append place [] }
  return place

def makeFolder (p : HostPath) : Act Unit := do
  let files ← onFiles .make p Files.makeFolder
  modify fun host => { host with files := files }

/-- Makes a folder unless `found` says that there is one. -/
def makeFolderUnless (found : Act Bool) (p : HostPath) : Act Unit :=
  tryCatch (makeFolder p) fun failure => do
    if failure.isSystem then
      if ← found then pure () else throw failure
    else throw failure

/-- Makes a folder unless there is one. -/
def ensureFolder (p : HostPath) : Act Unit :=
  makeFolderUnless (isFolder p) p

/-- Makes a folder unless there is one, and makes the folders above it where they are missing.  The
first argument bounds how many of those are made. -/
def ensureFoldersFrom : Nat → HostPath → Act Unit
  | 0, p => ensureFolder p
  | count + 1, p =>
    tryCatch (ensureFolder p) fun failure => do
      match failure with
      | .refused .missing _ =>
        ensureFoldersFrom count p.parent
        ensureFolder p
      | failure => throw failure

/-- Makes a folder and the folders above it, as far as they are missing. -/
def ensureFolders (p : HostPath) : Act Unit :=
  ensureFoldersFrom p.names.length p

end LexicalPaths.Act
