import LexicalPaths.Host.Locate

/-!
# Setting up the log

The log goes to the console and, if a file is given, also to that file, whose folder is made if it
is missing.
-/

namespace LexicalPaths.Act

/-- Whether a path names anything; a path that cannot be looked up names nothing. -/
def seems (p : HostPath) : Act Bool :=
  tryCatch (holds p) fun _ => return false

/-- Whether a path names a folder; a path that cannot be looked up names none. -/
def seemsFolder (p : HostPath) : Act Bool :=
  tryCatch (isFolder p) fun _ => return false

/-- Makes a folder unless there seems to be one. -/
def ensureSeemingFolder (p : HostPath) : Act Unit :=
  makeFolderUnless (seemsFolder p) p

/-- Makes a folder unless there is one, after the folders above it that are missing.  The first
argument bounds how many of those are made. -/
def ensureFoldersDownFrom : Nat → HostPath → Act Unit
  | 0, p => ensureSeemingFolder p
  | count + 1, p => do
    if !(← seems p.parent) then
      tryCatch (ensureFoldersDownFrom count p.parent) fun failure => do
        match failure with
        | .refused .present _ => pure ()
        | failure => throw failure
    ensureSeemingFolder p

/-- Makes a folder after the missing folders above it, from the root down. -/
def ensureFoldersDown (p : HostPath) : Act Unit :=
  ensureFoldersDownFrom p.names.length p

/-- Sends log records to the console from one level on and to a file from another.  Until the file
is open, records go to the console only. -/
def setupLogger (logFile? : Option LogFile) (console file : Level) : Act Unit := do
  modify fun host => { host with logger := ⟨console, none⟩ }
  match logFile? with
  | none => pure ()
  | some logFile =>
    let path ← locate (← lift .noPath logFile.asPath)
    ensureFoldersDown path.parent
    let place ← openEnd path
    modify fun host => { host with logger := ⟨console, some (place, file)⟩ }

end LexicalPaths.Act
