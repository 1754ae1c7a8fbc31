import LexicalPaths.Host.Access
import LexicalPaths.Manifest.Document

/-!
# Manifests in folders

The manifest of a folder lies in a file of its own.  Saving and loading it are logged as events.
-/

namespace LexicalPaths

/-- The full name of the kind of a value: kinds of moments belong to a family of their own. -/
def Datum.fullKind : Datum → Text
  | .moment m => "datetime.".toList ++ (Datum.moment m).kind
  | d => d.kind

namespace Manifest

def fileName : Text := "output.json".toList

def file (folder : HostPath) : HostPath :=
  folder.child fileName

def base (folder : HostPath) : Path :=
  .parse Path.localUri folder.toText

def maxCount : Nat := 0x7FFFFFFFFFFFFFFF

/-- The layout with `n` spaces for each level; a negative `n` stands for none.  Texts of the length
`memory` do not fit into memory. -/
def spaced (memory : Nat) (n : Int) : Except Failure Json.Layout :=
  if maxCount < n ∨ n < -maxCount - 1 then .error .wordTooSmall
  else if memory ≤ n then .error .memory
  else .ok (.indented (List.replicate n.toNat ' '))

/-- The layout that an indentation asks for: a number of spaces, a text, or null for one line. -/
def layout (memory : Nat) : Datum → Except Failure Json.Layout
  | .null => .ok .line
  | .int n => spaced memory n
  | .bool b => .ok (.indented (if b then [' '] else []))
  | .text unit => .ok (.indented unit)
  | d => .error (.noCount d.fullKind)

def attributes (kind : Display.EventKind) (folder : HostPath) (details : Display.Attributes) :
    Display.Attributes :=
  (Display.eventKey, .text kind.name) :: (Display.manifestKey, .text (file folder).toText) ::
    (Display.baseKey, .text folder.parent.toText) :: details

def logEvent (level : Level) (opening : Text) (kind : Display.EventKind) (folder : HostPath)
    (details : Display.Attributes) : Act Unit :=
  Act.logWith level (opening ++ (file folder).toText) (attributes kind folder details)

/-- Logs that the manifest of a folder could not be saved or loaded. -/
def logFailure (opening : Text) (folder : HostPath) (failure : Failure) : Act Unit :=
  Act.logWith .error (opening ++ (file folder).toText ++ [':', ' '] ++ failure.message)
    (attributes .failed folder [(Display.errorKey, .text failure.message)])

/-- Logs a failure of the file system to save the manifest of a folder. -/
def reportUnsaved (folder : HostPath) (failure : Failure) : Act Unit :=
  if failure.isSystem then logFailure "Failed to write manifest ".toList folder failure
  else pure ()

/-- Writes drafts as the manifest of a folder, and makes the folder if it is missing.  The result is
the file. -/
def saveDrafts (folder : HostPath) (indent : Datum) (drafts : List Draft) : Act HostPath := do
  let layout ← Act.lift id (layout (← get).machine.memory indent)
  let document := persistDrafts (base folder) layout drafts
  Act.reporting (reportUnsaved folder) do
    Act.ensureFolders folder
    Act.writeText (file folder) document
  logEvent .info "Saved manifest ".toList .saved folder
    [(Display.entriesKey, .int drafts.length)]
  return file folder

def save (folder : HostPath) (indent : Datum) (outputs : Manifest) : Act HostPath :=
  saveDrafts folder indent (outputs.map .ofOutput)

def reportUnread (folder : HostPath) (failure : Failure) : Act Unit :=
  match failure with
  | .manifest (.format _) => logFailure "Failed to read manifest ".toList folder failure
  | _ => pure ()

def readFile (folder : HostPath) (types? : Option (List Datum)) : Act Manifest := do
  let document ← Act.readText (file folder)
  let room := (← get).machine.nesting
  Act.lift .manifest (loadWithin (some room) (base folder) types? document)

/-- The manifest of a folder with the outputs of the chosen types.  A folder without a manifest has
no outputs. -/
def ofFolder (folder : HostPath) (types? : Option (List Datum)) : Act Manifest := do
  if ← Act.isFile (file folder) then
    let outputs ← Act.reporting (reportUnread folder) (readFile folder types?)
    logEvent .info "Loaded manifest ".toList .loaded folder
      [(Display.entriesKey, .int outputs.length)]
    return outputs
  else
    logEvent .debug "No manifest at ".toList .missing folder []
    return []

end Manifest

end LexicalPaths
