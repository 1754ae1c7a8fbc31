import LexicalPaths.Archive.Directory
import LexicalPaths.Host.Locate
import LexicalPaths.Path.Basic
import LexicalPaths.Uri.Percent

/-!
# Opening paths

A path is opened by the provider for the scheme of its filesystem.  Archives have filesystems of
their own: their URIs hold the URI of the archive's file, and handles within an archive are turned
back into paths.
-/

namespace LexicalPaths

def archiveOpening : Text := "zip:".toList

/-- The URI of the file of the archive that is named by the URI of a filesystem. -/
def archiveFileUri (uri : Text) : Text :=
  Text.before '!' (if archiveOpening.isPrefixOf uri then uri.drop archiveOpening.length else uri)

/-- The URI of the filesystem within the archive at an absolute path. -/
def archiveUri (archive : HostPath) : Text :=
  archiveOpening ++ "file://".toList ++ Uri.percentEncode archive.toText ++ ['!', '/']

def archiveAddress (raw : Text) : Text :=
  (raw.replaceChar '\\' ['/']).dropWhile (· == '/')

def namesFolder (t : Text) : Bool :=
  ((t.splitAt '/').getLast?.any fun piece => !HostPath.isName piece)

namespace Act

def checkArchive (bytes : List UInt8) : Act Unit :=
  lift .archive (Archive.check bytes)

/-- Opens a path within the archive that the URI of its filesystem names. -/
def openArchive (uri raw : Text) : Act Handle := do
  let parts ← lift .uri (Uri.split (archiveFileUri uri))
  if parts.scheme ≠ Providers.localScheme then throw (.archiveLocation (archiveFileUri uri))
  let archive := HostPath.ofText (Uri.percentDecode parts.path)
  checkArchive (← readBytes archive)
  return .archive archive (archiveAddress raw)

/-- Opens a path; without a provider for its filesystem there is no handle. -/
def openPath (p : Path) : Act (Option Handle) := do
  let parts ← lift .uri (Uri.split p.uri)
  match (← get).providers.get? parts.scheme with
  | none =>
    log .debug ("No filesystem provider for ".toList ++ p.uri)
    return none
  | some .host => return some (.path (.ofText p.raw))
  | some .archive => return some (← openArchive p.uri p.raw)
  | some (.custom access) => return some (← lift id (access p.uri p.raw))

def register (scheme : Text) (provider : Provider) : Act Unit := do
  modify fun host => { host with providers := host.providers.register scheme provider }
  log .debug ("Registered filesystem provider for scheme '".toList ++ scheme ++ ['\''])

/-- Removes the provider for a scheme, and says whether there was one. -/
def unregister (scheme : Text) : Act Bool := do
  let host ← get
  set { host with providers := host.providers.unregister scheme }
  return (host.providers.get? scheme).isSome

def archiveUriOf (archive : Text) : Act Text := do
  return archiveUri (← absolute (.ofText archive))

/-- The bytes of the file that a text names, which must not say that it names a folder. -/
def readNamed (t : Text) : Act (List UInt8) := do
  let p := HostPath.ofText t
  let host ← get
  if t.holds '\x00' then throw .nullCharacter
  else if t = [] then throw (.refused .missing t)
  else
    match host.machine.denies .read p with
    | some reason => throw (.denied reason)
    | none =>
      let bytes ← lift (.refused · t) (host.files.read host.machine.links host.folder p)
      if namesFolder t then throw (.refused .notFolder t)
      return bytes

/-- The path of the address `address` within the archive that a text names. -/
def pathInArchive (archive address : Text) : Act Path := do
  checkArchive (← readNamed archive)
  return .parse (← archiveUriOf archive) ('/' :: address)

end Act

end LexicalPaths
