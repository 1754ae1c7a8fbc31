import LexicalPaths.Host.Failure

/-!
# Filesystem providers

A provider turns a path on its filesystem into a handle of the host.  Providers are registered for
the schemes of filesystem URIs.
-/

namespace LexicalPaths

/-- What the host opens: a path of its file system, or an address within an archive. -/
inductive Handle where
  | path (path : HostPath)
  | archive (archive : HostPath) (address : Text)
deriving DecidableEq

/-- How paths of a filesystem are opened. -/
inductive Provider where
  | host
  /-- As addresses within the archive that the URI of the filesystem names. -/
  | archive
  /-- By a function of the URI of the filesystem and of the text of the path. -/
  | custom (openPath : Text → Text → Except Failure Handle)

abbrev Providers := List (Text × Provider)

namespace Providers

def localScheme : Text := "file".toList

def archiveScheme : Text := "zip".toList

def initial : Providers :=
  [(localScheme, .host), (archiveScheme, .archive)]

def get? (providers : Providers) (scheme : Text) : Option Provider :=
  providers.lookup scheme

/-- Registers a provider for a scheme, in place of the one before. -/
def register (providers : Providers) (scheme : Text) (provider : Provider) : Providers :=
  (scheme, provider) :: providers.filter fun other => other.1 != scheme

def unregister (providers : Providers) (scheme : Text) : Providers :=
  providers.filter fun other => other.1 != scheme

end Providers

end LexicalPaths
