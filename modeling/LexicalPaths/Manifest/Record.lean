import LexicalPaths.Manifest.Error
import LexicalPaths.Path.Basic

/-!
# Records of paths

A path is recorded by its portable text, and by the URI of its filesystem unless that is the one
the reader will assume.
-/

namespace LexicalPaths.Manifest.Record

def pathKey : Text := "path".toList

def filesystemKey : Text := "filesystem".toList

/-- The entries that record a path for a reader who assumes the filesystem `assumed`. -/
def encode (assumed : Text) (p : Path) : List (Text × Datum) :=
  (pathKey, .text p.portableText) ::
    if p.uri = assumed then [] else [(filesystemKey, .text p.uri)]

/-- The URI of the filesystem that a record names, or `assumed` if it names none. -/
def filesystem (assumed : Text) (entries : List (Text × Datum)) : Except Fault Text :=
  match Datum.entry? filesystemKey entries with
  | none => .ok assumed
  | some (.text uri) => .ok uri
  | some value => .error (.filesystemKind value)

def decode (assumed : Text) (entries : List (Text × Datum)) : Except Fault Path :=
  match Datum.entry? pathKey entries with
  | some (.text t) => (filesystem assumed entries).map fun uri => .parse uri t
  | _ => .error (.pathKind (.table entries))

end LexicalPaths.Manifest.Record
