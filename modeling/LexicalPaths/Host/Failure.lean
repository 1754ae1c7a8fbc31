import LexicalPaths.Archive.Fault
import LexicalPaths.Datum.AsPath
import LexicalPaths.Host.Files
import LexicalPaths.Host.Machine
import LexicalPaths.Manifest.Error
import LexicalPaths.Toml.Error
import LexicalPaths.Uri.Split

/-!
# Failures

Why an action on the host fails.  The command line reports some failures and passes on the others.
-/

namespace LexicalPaths

/-- Why an action fails. -/
inductive Failure where
  | refused (refusal : Refusal) (path : Text)
  | nullCharacter
  | encoding (error : Utf8.Error)
  | manifest (error : Manifest.Error)
  | toml (document : Text) (error : Toml.Error)
  /-- A URI cannot be split. -/
  | uri (error : Uri.Error)
  /-- A URI names an archive that does not lie on the local filesystem. -/
  | archiveLocation (uri : Text)
  | archive (fault : Archive.Fault)
  | unnamedArchive
  /-- The user may not do something at a path. -/
  | denied (reason : Text)
  | unprinted (fault : PrintFault)
  /-- A link leads back to itself. -/
  | linkLoop (path : Text)
  | noHome
  | noPath (error : NoPath)
  | unknownSetting (name : Text)
  /-- A value of the given kind cannot be part of a key. -/
  | unhashable (kind : Text)
  /-- A value of the given kind is not text, which the operation of the given name needs. -/
  | noText (kind operation : Text)
  | longInteger
  /-- A text cannot be repeated as often as a value of the given kind says. -/
  | noCount (kind : Text)
  /-- A text cannot be repeated so often that a machine word does not count it. -/
  | wordTooSmall
  /-- A text of this length does not fit into memory. -/
  | memory

namespace Failure

def message : Failure → Text
  | .refused refusal path =>
    "[Errno ".toList ++ (toString refusal.number).toList ++ [']', ' '] ++ refusal.words ++
      [':', ' '] ++ Text.quoted path
  | .nullCharacter => "embedded null byte".toList
  | .encoding error => error.message
  | .manifest error => error.message
  | .toml document error => error.message document
  | .uri error => error.message
  | .archiveLocation location => "Unsupported archive location: ".toList ++ location
  | .archive fault => fault.message
  | .unnamedArchive => "Archive has no file name and cannot be addressed by URI".toList
  | .denied reason => reason
  | .unprinted (.refused reason) => reason
  | .unprinted (.unencodable reason) => reason
  | .unprinted .closed => ['1']
  | .linkLoop path => "Symlink loop from ".toList ++ Text.quoted path
  | .noHome => "Could not determine home directory.".toList
  | .noPath error => error.message
  | .unknownSetting name =>
    "Config.__init__() got an unexpected keyword argument '".toList ++ name ++ ['\'']
  | .unhashable kind => Datum.noKeyMessage kind
  | .noText kind operation =>
    ['\''] ++ kind ++ "' object has no attribute '".toList ++ operation ++ ['\'']
  | .longInteger => Datum.noTextMessage
  | .noCount kind => "can't multiply sequence by non-int of type '".toList ++ kind ++ ['\'']
  | .wordTooSmall => "cannot fit 'int' into an index-sized integer".toList
  | .memory => []

/-- Whether the file system is at fault: refused paths and denied access. -/
def isSystem : Failure → Bool
  | .refused .. | .denied _ => true
  | _ => false

/-- Whether the command line reports the failure and ends in order. -/
def isReported : Failure → Bool
  | .manifest (.typeKind _) | .manifest .tooDeep | .unprinted .closed => false
  | .refused .. | .denied _ | .nullCharacter | .encoding _ | .manifest _ | .toml .. | .uri _
  | .archiveLocation _ | .archive (.name _) | .unnamedArchive | .unprinted _ | .longInteger => true
  | _ => false

end Failure

end LexicalPaths
