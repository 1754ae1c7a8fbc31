import LexicalPaths.Host.Links
import LexicalPaths.Text.Utf8

/-!
# The file system

Folders and files by the names that lead to them from the root.  A walk follows names one by one
and fails where the host's file system does: at a missing folder, at a file that a name should be
looked up in, and at a name that is too long.  The way that it takes has been rid of links before.
-/

namespace LexicalPaths

/-- What a place of the file system holds. -/
inductive Entry where
  | folder
  | file (bytes : List UInt8)
deriving DecidableEq

/-- Why the file system refuses. -/
inductive Refusal where
  | missing
  | present
  | notFolder
  | folder
  | nameTooLong
  /-- There are too many links on the way. -/
  | loop
deriving DecidableEq

def Refusal.number : Refusal → Nat
  | .missing => 2
  | .present => 17
  | .notFolder => 20
  | .folder => 21
  | .nameTooLong => 36
  | .loop => 40

def Refusal.words : Refusal → Text
  | .missing => "No such file or directory".toList
  | .present => "File exists".toList
  | .notFolder => "Not a directory".toList
  | .folder => "Is a directory".toList
  | .nameTooLong => "File name too long".toList
  | .loop => "Too many levels of symbolic links".toList

/-- The entries of a file system.  The root is a folder without an entry of its own. -/
abbrev Files := List (Place × Entry)

/-- Where a walk leads. -/
inductive Spot where
  | entry (place : Place) (entry : Entry)
  /-- To a name that its folder does not hold. -/
  | free (place : Place)
deriving DecidableEq

namespace Files

/-- The longest name, in bytes. -/
def maxName : Nat := 255

/-- The longest text of a path, in bytes. -/
def maxPath : Nat := 4095

def entry? (files : Files) (place : Place) : Option Entry :=
  if place = [] then some .folder else files.lookup place

def put (files : Files) (place : Place) (entry : Entry) : Files :=
  (place, entry) :: files.filter fun other => other.1 != place

def isLongName (name : Text) : Bool :=
  maxName < (Utf8.encode name).length

/-- Follows names from the folder at `place`. -/
def walk (files : Files) (place : Place) : List Text → Except Refusal Spot
  | [] => .ok (.entry place .folder)
  | name :: rest =>
    if name = ['.', '.'] then walk files place.dropLast rest
    else if isLongName name then .error .nameTooLong
    else
      match files.entry? (place ++ [name]), rest with
      | some .folder, rest => walk files (place ++ [name]) rest
      | some (.file bytes), [] => .ok (.entry (place ++ [name]) (.file bytes))
      | some (.file _), _ :: _ => .error .notFolder
      | none, [] => .ok (.free (place ++ [name]))
      | none, _ :: _ => .error .missing

/-- The end of a way, unless the way leads to a link too many. -/
def spotAlong (files : Files) (way : Way) : Except Refusal Spot :=
  match files.walk way.start way.names with
  | .ok spot => if way.ends then .ok spot else .error .loop
  | .error refusal => .error refusal

section

variable (files : Files) (links : Links) (folder : Place) (p : HostPath)

/-- The spot that a path names for who stands in `folder`. -/
def spot : Except Refusal Spot :=
  if maxPath < (Utf8.encode p.toText).length then .error .nameTooLong
  else files.spotAlong (links.way (p.start folder) p.names)

def read : Except Refusal (List UInt8) :=
  match files.spot links folder p with
  | .ok (.entry _ (.file bytes)) => .ok bytes
  | .ok (.entry _ .folder) => .error .folder
  | .ok (.free _) => .error .missing
  | .error refusal => .error refusal

/-- Whether the path names a link in a folder; a link in place of the folder is followed. -/
def endsInLink : Bool :=
  match p.names.getLast?, files.spot links folder p.parent with
  | some name, .ok (.entry place .folder) => (links.target? place name).isSome
  | _, _ => false

/-- The files with a folder at a path.  A link there is not followed. -/
def makeFolder : Except Refusal Files :=
  if files.endsInLink links folder p then .error .present
  else
    match files.spot links folder p with
    | .ok (.free place) => .ok (files.put place .folder)
    | .ok (.entry ..) => .error .present
    | .error refusal => .error refusal

/-- The place of the file at a path, which need not exist yet. -/
def filePlace : Except Refusal Place :=
  match files.spot links folder p with
  | .ok (.free place) => .ok place
  | .ok (.entry place (.file _)) => .ok place
  | .ok (.entry _ .folder) => .error .folder
  | .error refusal => .error refusal

end

/-- The bytes of the file at a place; a missing file has none. -/
def bytesAt (files : Files) (place : Place) : List UInt8 :=
  match files.entry? place with
  | some (.file bytes) => bytes
  | _ => []

def append (files : Files) (place : Place) (bytes : List UInt8) : Files :=
  files.put place (.file (files.bytesAt place ++ bytes))

end Files

end LexicalPaths
