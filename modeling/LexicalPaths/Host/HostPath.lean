import LexicalPaths.Text.Basic

/-!
# Paths of the host

File paths as the host's file system reads them: a root of no, one or two slashes, and names.
Repeated slashes and `.` names have no meaning and are not kept; `..` names are kept, since only
the file system knows where they lead.
-/

namespace LexicalPaths

/-- A path of the host's file system. -/
structure HostPath where
  /-- The number of slashes at the beginning: none, one, or exactly two. -/
  slashes : Nat
  names : List Text
deriving DecidableEq

namespace HostPath

def isName (t : Text) : Bool :=
  !t.isEmpty && t != ['.']

/-- The number of slashes that the root of a text keeps: exactly two stay, and more count as
one. -/
def rootSlashes (t : Text) : Nat :=
  match (t.takeWhile (· == '/')).length with
  | 0 => 0
  | 2 => 2
  | _ => 1

def ofText (t : Text) : HostPath where
  slashes := rootSlashes t
  names := (t.splitAt '/').filter isName

/-- The text of a path; without a root and names it is `.`. -/
def toText (p : HostPath) : Text :=
  if p.slashes = 0 ∧ p.names.isEmpty then ['.']
  else List.replicate p.slashes '/' ++ Text.joinWith ['/'] p.names

def clean (t : Text) : Text :=
  (ofText t).toText

def isAbsolute (p : HostPath) : Bool :=
  p.slashes != 0

def parent (p : HostPath) : HostPath :=
  { p with names := p.names.dropLast }

/-- The path of the entry `name` in the folder `p`. -/
def child (p : HostPath) (name : Text) : HostPath :=
  { p with names := p.names ++ [name] }

/-- The path that `q` names for who stands at `p`. -/
def join (p q : HostPath) : HostPath :=
  if q.isAbsolute then q else { p with names := p.names ++ q.names }

def ofNames (names : List Text) : HostPath where
  slashes := 1
  names := names

/-- Follows names lexically: `..` takes back the latest name. -/
def collapse (kept : List Text) : List Text → List Text
  | [] => kept
  | name :: rest =>
    if name = ['.', '.'] then collapse kept.dropLast rest else collapse (kept ++ [name]) rest

/-- The names below the root of the folder that the path is read from by who stands at `folder`. -/
def start (folder : List Text) (p : HostPath) : List Text :=
  if p.isAbsolute then [] else folder

/-- The names below the root of the place that the path means for who stands at `folder`, when no
name on the way is a link. -/
def place (folder : List Text) (p : HostPath) : List Text :=
  collapse (p.start folder) p.names

end HostPath

end LexicalPaths
