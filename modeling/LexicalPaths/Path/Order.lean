import LexicalPaths.Path.Resolve
import LexicalPaths.Text.Quoted

/-!
# Order and equality

Paths are ordered by the URI of their filesystem, then by their root, then by the text of their
names.  Equality and hashing look at the same three texts.
-/

namespace LexicalPaths.Path

def order (p q : Path) : Ordering :=
  (Text.order p.uri q.uri).then <|
    (Text.order p.rootText q.rootText).then (Text.order p.namesText q.namesText)

instance : BEq Path where
  beq := same

/-- The hash of a text, mixed from its code points. -/
def textHash (t : Text) : UInt64 :=
  t.foldl (fun h c => mixHash h c.toNat.toUInt64) 7

instance : Hashable Path where
  hash p := mixHash (textHash p.uri) (mixHash (textHash p.rootText) (textHash p.namesText))

/-- A way in which two paths can be ordered. -/
inductive Relation where
  | less
  | atMost
  | greater
  | atLeast
deriving DecidableEq

def Relation.admits : Relation → Ordering → Bool
  | .less, o => o == .lt
  | .atMost, o => o != .gt
  | .greater, o => o == .gt
  | .atLeast, o => o != .lt

def Relation.sign : Relation → Text
  | .less => ['<']
  | .atMost => ['<', '=']
  | .greater => ['>']
  | .atLeast => ['>', '=']

/-- The paths in ascending order; equal paths keep their places. -/
def sorted (paths : List Path) : List Path :=
  paths.mergeSort fun p q => p.order q != .gt

def distinct (paths : List Path) : List Path :=
  paths.eraseDups

/-- The path that is kept in the end, when the one kept so far gives way to the next one that
stands in the relation to it. -/
def extreme? (relation : Relation) : List Path → Option Path
  | [] => none
  | p :: rest =>
    some (rest.foldl (fun kept q => if relation.admits (q.order kept) then q else kept) p)

def least? (paths : List Path) : Option Path :=
  extreme? .less paths

def greatest? (paths : List Path) : Option Path :=
  extreme? .greater paths

/-- What a path can be combined with: another path, or text that is still to be read as one. -/
inductive Operand where
  | path (p : Path)
  | text (t : Text)
  | file (t : Text)

/-- The operand as a path; text is read on the filesystem with the given URI. -/
def Operand.toPath (uri : Text) : Operand → Path
  | .path p => p
  | .text t => parse uri t
  | .file t => parse uri t

/-- The attempt to order a path and something else. -/
structure Incomparable where
  relation : Relation
  kind : Text
deriving DecidableEq

def Incomparable.message (e : Incomparable) : Text :=
  ['\''] ++ e.relation.sign ++ "' not supported between instances of 'PathString' and '".toList ++
    e.kind ++ ['\'']

/-- Whether the path and the operand stand in the relation; only paths have an order. -/
def related (p : Path) (relation : Relation) : Operand → Except Incomparable Bool
  | .path q => .ok (relation.admits (p.order q))
  | .text _ => .error ⟨relation, "str".toList⟩
  | .file _ => .error ⟨relation, "PurePosixPath".toList⟩

/-- Whether the operand is a path that equals `p`. -/
def equals (p : Path) : Operand → Bool
  | .path q => p == q
  | _ => false

def RangeError.message : RangeError → Text
  | .outOfRange first last path =>
    "beginIndex ".toList ++ (toString first).toList ++ " and endIndex ".toList ++
      (toString last).toList ++ " are out of range for path ".toList ++ path
  | .step => "Step must be 1".toList

def literal (p : Path) : Text :=
  "PathString(".toList ++ Text.quoted p.raw ++ ", filesystem_uri=".toList ++ Text.quoted p.uri ++
    [')']

end LexicalPaths.Path
