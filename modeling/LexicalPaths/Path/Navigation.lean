import LexicalPaths.Path.Basic

/-!
# Navigation

The parts of a path: its root, its names, its parent, and ranges of its names.  Each part is a
path over the same text.
-/

namespace LexicalPaths.Path

open Separator

/-- Why a part of a path does not exist. -/
inductive RangeError where
  /-- The names from `first` up to `last` are not all names of the path with the text `path`. -/
  | outOfRange (first last : Int) (path : Text)
  | step
deriving DecidableEq

/-- The root alone, or `none` for a path without one. -/
def root? (p : Path) : Option Path :=
  if p.rootEnd = 0 then none
  else some { p with start := p.rootEnd, stop := p.rootEnd }

/-- The offset at which the name that ends at `i` starts. -/
def nameStart (p : Path) : Nat → Nat
  | 0 => 0
  | i + 1 =>
    if decide (p.start < i + 1) && !p.separatorBefore (i + 1) then p.nameStart i else i + 1

/-- The last name as a path of its own; empty for a path without names. -/
def fileName (p : Path) : Path :=
  { p with start := p.nameStart p.namesEnd, stop := p.namesEnd, rootEnd := 0 }

/-- The path without its last name, or `none` for a root and for the empty path. -/
def parent? (p : Path) : Option Path :=
  if p.namesEnd ≤ p.start then none
  else if p.nameStart p.namesEnd ≤ p.start + 1 then p.root?
  else some { p with stop := p.nameStart p.namesEnd - 1 }

/-- The offsets of the names in `t`, which starts at the offset `i`, when the name under way
started at `first`. -/
def boundsFrom (first i : Nat) : Text → List (Nat × Nat)
  | [] => if first < i then [(first, i)] else []
  | c :: t =>
    if isSeparator c then (first, i) :: boundsFrom (i + 1) (i + 1) t
    else boundsFrom first (i + 1) t

/-- The offsets of the names in order: where each starts and where it ends. -/
def nameBounds (p : Path) : List (Nat × Nat) :=
  boundsFrom p.start p.start (p.text.slice p.start p.namesEnd)

/-- The names in order, not counting the root.  Between two separators in a row there is an empty
name. -/
def names (p : Path) : List Text :=
  p.nameBounds.map fun (first, last) => p.text.slice first last

def nameCount (p : Path) : Nat :=
  p.nameBounds.length

/-- The names in order, each as a path without a root. -/
def namePaths (p : Path) : List Path :=
  p.nameBounds.map fun (first, last) => { p with start := first, stop := last, rootEnd := 0 }

/-- The path as people read it: its text behind the URI of its filesystem, where one of three
closing slashes is left out. -/
def display (p : Path) : Text :=
  let scheme := if ['/', '/', '/'].isSuffixOf p.uri then p.uri.dropLast else p.uri
  scheme ++ p.raw

/-- The names from number `first` up to but not including number `last`, as a path without a
root. -/
def subpath (p : Path) (first last : Int) : Except RangeError Path :=
  let bounds := p.nameBounds
  if first < 0 ∨ last < first ∨ (bounds.length : Int) < last then
    .error (.outOfRange first last p.display)
  else if first = last then .ok (parse p.uri [])
  else
    match bounds[first.toNat]?, bounds[last.toNat - 1]? with
    | some (start, _), some (_, stop) =>
      .ok { p with start := start, stop := stop, rootEnd := 0 }
    | _, _ => .error (.outOfRange first last p.display)

def get (p : Path) (index : Int) : Except RangeError Path :=
  p.subpath index (index + 1)

/-- The range of names that a slice with optional bounds and an optional step selects. -/
def range (p : Path) (first? last? step? : Option Int) : Except RangeError Path :=
  if step?.any (· != 1) then .error .step
  else p.subpath (first?.getD 0) (last?.getD p.nameCount)

end LexicalPaths.Path
