import LexicalPaths.Host.HostPath

/-!
# Symbolic links

A link is an entry that stands for a path, read from the folder of the link.  The file system
follows the links on the way to an entry, one after the other, up to a limit.  A path can also be
rid of its links without looking anything else up; then only a link that leads back to itself cannot
be followed.
-/

namespace LexicalPaths

/-- A place: the names that lead there from the root. -/
abbrev Place := List Text

/-- The links of a file system and the paths that they stand for. -/
abbrev Links := List (Place × HostPath)

/-- Names to look up one by one from a place on. -/
structure Way where
  start : Place
  names : List Text
  /-- Whether the names lead to the end, or to a link too many. -/
  ends : Bool

namespace Links

/-- How many links the file system follows for one path. -/
def maxFollowed : Nat := 40

/-- The path that a name stands for in the folder at a place, if it is the name of a link. -/
def target? (links : Links) (place : Place) (name : Text) : Option HostPath :=
  if name = ['.', '.'] then none else links.lookup (place ++ [name])

/-- The way from `start` over the names `passed` and then along a path without its links; `follow`
goes on behind a link. -/
def wayBy (links : Links) (follow : Place → List Text → List Text → Way) (start : Place)
    (passed : List Text) : List Text → Way
  | [] => ⟨start, passed, true⟩
  | name :: rest =>
    match links.target? (HostPath.collapse start passed) name with
    | none => wayBy links follow start (passed ++ [name]) rest
    | some target =>
      if target.isAbsolute then follow [] [] (target.names ++ rest)
      else follow start passed (target.names ++ rest)

/-- The way along a path when at most `count` links are followed. -/
def wayWithin (links : Links) : Nat → Place → List Text → List Text → Way
  | 0 => wayBy links fun start passed _ => ⟨start, passed, false⟩
  | count + 1 => wayBy links (wayWithin links count)

/-- The way that the file system takes from a place along names. -/
def way (links : Links) (start : Place) (names : List Text) : Way :=
  wayWithin links maxFollowed start [] names

/-- Where names lead from a place when all links are followed, and whether they lead there; `enter`
goes along the path of a link.  Behind a link that leads nowhere the names are taken as they are. -/
def traceBy (links : Links) (enter : Place → Text → HostPath → Place × Bool) (place : Place) :
    List Text → Place × Bool
  | [] => (place, true)
  | name :: rest =>
    match links.target? place name with
    | none => traceBy links enter (HostPath.collapse place [name]) rest
    | some target =>
      match enter place name target with
      | (found, true) => traceBy links enter found rest
      | (found, false) => (HostPath.collapse found rest, false)

/-- Where names lead from a place while the links in `busy` are being followed.  A link among those
leads back to itself.  The first argument bounds how many links are followed at a time. -/
def traceWithin (links : Links) : Nat → List Place → Place → List Text → Place × Bool
  | 0, _ => fun place names => (HostPath.collapse place names, true)
  | count + 1, busy =>
    traceBy links fun place name target =>
      let link := place ++ [name]
      if link ∈ busy then (link, false)
      else
        traceWithin links count (link :: busy) (if target.isAbsolute then [] else place)
          target.names

/-- Where names lead from a place when all links are followed, and whether they lead there. -/
def trace (links : Links) (place : Place) (names : List Text) : Place × Bool :=
  traceWithin links (links.length + 1) [] place names

end Links

end LexicalPaths
