import LexicalPaths.Host.Files
import LexicalPaths.Host.Machine

/-!
# Log files that are put aside

A log file that a line would make too long is put aside: it gets a number behind its name, and the
files that were put aside before get the next numbers.  The one with the last number is lost.
-/

namespace LexicalPaths

/-- The usual rotation: at ten megabytes, with five files put aside. -/
def Rotation.usual : Rotation := ⟨10 * 1024 * 1024, 5⟩

namespace Files

/-- Where the file at a place lies once it has been put aside `count` times. -/
def aside (place : Place) : Nat → Place
  | 0 => place
  | count =>
    place.dropLast ++ [(place.getLast?).getD [] ++ '.' :: (toString count).toList]

/-- The files after what lies at `source`, with all in it, has been moved to `target`, where nothing
or a file was; or `none` if there is a folder. -/
def move (files : Files) (source target : Place) : Option Files :=
  match files.entry? source, files.entry? target with
  | none, _ => some files
  | some _, some .folder => none
  | some _, _ =>
    let others := files.filter fun other => other.1 != target
    some <| others.map fun (place, entry) =>
      (if source <+: place then target ++ place.drop source.length else place, entry)

/-- Puts the file at a place aside, after those that were put aside before, of which at most `count`
are kept.  A folder that is in the way stops it. -/
def putAside (files : Files) (place : Place) : Nat → Files × Bool
  | 0 => (files, true)
  | count + 1 =>
    match files.move (aside place count) (aside place (count + 1)) with
    | some files => files.putAside place count
    | none => (files, false)

/-- Adds a line to a log file, which is put aside first if it would get too long.  If it cannot be
put aside, the line is lost. -/
def addLine (files : Files) (rotation? : Option Rotation) (place : Place) (line : Text) : Files :=
  match rotation? with
  | none => files.append place (Utf8.encode line)
  | some rotation =>
    if (files.bytesAt place).length + line.length < rotation.limit then
      files.append place (Utf8.encode line)
    else
      match files.putAside place rotation.backups with
      | (files, true) => files.append place (Utf8.encode line)
      | (files, false) => files

end Files

end LexicalPaths
