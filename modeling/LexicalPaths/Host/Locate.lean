import LexicalPaths.Host.Access

/-!
# Locating paths

A path can start with the home folder of a user, written as `~` and the user's name, and it can be
relative to the working folder.  Locating a path replaces the one and follows the other.
-/

namespace LexicalPaths.Act

/-- The variable that names the home folder of the user who runs the program. -/
def homeVariable : Text := "HOME".toList

/-- The home folder of the user with the given name; an empty name means the user who runs the
program, whose account counts if the environment does not say it.  A text that starts with `~` is no
home folder. -/
def home? (host : Host) (user : Text) : Option Text :=
  let home? :=
    if user = [] then (host.environment.lookup homeVariable).or host.machine.account?
    else host.homes.lookup user
  home?.filter fun home => home.head? != some '~'

/-- The home folders in a text with an account on each line: the first field is the name of the
user, and the sixth is the home folder. -/
def homesOfAccounts (t : Text) : List (Text × Text) :=
  (Text.splitAt '\n' t).filterMap fun line =>
    match Text.splitAt ':' line with
    | user :: _ :: _ :: _ :: _ :: home :: _ => some (user, home)
    | _ => none

/-- The path of a home folder; an empty text means the root. -/
def homePath (home : Text) : HostPath :=
  if home.all (· == '/') then .ofNames [] else .ofText home

/-- The path with a home folder in place of a first name that starts with `~`. -/
def expandHome (p : HostPath) : Act HostPath := do
  match p.isAbsolute, p.names with
  | false, ('~' :: user) :: rest =>
    if Text.holds '\x00' user then throw .nullCharacter
    match home? (← get) user with
    | some home => return (homePath home).join ⟨0, rest⟩
    | none => throw .noHome
  | _, _ => return p

/-- The path of the place that a path means, without links.  A link that leads back to itself is an
error if the file system meets it. -/
def resolve (p : HostPath) : Act HostPath := do
  checkPath p
  let host ← get
  let links := host.machine.links
  let found := HostPath.ofNames (links.trace (p.start host.folder) p.names).1
  match host.files.spot links host.folder found with
  | .error .loop => throw (.linkLoop found.toText)
  | _ => return found

/-- The path from the root to what a path may mean; nothing is followed. -/
def absolute (p : HostPath) : Act HostPath := do
  return (HostPath.ofNames (← get).folder).join p

/-- The place that a path means, which may start with a home folder. -/
def locate (p : HostPath) : Act HostPath := do
  resolve (← expandHome p)

end LexicalPaths.Act
