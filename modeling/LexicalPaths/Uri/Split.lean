import LexicalPaths.Text.Quoted
import LexicalPaths.Uri.Address

/-!
# The parts of a URI

Splitting a URI into scheme, authority, path, query and fragment.  Any text splits; only the
authority can be at fault, through its brackets or through characters that stand for a delimiter.
-/

namespace LexicalPaths.Uri

/-- The parts of a URI; a missing part is empty. -/
structure Parts where
  scheme : Text
  authority : Text
  path : Text
  query : Text
  fragment : Text
deriving DecidableEq

/-- What can be wrong with the authority of a URI. -/
inductive Error where
  | brackets
  | address (host : Text)
  /-- The brackets hold an address of version 4. -/
  | version4
  | futureVersion
  | disguised (authority : Text)
deriving DecidableEq

def Error.message : Error → Text
  | .brackets => "Invalid IPv6 URL".toList
  | .address host =>
    Text.quoted host ++ " does not appear to be an IPv4 or IPv6 address".toList
  | .version4 => "An IPv4 address cannot be in brackets".toList
  | .futureVersion => "IPvFuture address is invalid".toList
  | .disguised authority =>
    "netloc '".toList ++ authority ++
      "' contains invalid characters under NFKC normalization".toList

def isSchemeChar (c : Char) : Bool :=
  c.isAlphanum || c == '+' || c == '-' || c == '.'

/-- Whether the text is a scheme: a letter followed by letters, digits, `+`, `-` and `.`. -/
def isScheme : Text → Bool
  | [] => false
  | c :: t => c.isAlpha && t.all isSchemeChar

/-- The code points beyond ASCII whose compatibility form holds one of `/?#@:`. -/
def disguises : List Nat :=
  [0x2047, 0x2048, 0x2049, 0x2100, 0x2101, 0x2105, 0x2106, 0x2A74, 0xFE13, 0xFE16, 0xFE55, 0xFE56,
    0xFE5F, 0xFE6B, 0xFF03, 0xFF0F, 0xFF1A, 0xFF1F, 0xFF20]

def checkBracketed (host : Text) : Except Error Unit :=
  if host.head? = some 'v' then
    match Text.cut? '.' (host.drop 1) with
    | some (version, rest) =>
      if !version.isEmpty && version.all Text.isHexDigit && !rest.isEmpty then .ok ()
      else .error .futureVersion
    | none => .error .futureVersion
  else if isVersion4 host then .error .version4
  else if isVersion6 host then .ok ()
  else .error (.address host)

/-- The part of an authority behind its last `@`: the host and what follows it. -/
def hostPart (authority : Text) : Text :=
  (authority.reverse.takeWhile (· != '@')).reverse

/-- The host of an authority with brackets.  Brackets of the host itself hold all of it, and only a
colon may follow them. -/
def bracketedHost (authority : Text) : Except Error Text :=
  match (hostPart authority).cut? '[' with
  | none => .ok ((hostPart authority).before ':')
  | some (_ :: _, _) => .error .brackets
  | some ([], inside) =>
    match inside.cut? ']' with
    | none | some (_, []) | some (_, ':' :: _) => .ok (inside.before ']')
    | some (_, _ :: _) => .error .brackets

def checkBrackets (authority : Text) : Except Error Unit :=
  if authority.holds '[' != authority.holds ']' then .error .brackets
  else if authority.holds '[' then do checkBracketed (← bracketedHost authority)
  else .ok ()

/-- Checks that no character of the authority is compatible with a delimiter. -/
def checkCharacters (authority : Text) : Except Error Unit :=
  if authority.any fun c => disguises.contains c.toNat then .error (.disguised authority)
  else .ok ()

/-- The text without control characters and spaces at its beginning, and without tabs and line
ends. -/
def clean (uri : Text) : Text :=
  (uri.dropWhile fun c => c.toNat ≤ 0x20).filter fun c => c != '\t' && c != '\r' && c != '\n'

/-- The scheme in lower case and the text behind its colon; without a scheme, the whole text. -/
def splitScheme (uri : Text) : Text × Text :=
  match uri.cut? ':' with
  | some (scheme, rest) => if isScheme scheme then (scheme.map Char.toLower, rest) else ([], uri)
  | none => ([], uri)

/-- The part before the first `mark` and the part behind it; without one, the whole text and the
empty text. -/
def splitOff (mark : Char) (t : Text) : Text × Text :=
  (t.cut? mark).getD (t, [])

/-- The authority of the text behind a scheme, and what follows it. -/
def splitAuthority : Text → Text × Text
  | '/' :: '/' :: t => t.span fun c => c != '/' && c != '?' && c != '#'
  | t => ([], t)

def split (uri : Text) : Except Error Parts := do
  let (scheme, rest) := splitScheme (clean uri)
  let (authority, rest) := splitAuthority rest
  checkBrackets authority
  let (rest, fragment) := splitOff '#' rest
  let (path, query) := splitOff '?' rest
  checkCharacters authority
  return ⟨scheme, authority, path, query, fragment⟩

end LexicalPaths.Uri
