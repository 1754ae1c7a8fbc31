import LexicalPaths.Path.Root

/-!
# Lexical paths

A path is a value: the URI of the filesystem it belongs to, a root text, the text of its names,
and the separator that was found when its text was read.  It needs no filesystem to exist.

Paths that are derived from one another share one text.  A path keeps that text and says which
part of it is the root (the first `rootEnd` characters) and which part holds the names (the
offsets from `start` to `stop`).  Only the two parts can be observed.
-/

namespace LexicalPaths

/-- A path: two windows over a text, on a filesystem. -/
structure Path where
  uri : Text
  text : Text
  /-- The offset behind the root; the root starts at 0. -/
  rootEnd : Nat
  start : Nat
  stop : Nat
  separator : Char

namespace Path

open Separator

def localUri : Text := ['f', 'i', 'l', 'e', ':', '/', '/', '/']

def parentName : Text := ['.', '.']

def selfName : Text := ['.']

/-- The path with a root of the given length, all of whose text behind the root is names. -/
def withRoot (uri text : Text) (rootLength : Nat) (separator : Char) : Path where
  uri := uri
  text := text
  rootEnd := rootLength
  start := rootLength
  stop := text.length
  separator := separator

/-- Reads a path from its text; every text is one. -/
def parse (uri text : Text) : Path :=
  withRoot uri text (Root.length text) (detect text)

def rootText (p : Path) : Text :=
  p.text.take p.rootEnd

/-- The text behind the root: the names with their separators. -/
def namesText (p : Path) : Text :=
  p.text.slice p.start p.stop

/-- The text of the path, as it was read or derived. -/
def raw (p : Path) : Text :=
  p.rootText ++ p.namesText

/-- The text of the path with `/` as its separator. -/
def portableText (p : Path) : Text :=
  p.raw.replaceChar backslash [portable]

def nativeText (p : Path) : Text :=
  unify [native] p.raw

/-- Whether the character before the offset `i` is a separator. -/
def separatorBefore (p : Path) (i : Nat) : Bool :=
  match i with
  | 0 => false
  | j + 1 => p.text[j]?.any isSeparator

def isAbsolute (p : Path) : Bool :=
  p.rootEnd != 0 && p.separatorBefore p.rootEnd

def isEmpty (p : Path) : Bool :=
  p.rootEnd == 0 && p.start == p.stop

def hasTrailingSeparator (p : Path) : Bool :=
  decide (p.start < p.stop) && p.separatorBefore p.stop

/-- The offset behind the last name: one trailing separator is not part of it. -/
def namesEnd (p : Path) : Nat :=
  if p.hasTrailingSeparator then p.stop - 1 else p.stop

end Path

end LexicalPaths
