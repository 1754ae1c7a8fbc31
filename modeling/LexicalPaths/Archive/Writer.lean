import LexicalPaths.Archive.Directory

/-!
# Writing archives

Archives whose members are empty.  Each member has an entry in front of it and one in the directory.
-/

namespace LexicalPaths.Archive

/-- What both entries of a member hold: version, flags, method, time, sum, sizes, and the length of
the name.  The member is empty. -/
def memberFields (name : List UInt8) : List UInt8 :=
  littleEndian 2 20 ++ littleEndian 2 utf8Flag ++ littleEndian 2 0 ++ littleEndian 2 0 ++
    littleEndian 2 0x21 ++ littleEndian 4 0 ++ littleEndian 4 0 ++ littleEndian 4 0 ++
    littleEndian 2 name.length ++ littleEndian 2 0

def memberEntry (name : List UInt8) : List UInt8 :=
  [0x50, 0x4B, 0x03, 0x04] ++ memberFields name ++ name

/-- The entry in the directory of an empty member that lies at the given offset. -/
def directoryEntry (name : List UInt8) (offset : Nat) : List UInt8 :=
  entryMark ++ littleEndian 2 20 ++ memberFields name ++ littleEndian 2 0 ++
    littleEndian 2 0 ++ littleEndian 2 0 ++ littleEndian 4 0 ++ littleEndian 4 offset ++ name

/-- The entries in the directory of empty members, the first of which lies at the given offset. -/
def directoryEntries : Nat → List (List UInt8) → List UInt8
  | _, [] => []
  | offset, name :: names =>
    directoryEntry name offset ++ directoryEntries (offset + (memberEntry name).length) names

def ofNames (names : List Text) : List UInt8 :=
  let names := names.map Utf8.encode
  let members := names.flatMap memberEntry
  let entries := directoryEntries 0 names
  members ++ entries ++ endMark ++ littleEndian 4 0 ++ littleEndian 2 names.length ++
    littleEndian 2 names.length ++ littleEndian 4 entries.length ++
    littleEndian 4 members.length ++ littleEndian 2 0

end LexicalPaths.Archive
