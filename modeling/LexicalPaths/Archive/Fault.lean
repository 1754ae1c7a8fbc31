import LexicalPaths.Text.Utf8

/-!
# Faults of archives

Why bytes are not those of an archive that can be opened.
-/

namespace LexicalPaths.Archive

/-- A number of a directory entry that may need more room than the entry has for it. -/
inductive Field where
  | size
  | packedSize
  | offset
deriving DecidableEq

def Field.name : Field → Text
  | .size => "File size".toList
  | .packedSize => "Compress size".toList
  | .offset => "Header offset".toList

/-- Why bytes are no archive. -/
inductive Fault where
  | ending
  | severalDisks
  | directoryPlace
  | entryCut
  /-- An entry of the directory does not start with its mark. -/
  | entryMark
  | name (error : Utf8.Error)
  /-- A member is packed by too new a version, counted in tenths. -/
  | version (tenths : Nat)
  | extraField (tag size : Nat)
  /-- A number that has no room in an entry is missing among the extra fields. -/
  | missing (field : Field)
deriving DecidableEq

def Fault.message : Fault → Text
  | .ending => "File is not a zip file".toList
  | .severalDisks => "zipfiles that span multiple disks are not supported".toList
  | .directoryPlace => "Bad offset for central directory".toList
  | .entryCut => "Truncated central directory".toList
  | .entryMark => "Bad magic number for central directory".toList
  | .name error => error.message
  | .version tenths =>
    "zip file version ".toList ++ (toString (tenths / 10)).toList ++ ['.'] ++
      (toString (tenths % 10)).toList
  | .extraField tag size =>
    "Corrupt extra field ".toList ++ Text.hexDigits 4 tag ++ " (size=".toList ++
      (toString size).toList ++ [')']
  | .missing field => "Corrupt zip64 extra field. ".toList ++ field.name ++ " not found.".toList

end LexicalPaths.Archive
