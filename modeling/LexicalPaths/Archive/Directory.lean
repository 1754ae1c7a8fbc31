import LexicalPaths.Archive.Ending

/-!
# The directory of an archive

The directory lists the members of an archive one by one.  An archive can be opened if all of its
entries can be read; the first fault decides.
-/

namespace LexicalPaths.Archive

def entryMark : List UInt8 := [0x50, 0x4B, 0x01, 0x02]

/-- The size of an entry without the name, the extra fields and the comment that follow it. -/
def entrySize : Nat := 46

/-- The newest version that can be unpacked, in tenths. -/
def maxVersion : Nat := 63

/-- The flag of an entry whose name is in UTF-8; any bytes make a name without it. -/
def utf8Flag : Nat := 0x800

/-- The tag of the extra field with the numbers that have no room in an entry. -/
def largeTag : Nat := 1

/-- The number that stands for one that has no room in four bytes. -/
def maxShort : Nat := 0xFFFFFFFF

def maxLong : Nat := 0xFFFFFFFFFFFFFFFF

/-- The numbers of an entry that may have no room in it. -/
structure Measures where
  size : Nat
  packedSize : Nat
  offset : Nat
deriving DecidableEq

def Measures.ofEntry (entry : List UInt8) : Measures :=
  ⟨number entry 24 4, number entry 20 4, number entry 42 4⟩

/-- Reads a number of eight bytes in place of `value` if that is one of the stand-ins.  The result
is the number, and the bytes that are left. -/
def widened (field : Field) (standIns : List Nat) (value : Nat) (bytes : List UInt8) :
    Except Fault (Nat × List UInt8) :=
  if value ∉ standIns then .ok (value, bytes)
  else if bytes.length < 8 then .error (.missing field)
  else .ok (number bytes 0 8, bytes.drop 8)

/-- The measures with those of an extra field in place of stand-ins. -/
def Measures.widen (m : Measures) (bytes : List UInt8) : Except Fault Measures := do
  let (size, bytes) ← widened .size [maxShort, maxLong] m.size bytes
  let (packedSize, bytes) ← widened .packedSize [maxShort] m.packedSize bytes
  let (offset, _) ← widened .offset [maxShort] m.offset bytes
  return ⟨size, packedSize, offset⟩

def checkExtra (m : Measures) (extra : List UInt8) : Except Fault Unit :=
  if _h : extra.length < 4 then .ok ()
  else
    let tag := number extra 0 2
    let size := number extra 2 2
    let rest := extra.drop 4
    if rest.length < size then .error (.extraField tag size)
    else
      match if tag = largeTag then m.widen (rest.take size) else .ok m with
      | .error fault => .error fault
      | .ok m => checkExtra m (rest.drop size)
termination_by extra.length
decreasing_by simp_wf; omega

def checkName (entry name : List UInt8) : Except Fault Unit :=
  if number entry 8 2 / utf8Flag % 2 = 1 then
    match Utf8.decode name with
    | .ok _ => .ok ()
    | .error error => .error (.name error)
  else .ok ()

def checkVersion (entry : List UInt8) : Except Fault Unit :=
  if maxVersion < number entry 6 1 then .error (.version (number entry 6 1)) else .ok ()

/-- Checks an entry, whose name and extra fields follow it in `rest`. -/
def checkEntry (entry rest : List UInt8) : Except Fault Unit := do
  let nameSize := number entry 28 2
  let extraSize := number entry 30 2
  checkName entry (rest.take nameSize)
  checkVersion entry
  checkExtra (.ofEntry entry) ((rest.drop nameSize).take extraSize)

/-- The size of what follows an entry: its name, its extra fields, and its comment. -/
def tailSize (entry : List UInt8) : Nat :=
  number entry 28 2 + number entry 30 2 + number entry 32 2

def checkEntries (entries : List UInt8) : Except Fault Unit :=
  if entries = [] then .ok ()
  else if _h : entries.length < entrySize then .error .entryCut
  else if !entryMark.isPrefixOf entries then .error .entryMark
  else
    match checkEntry (entries.take entrySize) (entries.drop entrySize) with
    | .error fault => .error fault
    | .ok () => checkEntries ((entries.drop entrySize).drop (tailSize (entries.take entrySize)))
termination_by entries.length
decreasing_by simp [entrySize] at *; omega

def check (bytes : List UInt8) : Except Fault Unit := do
  checkEntries (← directory bytes)

end LexicalPaths.Archive
