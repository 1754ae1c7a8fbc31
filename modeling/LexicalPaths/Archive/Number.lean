/-!
# Numbers in little-endian order

The records of an archive hold numbers of a fixed width, least byte first.
-/

namespace LexicalPaths.Archive

/-- The bytes of `n` in little-endian order. -/
def littleEndian : Nat → Nat → List UInt8
  | 0, _ => []
  | count + 1, n => UInt8.ofNat n :: littleEndian count (n / 256)

def natOfBytes : List UInt8 → Nat
  | [] => 0
  | b :: rest => b.toNat + 256 * natOfBytes rest

def number (record : List UInt8) (offset width : Nat) : Nat :=
  natOfBytes ((record.drop offset).take width)

end LexicalPaths.Archive
