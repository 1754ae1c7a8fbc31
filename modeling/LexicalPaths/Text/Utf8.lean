import LexicalPaths.Text.Digits

/-!
# UTF-8

Texts as bytes and back.  Reading goes character by character; bytes that begin no character are a
fault with an extent, so that a reader may either stop there or put a replacement character in
their place and go on.
-/

namespace LexicalPaths.Utf8

def encodeChar (c : Char) : List UInt8 :=
  let n := c.toNat
  if n < 0x80 then [UInt8.ofNat n]
  else if n < 0x800 then [UInt8.ofNat (0xC0 + n / 0x40), UInt8.ofNat (0x80 + n % 0x40)]
  else if n < 0x10000 then
    [UInt8.ofNat (0xE0 + n / 0x1000), UInt8.ofNat (0x80 + n / 0x40 % 0x40),
      UInt8.ofNat (0x80 + n % 0x40)]
  else
    [UInt8.ofNat (0xF0 + n / 0x40000), UInt8.ofNat (0x80 + n / 0x1000 % 0x40),
      UInt8.ofNat (0x80 + n / 0x40 % 0x40), UInt8.ofNat (0x80 + n % 0x40)]

def encode (t : Text) : List UInt8 :=
  t.flatMap encodeChar

/-- Why bytes begin no character. -/
inductive Fault where
  | start
  /-- A byte that should continue a character does not. -/
  | continuation
  | cut
deriving DecidableEq

/-- What stands at the beginning of some bytes. -/
inductive Step where
  /-- Nothing: there are no bytes. -/
  | done
  | char (c : Char) (size : Nat)
  | fault (cause : Fault) (size : Nat)

def isTail (b : Nat) : Bool :=
  0x80 ≤ b && b ≤ 0xBF

/-- Whether `b` may follow the first byte `a` of a character with three or four bytes. -/
def isSecond (a b : Nat) : Bool :=
  isTail b && !(a == 0xE0 && b < 0xA0) && !(a == 0xED && 0xA0 ≤ b) &&
    !(a == 0xF0 && b < 0x90) && !(a == 0xF4 && 0x90 ≤ b)

/-- A character with two bytes, after its first. -/
def two (a : Nat) : List UInt8 → Step
  | [] => .fault .cut 1
  | b :: _ =>
    if isTail b.toNat then .char (Char.ofNat ((a - 0xC0) * 0x40 + (b.toNat - 0x80))) 2
    else .fault .continuation 1

/-- A character with three bytes, after its first. -/
def three (a : Nat) : List UInt8 → Step
  | [] => .fault .cut 1
  | b :: rest =>
    if !isSecond a b.toNat then .fault .continuation 1
    else
      match rest with
      | [] => .fault .cut 2
      | c :: _ =>
        if isTail c.toNat then
          .char (Char.ofNat
            ((a - 0xE0) * 0x1000 + (b.toNat - 0x80) * 0x40 + (c.toNat - 0x80))) 3
        else .fault .continuation 2

/-- A character with four bytes, after its first. -/
def four (a : Nat) : List UInt8 → Step
  | [] => .fault .cut 1
  | b :: rest =>
    if !isSecond a b.toNat then .fault .continuation 1
    else
      match rest with
      | [] => .fault .cut 2
      | c :: rest =>
        if !isTail c.toNat then .fault .continuation 2
        else
          match rest with
          | [] => .fault .cut 3
          | d :: _ =>
            if isTail d.toNat then
              .char (Char.ofNat ((a - 0xF0) * 0x40000 + (b.toNat - 0x80) * 0x1000 +
                (c.toNat - 0x80) * 0x40 + (d.toNat - 0x80))) 4
            else .fault .continuation 3

def step : List UInt8 → Step
  | [] => .done
  | a :: rest =>
    let n := a.toNat
    if n < 0x80 then .char (Char.ofNat n) 1
    else if n < 0xC2 then .fault .start 1
    else if n < 0xE0 then two n rest
    else if n < 0xF0 then three n rest
    else if n < 0xF5 then four n rest
    else .fault .start 1

/-- Bytes that are not UTF-8: where the first fault lies, how far it reaches, and which byte it
starts with. -/
structure Error where
  cause : Fault
  offset : Nat
  size : Nat
  byte : UInt8
deriving DecidableEq

def Fault.message : Fault → Text
  | .start => "invalid start byte".toList
  | .continuation => "invalid continuation byte".toList
  | .cut => "unexpected end of data".toList

/-- What an error is about: its byte, or its bytes by their offsets if there are several. -/
def Error.subject (e : Error) : Text :=
  if e.size = 1 then
    "byte 0x".toList ++ Text.hexDigits 2 e.byte.toNat ++ " in position ".toList ++
      (toString e.offset).toList
  else
    "bytes in position ".toList ++ (toString e.offset).toList ++ ['-'] ++
      (toString (e.offset + e.size - 1)).toList

def Error.message (e : Error) : Text :=
  "'utf-8' codec can't decode ".toList ++ e.subject ++ [':', ' '] ++ e.cause.message

/-- The first `fuel` characters of the bytes, which start at the given offset. -/
def decodeFrom : Nat → Nat → List UInt8 → Except Error Text
  | 0, _, _ => .ok []
  | fuel + 1, offset, bytes =>
    match step bytes with
    | .done => .ok []
    | .char c size => (decodeFrom fuel (offset + size) (bytes.drop size)).map (c :: ·)
    | .fault cause size => .error ⟨cause, offset, size, bytes.headD 0⟩

def decode (bytes : List UInt8) : Except Error Text :=
  decodeFrom bytes.length 0 bytes

/-- The character that stands for bytes that spell none. -/
def replacement : Char := '\ufffd'

/-- The first `fuel` characters of the bytes, with a replacement character for each fault. -/
def decodeReplacingFrom : Nat → List UInt8 → Text
  | 0, _ => []
  | fuel + 1, bytes =>
    match step bytes with
    | .done => []
    | .char c size => c :: decodeReplacingFrom fuel (bytes.drop size)
    | .fault _ size => replacement :: decodeReplacingFrom fuel (bytes.drop size)

/-- The text that the bytes spell, with a replacement character for each fault. -/
def decodeReplacing (bytes : List UInt8) : Text :=
  decodeReplacingFrom bytes.length bytes

end LexicalPaths.Utf8
