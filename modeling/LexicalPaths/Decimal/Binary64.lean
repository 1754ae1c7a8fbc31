/-!
# Binary64 numbers

The values of 64-bit binary floating point, held exactly: a finite one is a natural significand
times a power of two.  Decimals are rounded to the nearest value, and to the even significand when
two values are equally near.
-/

namespace LexicalPaths

/-- A value of 64-bit binary floating point. -/
inductive Binary64 where
  /-- The number `significand * 2 ^ exponent`, with a sign that zero has too. -/
  | finite (negative : Bool) (significand : Nat) (exponent : Int)
  | infinite (negative : Bool)
  | notNumber
deriving DecidableEq

namespace Binary64

def minExponent : Int := -1074

def maxExponent : Int := 971

def zero (negative : Bool) : Binary64 :=
  .finite negative 0 minExponent

def isZero : Binary64 → Bool
  | .finite _ significand _ => significand == 0
  | _ => false

/-- The natural number nearest to `n / d`; of two, the even one. -/
def roundRatio (n d : Nat) : Nat :=
  let floor := n / d
  let twice := 2 * (n % d)
  if twice < d ∨ (twice = d ∧ floor % 2 = 0) then floor else floor + 1

def powTwo (n : Nat) : Nat := Nat.pow 2 n

def powTen (n : Nat) : Nat := Nat.pow 10 n

/-- The exponent `e` with `2 ^ e ≤ n / d < 2 ^ (e + 1)`, for positive `n` and `d`. -/
def binaryExponent (n d : Nat) : Int :=
  let e : Int := (n.log2 : Int) - d.log2
  if d * powTwo e.toNat ≤ n * powTwo (-e).toNat then e else e - 1

/-- The value nearest to `n / d`, for positive `n` and `d`. -/
def ofRatio (negative : Bool) (n d : Nat) : Binary64 :=
  let e := max minExponent (binaryExponent n d - 52)
  let significand := roundRatio (n * powTwo (-e).toNat) (d * powTwo e.toNat)
  -- rounding may carry into a 54th bit
  let (significand, e) :=
    if significand = powTwo 53 then (powTwo 52, e + 1) else (significand, e)
  if maxExponent < e then .infinite negative else .finite negative significand e

/-- The value nearest to `digits * 10 ^ exponent`. -/
def ofDecimal (negative : Bool) (digits : Nat) (exponent : Int) : Binary64 :=
  if digits = 0 then zero negative
  else
    let size := (Nat.toDigits 10 digits).length + exponent
    if 310 < size then .infinite negative
    else if size < -326 then zero negative
    else ofRatio negative (digits * powTen exponent.toNat) (powTen (-exponent).toNat)

end Binary64

end LexicalPaths
