import LexicalPaths.Decimal.Binary64
import LexicalPaths.Text.Basic

/-!
# Shortest decimals

The text of a binary64 number: the fewest digits that read back to it, and of those the nearest.
The digits are found by exact arithmetic on ever finer decimal grids.
-/

namespace LexicalPaths.Binary64

/-- The order of `a * 10 ^ i` and `b * 2 ^ j`. -/
def orderScaled (a : Nat) (i : Int) (b : Nat) (j : Int) : Ordering :=
  compare (a * powTen i.toNat * powTwo (-j).toNat) (b * powTwo j.toNat * powTen (-i).toNat)

/-- Whether `digits * 10 ^ i` is nearer to `m * 2 ^ q` than to any other value; an end of the
interval belongs to it when `m` is even. -/
def readsBack (m : Nat) (q : Int) (digits : Nat) (i : Int) : Bool :=
  -- below a power of two the next value is only half as far away
  let low := if m = powTwo 52 ∧ minExponent < q then 4 * m - 1 else 4 * m - 2
  let toLow := orderScaled digits i low (q - 2)
  let toHigh := orderScaled digits i (4 * m + 2) (q - 2)
  let even := m % 2 == 0
  (toLow == .gt || (even && toLow == .eq)) && (toHigh == .lt || (even && toHigh == .eq))

/-- The least `k` with `m * 2 ^ q < 10 ^ k`, for positive `m`. -/
def decimalScale (m : Nat) (q : Int) : Int :=
  let n := m * powTwo q.toNat
  let d := powTwo (-q).toNat
  if d ≤ n then (Nat.toDigits 10 (n / d)).length
  else
    match (List.range 400).find? fun j => d ≤ n * powTen (j + 1) with
    | some j => -(j : Int)
    | none => -400

/-- The multiple of `10 ^ i` that reads back to `m * 2 ^ q`, if there is one: of two neighbours
the nearer, and on a tie the even one. -/
def onGrid (m : Nat) (q i : Int) : Option Nat :=
  let below := m * powTen (-i).toNat * powTwo q.toNat / (powTwo (-q).toNat * powTen i.toNat)
  match readsBack m q below i, readsBack m q (below + 1) i with
  | true, true =>
    match orderScaled (2 * below + 1) i m (q + 1) with
    | .gt => some below
    | .lt => some (below + 1)
    | .eq => some (if below % 2 = 0 then below else below + 1)
  | true, false => some below
  | false, true => some (below + 1)
  | false, false => none

/-- The fewest digits that read back to `m * 2 ^ q`, and the offset of the decimal point from their
beginning. -/
def shortestDigits (m : Nat) (q : Int) : Text × Int :=
  let k := decimalScale m q
  let found := (List.range 17).findSome? fun (n : Nat) =>
    (onGrid m q (k - (n + 1))).map fun digits => (digits, k - (n + 1))
  let (digits, i) := found.getD (m * powTwo q.toNat / powTwo (-q).toNat, 0)
  let all := Nat.toDigits 10 digits
  ((all.reverse.dropWhile (· == '0')).reverse, all.length + i)

/-- Digits with a decimal point at the given offset: positional from four zeros behind the point
up to sixteen places before it, and otherwise with a signed exponent of at least two digits. -/
def layout (digits : Text) (point : Int) : Text :=
  if -4 < point ∧ point ≤ 16 then
    if point ≤ 0 then ['0', '.'] ++ List.replicate (-point).toNat '0' ++ digits
    else if (digits.length : Int) ≤ point then
      digits ++ List.replicate (point.toNat - digits.length) '0' ++ ['.', '0']
    else digits.take point.toNat ++ ['.'] ++ digits.drop point.toNat
  else
    let e := point - 1
    let fraction := digits.drop 1
    let size := Nat.toDigits 10 e.natAbs
    digits.take 1 ++ (if fraction.isEmpty then [] else '.' :: fraction) ++
      ['e', if e < 0 then '-' else '+'] ++ List.replicate (2 - size.length) '0' ++ size

def toText : Binary64 → Text
  | .notNumber => ['n', 'a', 'n']
  | .infinite negative => (if negative then ['-'] else []) ++ ['i', 'n', 'f']
  | .finite negative significand exponent =>
    (if negative then ['-'] else []) ++
      if significand = 0 then ['0', '.', '0']
      else
        let (digits, point) := shortestDigits significand exponent
        layout digits point

end LexicalPaths.Binary64
