import Steward.Number.Binary64

set_option autoImplicit false

namespace Steward.Shortest

open Binary64 (bits oneUnits)

/-- The numbers that read back as `units` lie between `low` and `high`, in quarters of a unit; the
ends count if `ends` is set. -/
structure Interval where
  low : Nat
  high : Nat
  ends : Bool

def interval (units : Nat) : Interval :=
  let drop := bits units - 53
  let step := twoTo drop
  -- Below a power of two the numbers are twice as close as above it.
  let lowStep := if drop > 0 && units / step == twoTo 52 then step else 2 * step
  { low := 4 * units - lowStep, high := 4 * units + 2 * step, ends := units / step % 2 == 0 }

/-- Digits of a positive number: `0.d₁d₂… * 10 ^ point`. -/
structure Digits where
  digits : List Char
  point : Int

def Interval.holds (i : Interval) (num den : Nat) : Bool :=
  if i.ends then i.low * den ≤ num && num ≤ i.high * den
  else i.low * den < num && num < i.high * den

def gridStep (e : Int) : Nat × Nat :=
  if 0 ≤ e then (4 * oneUnits * tenTo e.toNat, 1) else (4 * oneUnits, tenTo (-e).toNat)

def onGrid? (units : Nat) (i : Interval) (e : Int) : Option Nat :=
  let (num, den) := gridStep e
  let value := 4 * units * den
  let below := value / num
  let above := below + 1
  let belowFits := below ≠ 0 && i.holds (below * num) den
  let aboveFits := i.holds (above * num) den
  if belowFits && aboveFits then
    -- The nearer of the two, and the even one if both are as near.
    let distBelow := value - below * num
    let distAbove := above * num - value
    if distBelow < distAbove || (distBelow == distAbove && below % 2 == 0) then some below
    else some above
  else if belowFits then some below
  else if aboveFits then some above
  else none

-- Tries the grids from coarse to fine; seventeen digits always suffice.
def search (units : Nat) (i : Interval) : Nat → Int → Nat × Int
  | 0, e => (units, e)
  | n + 1, e =>
    match onGrid? units i e with
    | some d => (d, e)
    | none => search units i n (e - 1)

def topExponent (units : Nat) : Int := ((bits units : Int) - 1074) * 30103 / 100000 + 2

def shortest (units : Nat) : Digits :=
  let (d, e) := search units (interval units) 25 (topExponent units)
  let digits := (toString d).toList
  { digits, point := e + digits.length }

def zeros (n : Int) : List Char := List.replicate n.toNat '0'

def scientific (d : Digits) : List Char :=
  let n : Int := d.digits.length
  if n ≤ d.point && d.point ≤ 16 then d.digits ++ zeros (d.point - n) ++ ['.', '0']
  else if 0 < d.point && d.point ≤ 16 then
    d.digits.take d.point.toNat ++ '.' :: d.digits.drop d.point.toNat
  else if -5 < d.point && d.point ≤ 0 then ['0', '.'] ++ zeros (-d.point) ++ d.digits
  else
    let e := (toString (d.point - 1)).toList
    match d.digits with
    | [c] => c :: 'e' :: e
    | c :: cs => c :: '.' :: cs ++ 'e' :: e
    | [] => []

def positional (d : Digits) : List Char :=
  let n : Int := d.digits.length
  if n ≤ d.point then d.digits ++ zeros (d.point - n)
  else if 0 < d.point then d.digits.take d.point.toNat ++ '.' :: d.digits.drop d.point.toNat
  else ['0', '.'] ++ zeros (-d.point) ++ d.digits

end Steward.Shortest

namespace Steward.Binary64

def signText (negative : Bool) : String := if negative then "-" else ""

def documentText : Binary64 → String
  | .nan => ".nan"
  | .infinite s => signText s ++ ".inf"
  | .finite s 0 => signText s ++ "0.0"
  | .finite s u => signText s ++ String.ofList (Shortest.scientific (Shortest.shortest u))

def messageText : Binary64 → String
  | .nan => "NaN"
  | .infinite s => signText s ++ "inf"
  | .finite s 0 => signText s ++ "0"
  | .finite s u => signText s ++ String.ofList (Shortest.positional (Shortest.shortest u))

end Steward.Binary64

