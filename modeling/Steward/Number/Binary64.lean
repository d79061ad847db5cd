import Steward.Number.Power

/-!
Numbers of the 64-bit binary floating format, as exact values. A finite number is a whole count of
units of 2^-1074 with at most 53 significant bits; every operation is the exact one followed by
`roundUnits`, which takes the nearest representable count and the even one on a tie.
-/

set_option autoImplicit false

namespace Steward

inductive Binary64
  | finite (negative : Bool) (units : Nat)
  | infinite (negative : Bool)
  | nan
  deriving DecidableEq, Repr, Inhabited

namespace Binary64

/-- The quotient rounded to the nearest whole number, to the even one on a tie. -/
def divNearest (num den : Nat) : Nat :=
  let q := num / den
  let twice := 2 * (num % den)
  if twice > den || (twice == den && q % 2 == 1) then q + 1 else q

def bits (n : Nat) : Nat := if n = 0 then 0 else n.log2 + 1

def oneUnits : Nat := twoTo 1074

def limitUnits : Nat := twoTo 2098

def roundUnits (negative : Bool) (num den : Nat) : Binary64 :=
  let drop := bits (num / den) - 53
  let units := divNearest num (den * twoTo drop) * twoTo drop
  if units < limitUnits then .finite negative units else .infinite negative

def zero : Binary64 := .finite false 0

def ofNat (n : Nat) : Binary64 := roundUnits false (n * oneUnits) 1

def ofInt (i : Int) : Binary64 := roundUnits (i < 0) (i.natAbs * oneUnits) 1

def ofDecimal (negative : Bool) (digits : Nat) (exponent : Int) : Binary64 :=
  if digits = 0 then .finite negative 0
  else if exponent > 400 then .infinite negative
  else if exponent + Int.ofNat (bits digits) < -400 then .finite negative 0
  else if 0 ≤ exponent then roundUnits negative (digits * tenTo exponent.toNat * oneUnits) 1
  else roundUnits negative (digits * oneUnits) (tenTo (-exponent).toNat)

def isNaN : Binary64 → Bool
  | .nan => true
  | _ => false

def isFinite : Binary64 → Bool
  | .finite .. => true
  | _ => false

def isNegative : Binary64 → Bool
  | .finite s _ | .infinite s => s
  | .nan => false

def isZero : Binary64 → Bool
  | .finite _ 0 => true
  | _ => false

def abs : Binary64 → Binary64
  | .finite _ u => .finite false u
  | .infinite _ => .infinite false
  | .nan => .nan

def neg : Binary64 → Binary64
  | .finite s u => .finite (!s) u
  | .infinite s => .infinite (!s)
  | .nan => .nan

def signed (negative : Bool) (units : Nat) : Int := if negative then -units else units

def add : Binary64 → Binary64 → Binary64
  | .nan, _ | _, .nan => .nan
  | .infinite s, .infinite t => if s = t then .infinite s else .nan
  | .infinite s, _ | _, .infinite s => .infinite s
  | .finite s u, .finite t v =>
    let total := signed s u + signed t v
    if total = 0 then .finite (s && t) 0
    else roundUnits (total < 0) total.natAbs 1

def sub (a b : Binary64) : Binary64 := a.add b.neg

def mul : Binary64 → Binary64 → Binary64
  | .nan, _ | _, .nan => .nan
  | .infinite s, .infinite t => .infinite (s != t)
  | .infinite s, .finite t u | .finite s u, .infinite t =>
    if u = 0 then .nan else .infinite (s != t)
  | .finite s u, .finite t v => roundUnits (s != t) (u * v) oneUnits

def lt : Binary64 → Binary64 → Bool
  | .nan, _ | _, .nan => false
  | .infinite s, .infinite t => s && !t
  | .infinite s, _ => s
  | _, .infinite t => !t
  | .finite s u, .finite t v => signed s u < signed t v

/-- Numerical equality: the two zeros are equal, and no number equals a NaN. -/
def eq : Binary64 → Binary64 → Bool
  | .nan, _ | _, .nan => false
  | .infinite s, .infinite t => s == t
  | .finite s u, .finite t v => signed s u == signed t v
  | _, _ => false

def max (a b : Binary64) : Binary64 := if a.isNaN then b else if a.lt b then b else a

def round : Binary64 → Binary64
  | .finite s u => roundUnits s ((2 * u + oneUnits) / (2 * oneUnits) * oneUnits) 1
  | x => x

def isWhole : Binary64 → Bool
  | .finite _ u => u % oneUnits == 0
  | _ => false

def isEven : Binary64 → Bool
  | .finite _ u => u % (2 * oneUnits) == 0
  | _ => false

/-- The whole part, moved to the nearer bound where it lies outside `lo … hi`; zero for a NaN. -/
def clampToInt (lo hi : Int) : Binary64 → Int
  | .nan => 0
  | .infinite s => if s then lo else hi
  | .finite s u => Min.min hi (Max.max lo (signed s (u / oneUnits)))

theorem divNearest_mul_right (q d : Nat) (h : 0 < d) : divNearest (q * d) d = q := by
  simp only [divNearest, Nat.mul_div_cancel _ h, Nat.mul_mod_left]
  have hd : 0 ≠ d := by omega
  rw [if_neg (by simp [hd])]

theorem roundUnits_exact (s : Bool) (u : Nat) (h : bits u ≤ 53) (hl : u < limitUnits) :
    roundUnits s u 1 = .finite s u := by
  have hd : bits u - 53 = 0 := by omega
  have hq : divNearest u 1 = u := by
    have := divNearest_mul_right u 1 (by decide)
    rwa [Nat.mul_one] at this
  simp [roundUnits, hd, hq, hl, twoTo_zero]

end Binary64

end Steward
