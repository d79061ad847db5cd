import Steward.Number.Power

set_option autoImplicit false

namespace Steward

structure Span where
  nanos : Nat
  deriving DecidableEq, Repr, Inhabited

namespace Span

def zero : Span := ⟨0⟩

def ofSeconds (n : Nat) : Span := ⟨n * 1000000000⟩

def ofMillis (n : Nat) : Span := ⟨n * 1000000⟩

def longest : Span := ⟨wordLimit * 1000000000 - 1⟩

def isZero (s : Span) : Bool := s.nanos == 0

def scale (s : Span) (n : Nat) : Span :=
  if s.nanos * n ≤ longest.nanos then ⟨s.nanos * n⟩ else longest

def max (a b : Span) : Span := if a.nanos < b.nanos then b else a

def millisUp (s : Span) : Nat := (s.nanos + 999999) / 1000000

def trimZeros (cs : List Char) : List Char := (cs.reverse.dropWhile (· == '0')).reverse

def decimalText (whole part scale : Nat) (unit : String) : String :=
  let digits := (toString (part + scale)).toList.drop 1
  match trimZeros digits with
  | [] => toString whole ++ unit
  | fraction => toString whole ++ "." ++ String.ofList fraction ++ unit

def text (s : Span) : String :=
  let n := s.nanos
  if n ≥ 1000000000 then decimalText (n / 1000000000) (n % 1000000000) 1000000000 "s"
  else if n ≥ 1000000 then decimalText (n / 1000000) (n % 1000000) 1000000 "ms"
  else if n ≥ 1000 then decimalText (n / 1000) (n % 1000) 1000 "µs"
  else toString n ++ "ns"

theorem le_max_left (a b : Span) : a.nanos ≤ (max a b).nanos := by
  unfold max
  split <;> omega

theorem le_max_right (a b : Span) : b.nanos ≤ (max a b).nanos := by
  unfold max
  split <;> omega

end Span

end Steward
