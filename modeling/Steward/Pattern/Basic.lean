import Steward.Pattern.CharSet

/-!
Patterns over text. `Pattern.derive` gives what is left to match after one character; a search runs
all derivatives from every place side by side, so it takes no steps back. Assertions look at the
characters before and behind a place.
-/

set_option autoImplicit false

namespace Steward

/-- Assertions about a place. Lines end in a line feed; with `crlf` also in a carriage return, alone
or before a line feed. -/
inductive Assertion
  | start
  | finish
  | lineStart (crlf : Bool)
  | lineFinish (crlf : Bool)
  | boundary (unicode : Bool)
  | inside (unicode : Bool)
  | wordStart (unicode : Bool)
  | wordFinish (unicode : Bool)
  | wordStartHalf (unicode : Bool)
  | wordFinishHalf (unicode : Bool)
  deriving DecidableEq, Repr

namespace Assertion

def isWord (unicode : Bool) (c : Option Char) : Bool :=
  c.any fun c => (CharSet.word unicode).has c.toNat

def holds (before behind : Option Char) : Assertion → Bool
  | .start => before.isNone
  | .finish => behind.isNone
  | .lineStart crlf =>
    before.isNone || before == some '\n' || (crlf && before == some '\r' && behind != some '\n')
  | .lineFinish false => behind.isNone || behind == some '\n'
  | .lineFinish true =>
    behind.isNone || behind == some '\r' || (behind == some '\n' && before != some '\r')
  | .boundary u => isWord u before != isWord u behind
  | .inside u => isWord u before == isWord u behind
  | .wordStart u => !isWord u before && isWord u behind
  | .wordFinish u => isWord u before && !isWord u behind
  | .wordStartHalf u => !isWord u before
  | .wordFinishHalf u => !isWord u behind

end Assertion

inductive Pattern
  | empty
  | set (s : CharSet)
  | assertion (a : Assertion)
  | seq (p q : Pattern)
  | alt (p q : Pattern)
  | repeated (p : Pattern) (min : Nat) (max : Option Nat)
  deriving DecidableEq, Repr, Inhabited

namespace Pattern

def nullable (before behind : Option Char) : Pattern → Bool
  | .empty => true
  | .set _ => false
  | .assertion a => a.holds before behind
  | .seq p q => nullable before behind p && nullable before behind q
  | .alt p q => nullable before behind p || nullable before behind q
  | .repeated p min _ => min == 0 || nullable before behind p

def derive (before : Option Char) (c : Char) : Pattern → List Pattern
  | .empty | .assertion _ => []
  | .set s => if s.has c.toNat then [.empty] else []
  | .seq p q =>
    (derive before c p).map (fun r => if r = .empty then q else .seq r q) ++
      if nullable before (some c) p then derive before c q else []
  | .alt p q => derive before c p ++ derive before c q
  | .repeated p min max =>
    if max = some 0 then []
    else
      let min := if nullable before (some c) p then 0 else min - 1
      let rest := Pattern.repeated p min (max.map (· - 1))
      (derive before c p).map fun r => if r = .empty then rest else .seq r rest

def search (p : Pattern) (before : Option Char) (states : List Pattern) : List Char → Bool
  | [] => (p :: states).any (nullable before none)
  | c :: cs =>
    (p :: states).any (nullable before (some c)) ||
      search p (some c) ((p :: states).flatMap (derive before c)).eraseDups cs

def occursIn (p : Pattern) (text : String) : Bool := search p none [] text.toList

theorem search_of_nullable (p : Pattern) (before : Option Char) (states : List Pattern)
    (cs : List Char) (h : nullable before cs.head? p = true) :
    search p before states cs = true := by
  cases cs with
  | nil => simpa [search] using Or.inl h
  | cons c cs => simp only [List.head?_cons] at h; simp [search, h]

end Pattern

end Steward
