import Steward.Number.Shortest
import Steward.Pattern.Reader
import Steward.Span
import Steward.Text.Blank
import Steward.Text.Quoted
import Steward.Typed.Fault

set_option autoImplicit false

namespace Steward

structure Expression where
  text : String
  pattern : Pattern
  deriving DecidableEq, Repr, Inhabited

def Expression.occursIn (e : Expression) (s : String) : Bool := e.pattern.occursIn s

abbrev Check (α : Type) := α → Except CheckFault Unit

/-- Types with bounds: an order, which need not be total, and a text for messages. -/
class Bounded (α : Type) where
  below : α → α → Bool
  text : α → String

instance : Bounded String := ⟨fun a b => a < b, id⟩

instance : Bounded Int := ⟨fun a b => a < b, toString⟩

instance : Bounded Nat := ⟨fun a b => a < b, toString⟩

instance : Bounded Binary64 := ⟨Binary64.lt, Binary64.messageText⟩

namespace Check

variable {α : Type}

def run (checks : List (Check α)) (a : α) : Except CheckFault Unit := checks.forM fun c => c a

def nonEmpty : Check String := fun s =>
  if Text.trimmed s = "" then .error .blank else .ok ()

def nonEmptyList : Check (List String) := fun xs =>
  if xs.isEmpty then .error .emptyList else .ok ()

def notZero : Check Span := fun s => if s.isZero then .error .zeroSpan else .ok ()

def oneOf (allowed : List String) : Check String := fun s =>
  if allowed.contains s then .ok () else .error (.notAllowed s (Text.quotedList allowed))

def range [Bounded α] (low high : α) : Check α := fun a =>
  if Bounded.below a low || Bounded.below high a then
    .error (.outside (Bounded.text a) (Bounded.text low) (Bounded.text high))
  else .ok ()

def atLeast [Bounded α] (low : α) : Check α := fun a =>
  if Bounded.below a low then .error (.below (Bounded.text a) (Bounded.text low)) else .ok ()

def matching (e : Expression) : Check String := fun s =>
  if e.occursIn s then .ok () else .error (.unmatched s e.text)

theorem run_nil (a : α) : run [] a = .ok () := rfl

theorem run_cons_ok (c : Check α) (cs : List (Check α)) (a : α) (h : c a = .ok ()) :
    run (c :: cs) a = run cs a := by
  simp [run, List.forM_cons, h, bind, Except.bind]

theorem run_cons_error (c : Check α) (cs : List (Check α)) (a : α) (f : CheckFault)
    (h : c a = .error f) : run (c :: cs) a = .error f := by
  simp [run, List.forM_cons, h, bind, Except.bind]

end Check

end Steward
