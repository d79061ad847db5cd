import Steward.Document.Listing

set_option autoImplicit false

namespace Steward

/-- A step reads from a section and gives the targets that it has changed. -/
abbrev Step (τ : Type) := Section → τ → Load τ

namespace Step

variable {τ α : Type} [Typed α]

def required (α : Type) [Typed α] (key : String) (checks : List (Check α) := []) : Step τ :=
  fun sec t => do
    let _ ← sec.fetch key fun sec s key => sec.require s key checks
    return t

def optional (α : Type) [Typed α] (key : String) : Step τ := fun sec t => do
  let _ ← sec.fetch key fun sec s key => sec.get (α := α) s key
  return t

def readField (key : String) (set : α → τ → τ) (checks : List (Check α) := []) : Step τ :=
  fun sec t => do
    match ← sec.fetch key fun sec s key => sec.getChecked s key checks with
    | some a => return set a t
    | none => return t

def readRequired (key : String) (set : α → τ → τ) (checks : List (Check α) := []) : Step τ :=
  fun sec t => do
    return set (← sec.fetch key fun sec s key => sec.require s key checks) t

def readOptional (key : String) (set : Option α → τ → τ) (checks : List (Check α) := []) :
    Step τ :=
  fun sec t => do
    return set (← sec.fetch key fun sec s key => sec.getChecked s key checks) t

def subsection (key : String) (set : Section → τ → τ) : Step τ := fun sec t => do
  return set (← sec.getSection key) t

def list (key : String) (set : Listing → τ → τ) : Step τ := fun sec t => do
  return set (← sec.getList key) t

def ensure (test : τ → Except CheckFault Unit) : Step τ := fun sec t =>
  match test t with
  | .ok () => return t
  | .error cause => throw (.refused sec.context cause)

def check {β : Type} (key : String) (value : τ → β) (checks : List (Check β)) : Step τ :=
  fun sec t =>
    match Check.run checks (value t) with
    | .ok () => return t
    | .error cause => throw (.refused (sec.placeOf key) cause)

end Step

structure Reading (τ : Type) where
  sec : Section
  targets : τ
  fault : Option ConfigFault := none

namespace Reading

variable {τ : Type}

def start (sec : Section) (targets : τ) : Reading τ := { sec, targets }

def isOk (r : Reading τ) : Bool := r.fault.isNone

def next (r : Reading τ) (step : Step τ) : Load (Reading τ) :=
  match r.fault with
  | some _ => return r
  | none => do
    try
      return { r with targets := ← step r.sec r.targets }
    catch fault =>
      return { r with fault := some fault }

def finish (r : Reading τ) : Except ConfigFault τ :=
  match r.fault with
  | some fault => .error fault
  | none => .ok r.targets

def run (sec : Section) (targets : τ) (steps : List (Step τ)) : Load τ := do
  liftM (← steps.foldlM next (start sec targets)).finish

theorem next_of_fault {r : Reading τ} {fault : ConfigFault} (h : r.fault = some fault)
    (step : Step τ) : r.next step = pure r := by
  simp [next, h]

end Reading

end Steward
