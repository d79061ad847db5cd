import Steward.Component.Contract
import Steward.Component.Spec
import Steward.Number.Power

set_option autoImplicit false

namespace Steward

inductive ComponentState
  | disabled
  | created
  | running
  deriving DecidableEq, Repr, Inhabited

def ComponentState.name : ComponentState → String
  | .disabled => "disabled"
  | .created => "created"
  | .running => "running"

/-- A component on the roster. A disabled one has no instance. -/
structure Member (ι : Type) where
  name : String
  kind : String
  disabled : Bool
  config : Section
  instance? : Option ι
  state : ComponentState
  deriving Inhabited

namespace Member

variable {ι : Type}

def created (spec : ComponentSpec) (i : ι) : Member ι :=
  ⟨spec.name, spec.kind, false, spec.config, some i, .created⟩

def placeholder (spec : ComponentSpec) : Member ι :=
  ⟨spec.name, spec.kind, true, spec.config, none, .disabled⟩

def isRunning (m : Member ι) : Bool := m.state == .running

def active? (m : Member ι) : Option ι := if m.isRunning then m.instance? else none

end Member

structure Status where
  name : String
  kind : String
  state : ComponentState
  deriving DecidableEq, Repr, Inhabited

def Member.status {ι : Type} (m : Member ι) : Status := ⟨m.name, m.kind, m.state⟩

structure House (ι ω : Type) where
  stage : Stage ω
  roster : Table (Member ι) := .empty
  order : List String := []
  deriving Inhabited

def House.status {ι ω : Type} (h : House ι ω) : List Status := h.roster.rows.map fun e => e.2.status

structure Policy where
  hostname : String := ""
  minBudget : Span := .ofSeconds 1
  perStart : Span := .ofMillis 50
  deriving DecidableEq, Repr, Inhabited

def Policy.startBudget (p : Policy) (count : Nat) : Span :=
  (p.perStart.scale (min count (twoTo 32 - 1))).max p.minBudget

abbrev Run (ι ω α : Type) := ExceptT Fault (StateM (House ι ω)) α

namespace Run

variable {ι ω α : Type}

def onStage (m : StateM (Stage ω) α) : Run ι ω α := ExceptT.mk fun h =>
  let (a, stage) := m h.stage
  (.ok a, { h with stage })

def act (name action : String) (m : Act ω α) : Run ι ω α := ExceptT.mk fun h =>
  let (r, stage) := m.run h.stage
  (r.mapError fun cause => .component (.lifecycle name action cause), { h with stage })

def load (look : ω → Surroundings) (m : LoadOr Fault α) : Run ι ω α := ExceptT.mk fun h =>
  let (r, l) := m.runOn (look h.stage.world) h.stage.loading
  (r, { h with stage := h.stage.withLoading l })

def log (records : List Record) : Run ι ω Unit := onStage (modify fun s => s.write records)

def member? (name : String) : Run ι ω (Option (Member ι)) := return (← get).roster.get? name

def enroll (m : Member ι) : Run ι ω Unit :=
  modify fun h => { h with roster := h.roster.insert m.name m }

def strike (name : String) : Run ι ω Unit :=
  modify fun h => { h with roster := h.roster.erase name }

def alter (name : String) (f : Member ι → Member ι) : Run ι ω Unit :=
  modify fun h => { h with roster := h.roster.update name f }

def leaveOrder (name : String) : Run ι ω Unit :=
  modify fun h => { h with order := h.order.filter (· ≠ name) }

def joinOrder (name : String) : Run ι ω Unit :=
  modify fun h => { h with order := h.order ++ [name] }

def attempt (m : Run ι ω Unit) : Run ι ω (Option Fault) := ExceptT.mk fun h =>
  match m.run h with
  | (.ok (), h) => (.ok none, h)
  | (.error fault, h) => (.ok (some fault), h)

def event (level : Level) (event name kind message : String) : Run ι ω Unit :=
  log [⟨level, .supervision, message,
    [("event", .text event), ("component", .bare name), ("kind", .bare kind)]⟩]

end Run

end Steward
