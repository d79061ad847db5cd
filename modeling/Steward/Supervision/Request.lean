import Steward.Supervision.Unload

set_option autoImplicit false

namespace Steward

inductive Request
  | reconcile (list : Listing) (initial : Bool)
  | unload (name : String)
  | unloadAll

/-- The stage changes without the supervisor too: files are written, time passes. -/
inductive Event (ω : Type)
  | asked (r : Request)
  | passed (change : Stage ω → Stage ω)

variable {ι ω : Type} (crew : Crew ι ω) (p : Policy)

def Request.perform : Request → Run ι ω Unit
  | .reconcile list initial => Supervisor.reconcile crew p list initial
  | .unload name => do let _ ← Supervisor.unload crew name
  | .unloadAll => Supervisor.unloadAll crew

def Event.take (h : House ι ω) : Event ω → House ι ω
  | .asked r => ((r.perform crew p).run h).2
  | .passed change => { h with stage := change h.stage }

def House.after (h : House ι ω) (events : List (Event ω)) : House ι ω :=
  events.foldl (Event.take crew p) h

end Steward
