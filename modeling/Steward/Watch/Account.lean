import Steward.Watch.Vigil

set_option autoImplicit false

namespace Steward

inductive Sighting
  | change (file : Path)
  | error (file : Path) (fault : FileFault)
  deriving DecidableEq, Repr, Inhabited

/-- How many changes and errors a listener waits for; without a number, for no end of them. Errors
are left out of a lenient account. -/
structure Patience where
  changes : Option Nat := none
  errors : Option Nat := none
  lenient : Bool := false
  deriving DecidableEq, Repr, Inhabited

structure Account where
  files : FileTree := .empty
  changes : Nat := 0
  errors : Nat := 0
  sightings : List Sighting := []
  deriving Inhabited

namespace Account

def look (a : Account) : Surroundings := a.files.surroundings fun _ => none

def flowAt (limit : Option Nat) (count : Nat) : Flow :=
  match limit with
  | some n => if n ≤ count then .done else .goOn
  | none => .goOn

def onChange (p : Patience) (file : Path) : StateM (Stage Account) Flow := do
  modify fun s => { s with world := { s.world with
    changes := s.world.changes + 1
    sightings := s.world.sightings ++ [.change file] } }
  return flowAt p.changes (← get).world.changes

def onError (p : Patience) (file : Path) (fault : FileFault) : StateM (Stage Account) Flow := do
  if p.lenient then Poll.warnError file fault
  else
    modify fun s => { s with world := { s.world with
      errors := s.world.errors + 1
      sightings := s.world.sightings ++ [.error file fault] } }
    return flowAt p.errors (← get).world.errors

def listener (p : Patience) : Listener Account := { onChange := onChange p, onError := onError p }

def wait (p : Patience) (n : Nat) : Vigil.Step Account Unit :=
  Vigil.wait look (listener p) (fun _ => return ()) n

end Account

end Steward
