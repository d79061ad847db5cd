import Steward.Component.Contract

set_option autoImplicit false

namespace Steward

structure Heartbeat where
  interval : Span := .zero
  message : String := ""
  beats : Nat := 0
  name : String := ""
  due : Option Nat := none
  deriving DecidableEq, Repr, Inhabited

/-- The file of a component, and whether the component has written it. -/
structure PidFile where
  path : Path
  written : Bool
  deriving DecidableEq, Repr, Inhabited

structure Machine where
  files : FileTree := .empty
  vars : List (String × String) := []
  processId : Nat := 1
  now : Nat := 0
  calendar : Moment := 0
  heartbeats : List (Nat × Heartbeat) := []
  pidFiles : Table PidFile := .empty
  fresh : Nat := 0
  deriving Inhabited

namespace Machine

def look (m : Machine) : Surroundings := m.files.surroundings fun name => m.vars.lookup name

def nanos (m : Machine) : Nat := m.now * 1000000

def heartbeat? (m : Machine) (id : Nat) : Option Heartbeat := m.heartbeats.lookup id

def setHeartbeat (m : Machine) (id : Nat) (h : Heartbeat) : Machine :=
  { m with heartbeats := m.heartbeats.map fun e => if e.1 = id then (id, h) else e }

end Machine

namespace Act

def load' {α : Type} (m : Load α) : Act Machine α := Act.load Machine.look m

def freshId : Act Machine Nat := do
  let m ← world
  change fun m => { m with fresh := m.fresh + 1 }
  return m.fresh

def onFiles (what : String) (f : FileTree → Except FileFault FileTree) : Act Machine Unit := do
  match f (← world).files with
  | .ok files => change fun m => { m with files }
  | .error fault => throw (what ++ ": " ++ fault.message)

end Act

end Steward
