import Steward.Supervision.Reconcile

set_option autoImplicit false

namespace Steward.Supervisor

variable {ι ω : Type} (crew : Crew ι ω)

def unload (name : String) : Run ι ω Bool := do
  match ← Run.member? name with
  | none => return false
  | some m =>
    Run.strike name
    stopMember crew m
    Run.event .info "removed" name m.kind "组件已卸载"
    return true

def unloadNamed (name : String) : Run ι ω (Option Fault) := do
  match ← Run.member? name with
  | none => return none
  | some m => remove crew ("停止组件 " ++ ·) m

def unloadAll : Run ι ω Unit := do
  let faults ← (← get).order.reverse.mapM (unloadNamed crew)
  modify fun h => { h with roster := .empty, order := [] }
  Run.log [.info .supervision "全部组件已卸载"]
  match faults.findSome? id with
  | some fault => throw fault
  | none => return ()

end Steward.Supervisor
