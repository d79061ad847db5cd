import Steward.Service.Control
import Steward.Service.Duty

set_option autoImplicit false

namespace Steward

namespace Service

variable {ι ω : Type} (crew : Crew ι ω) (p : Policy) (o : ServicePlan)

abbrev Life (ι ω α : Type) := Run ι (Post ω) α

def autoreloadKey : String := "autoreload"

def readDocument {α : Type} (m : Load α) : Life ι ω α :=
  Run.load (Duty.crewOf crew o).look (LoadOr.mapFault Fault.config m)

def isAutomatic (root : Section) : Life ι ω Bool :=
  match o.autoreload with
  | some wish => return wish
  | none => do
    let found ← readDocument crew o
      (root.fetch autoreloadKey fun sec s key => sec.get (α := Bool) s key)
    return found.getD false

def readyMessage (count : Nat) (automatic : Bool) : String :=
  "运行时已就绪：" ++ toString count ++ " 个组件，自动重载 " ++ if automatic then "开启" else "关闭"

def load (today : Moment) : Life ι ω Bool := do
  let root ← readDocument crew o (Document.ofFile o.listKey o.path)
  let list ← readDocument crew o (root.getList o.listKey)
  Supervisor.reconcile (Duty.crewOf crew o) p list true
  let automatic ← isAutomatic crew o root
  if automatic then
    let _ ← Run.onStage (Vigil.start o.period today)
  Run.log [.info .service (readyMessage (← get).roster.size automatic)]
  return automatic

def follow (list : Listing) : Life ι ω Unit :=
  Supervisor.reconcile (Duty.crewOf crew o) p list false

def reload : Life ι ω Unit := do
  let fault? ← Run.attempt do follow crew p o (← readDocument crew o o.readList)
  Run.log [o.auditRecord "signal" fault?]
  fault?.forM throw

def attend : Life ι ω Unit := do
  match (← get).stage.world.world.reload? with
  | none => return
  | some list =>
    let fault? ← Run.attempt (follow crew p o list)
    Run.log (o.changeNotes fault?)
    Run.onStage (Vigil.inside (Duty.setReload none))

def passIn : Nat → Nat → Life ι ω Unit
  | 0, _ => return
  | rounds + 1, n => do
    attend crew p o
    let start := (← get).stage.world.now
    let left ← Run.onStage
      (Vigil.waitOpen (Duty.look crew) (Duty.listener crew o) (Duty.pass crew) n)
    if (← get).stage.world.world.reload?.isSome then
      attend crew p o
      passIn rounds (start + n - (← get).stage.world.now)
    else if left > 0 then passIn rounds left
    else return

def pass (n : Nat) : Life ι ω Unit := passIn crew p o (Vigil.roundsIn n) n

def shutdown : Life ι ω Unit := do
  Run.onStage Vigil.stop
  pass crew p o 0
  Run.log [.info .service "卸载全部组件"]
  Supervisor.unloadAll (Duty.crewOf crew o)

def tryReload : Life ι ω Unit := do
  let fault? ← Run.attempt (reload crew p o)
  Run.log (fault?.toList.map fun f => .warn .service ("重新加载失败: " ++ f.message))

def serve : List ControlEvent → Life ι ω Unit
  | .reload :: events => do
    tryReload crew p o
    serve events
  -- When no more events can come, the service ends as if it were asked to.
  | _ => shutdown crew p o

end Service

end Steward
