import Steward.Document.Loader
import Steward.Log.Audit
import Steward.Supervision.Unload
import Steward.Watch.Vigil

set_option autoImplicit false

namespace Steward

/-- What a service runs. The period is in milliseconds; without a wish for or against automatic
reloads the document decides. -/
structure ServicePlan where
  path : Path
  listKey : String := Document.defaultListKey
  period : Nat := 2000
  autoreload : Option Bool := none
  audit : AuditForm := .text
  deriving DecidableEq, Repr, Inhabited

namespace ServicePlan

def readList (o : ServicePlan) : Load Listing := do
  (← Document.ofFile o.listKey o.path).getList o.listKey

def auditRecord (o : ServicePlan) (trigger : String) (fault? : Option Fault) : Record :=
  Audit.record ⟨trigger, o.path.text, fault?.map Fault.message⟩ o.audit

def changeNotes (o : ServicePlan) (fault? : Option Fault) : List Record :=
  (fault?.toList.map fun f => .error .service ("自动重载失败: " ++ f.message)) ++
    [o.auditRecord "watch" fault?]

end ServicePlan

structure Duty (ω : Type) where
  world : ω
  reload? : Option Listing := none
  deriving Inhabited

abbrev Post (ω : Type) := Vigil (Duty ω)

namespace Duty

variable {ι ω : Type}

def ofWorld (w : ω) : Post ω := { world := { world := w } }

def setReload (list : Option Listing) : StateM (Stage (Duty ω)) Unit :=
  modify fun s => { s with world := { s.world with reload? := list } }

def log (records : List Record) : StateM (Stage (Duty ω)) Unit := modify fun s => s.write records

variable (crew : Crew ι ω) (o : ServicePlan)

def look (d : Duty ω) : Surroundings := crew.look d.world

def onChange (file : Path) : StateM (Stage (Duty ω)) Flow := do
  log [.info .service ("配置文件 " ++ file.text ++ " 已变更，重新加载")]
  let s ← get
  let (r, l) := o.readList.runOn (look crew s.world) s.loading
  set (s.withLoading l)
  match r with
  | .ok list => setReload (some list)
  | .error f => log (o.changeNotes (some (.config f)))
  return .goOn

def listener : Listener (Duty ω) where
  onChange := onChange crew o
  onError := Poll.warnError
  isBusy d := d.reload?.isSome

def pass (n : Nat) : StateM (Stage (Duty ω)) Unit :=
  Stage.within Duty.world (fun world d => { d with world }) (crew.wait n)

def crewOf : Crew ι (Post ω) :=
  crew.within (fun v => v.world.world) (fun world v => { v with world := { v.world with world } })
    (Vigil.wait (look crew) (listener crew o) (pass crew))

end Duty

end Steward
