import Steward.Supervision.Roll
import Steward.Supervision.Start

set_option autoImplicit false

namespace Steward.Supervisor

variable {ι ω : Type} (crew : Crew ι ω) (p : Policy)

def knows (kind : String) : Bool := crew.makers.has kind

/-- Stops a component if it runs. It leaves the order even if the stop fails. -/
def stopMember (m : Member ι) : Run ι ω Unit :=
  match m.active? with
  | some i => do
    Run.event .info "stopping" m.name m.kind "停止组件"
    Run.leaveOrder m.name
    Run.act m.name "stop" (crew.stop i m.name)
  | none => return ()

def stopOld (old : Option (Member ι)) : Run ι ω Unit := old.forM (stopMember crew)

def disable (spec : ComponentSpec) (old : Option (Member ι)) : Run ι ω Unit := do
  stopOld crew old
  Run.event .info "disabled" spec.name spec.kind "组件已禁用"
  Run.enroll (.placeholder spec)

def create (spec : ComponentSpec) (old : Option (Member ι)) : Run ι ω Unit := do
  stopOld crew old
  Run.event .info "new" spec.name spec.kind "创建组件"
  match crew.makers.get? spec.kind with
  | some maker =>
    let i ← Run.act spec.name "create" (maker.create spec.name spec.config)
    Run.enroll (.created spec i)
  | none => throw (.component (.unknownType spec.name spec.kind))

def replace (spec : ComponentSpec) (old : Member ι) (i instead : ι) : Run ι ω Unit := do
  if old.isRunning then
    Run.event .info "stopping" spec.name old.kind "停止被替换的实例"
    Run.act spec.name "stop" (crew.stop i spec.name)
    Run.leaveOrder spec.name
  Run.enroll (.created spec instead)

def reload (spec : ComponentSpec) (old : Member ι) (i : ι) : Run ι ω Bool := do
  Run.event .info "reloading" spec.name old.kind "重新加载组件"
  match ← Run.act spec.name "reload" (crew.reload i spec.name spec.config) with
  | .inPlace =>
    Run.alter spec.name fun m => { m with config := spec.config }
    return !old.isRunning
  | .replace instead =>
    replace crew spec old i instead
    return true

def settle (spec : ComponentSpec) : Run ι ω Bool := do
  let old ← Run.member? spec.name
  if spec.disabledOn p.hostname then
    disable crew spec old
    return false
  match old with
  | some m =>
    match m.instance? with
    | some i =>
      if m.kind = spec.kind then
        let s := crew.look (← get).stage.world
        Run.log (m.config.differsNotes spec.config s)
        if m.config.differs spec.config s then reload crew spec m i
        else
          Run.event .debug "unchanged" spec.name m.kind "配置未变化"
          return false
      else
        create crew spec old
        return true
    | none =>
      create crew spec old
      return true
  | none =>
    create crew spec old
    return true

def settleAll : List ComponentSpec → Run ι ω (List String)
  | [] => return []
  | spec :: specs => do
    let starts ← settle crew p spec
    let names ← settleAll specs
    return if starts then spec.name :: names else names

def remove (what : String → String) (m : Member ι) : Run ι ω (Option Fault) := do
  Run.strike m.name
  let fault ← Run.attempt (stopMember crew m)
  Run.log (fault.toList.map fun f => .warn .supervision (what m.name ++ " 失败: " ++ f.message))
  return fault

def removeAbsent (present : List String) : Run ι ω Unit := do
  let absent := (← get).roster.rows.filter fun e => !present.contains e.1
  let faults ← absent.mapM fun (_, m) => do
    let fault ← remove crew ("停止已移除组件 " ++ ·) m
    Run.event .info "removed" m.name m.kind "组件已移除"
    return fault
  -- All of them are stopped before the first failure is reported.
  match faults.findSome? id with
  | some fault => throw fault
  | none => return ()

def readRoll (list : Listing) : Run ι ω (List ComponentSpec) :=
  Run.load crew.look (Roll.read (knows crew) list)

def validate (list : Listing) : Run ι ω (List ComponentSpec) := readRoll crew list

def reconcileSpecs (specs : List ComponentSpec) : Run ι ω Unit := do
  let queue ← settleAll crew p specs
  removeAbsent crew (specs.map (·.name))
  Start.batch crew p queue

def openPass (list : Listing) (initial : Bool) : Run ι ω (List ComponentSpec) := do
  let specs ← readRoll crew list
  Run.log [⟨.info, .supervision, "开始协调组件列表",
    [("pass", .text (if initial then "load" else "reload")), ("count", .count specs.length)]⟩]
  return specs

def reconcile (list : Listing) (initial : Bool) : Run ι ω Unit := do
  reconcileSpecs crew p (← openPass crew list initial)

end Steward.Supervisor
