import Steward.Command.Arguments
import Steward.Service.Session

set_option autoImplicit false

namespace Steward.Command

variable {ι ω : Type}

def Arguments.plan? (a : Arguments) (s : Surroundings) (audit : AuditForm) : Option ServicePlan :=
  match a.task with
  | .run listKey seconds noAutoreload => some {
      path := a.configPath s
      listKey := listKey
      period := max 1 seconds * 1000
      autoreload := if noAutoreload then some false else none
      audit := audit }
  | _ => none

def announce (name : String) (config : Section) : Act ω Unit :=
  Act.log [.debug .commands ("准备启动组件 " ++ name ++ "，配置节点 " ++ config.context)]

def crewOf (crew : Crew ι ω) : Crew ι ω := { crew with hook := some announce }

def Arguments.start (a : Arguments) (crew : Crew ι ω) (host : String) (audit : AuditForm)
    (today : Moment) (stage : Stage ω) : Session ι ω :=
  let house : House ι (Post ω) :=
    { stage := { world := Duty.ofWorld stage.world, watch := stage.watch, log := stage.log } }
  match a.plan? (crew.look stage.world) audit with
  | some plan => Session.start (crewOf crew) { hostname := host } plan today house
  | none => { house := house, ended := some none }

end Steward.Command
