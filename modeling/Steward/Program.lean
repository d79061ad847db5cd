import Steward.Command.Run
import Steward.Command.Validate
import Steward.Component.Builtin
import Steward.Log.Line
import Steward.Log.Setup

set_option autoImplicit false

namespace Steward

structure Program where
  arguments : Command.Arguments
  host : String
  printed : List String := []
  session : Session Instance Machine
  deriving Inhabited

namespace Program

def filterVariable : String := "RUST_LOG"

def openingNotes : List Record :=
  [LogState.doneNote, .info .program ("Service Backbone v" ++ Command.programVersion ++ " 启动")] ++
    Instance.registrationNotes

def logConfig (a : Command.Arguments) : LogConfig := { level := some a.level, json := a.jsonLogs }

def types : Registry HelpDoc := Instance.makers.map Maker.help

def stageOf (m : Machine) (l : Loading) : Stage (Machine) := ⟨m, l.watch, l.notes⟩

def start (a : Command.Arguments) (host time : String) (m : Machine) : Program :=
  let form := (LogState.ofConfig (logConfig a)).auditForm time
  let (o, l) := a.perform types host m.look { notes := openingNotes }
  let session := a.start Instance.crew host form m.calendar (stageOf m l)
  { arguments := a
    host := host
    printed := o.lines
    session := if session.isOver && o.fault?.isSome then { session with ended := some o.fault? }
      else session }

def policy (p : Program) : Policy := { hostname := p.host }

def machine (p : Program) : Machine := p.session.house.stage.world.world.world

def onMachine (p : Program) (m : Machine) : Program :=
  { p with session.house.stage.world.world.world := m }

def atTime (p : Program) (time : String) : Program :=
  { p with session.plan.audit := (LogState.ofConfig (logConfig p.arguments)).auditForm time }

def hear (p : Program) (s : Signal) : Program :=
  { p with session := p.session.hear (Command.crewOf Instance.crew) p.policy s }

def pass (p : Program) (n : Nat) : Program :=
  { p with session := p.session.pass (Command.crewOf Instance.crew) p.policy n }

def isOver (p : Program) : Bool := p.session.isOver

def failureNote (f : Fault) : Record :=
  .error .program ("命令执行失败: " ++ f.message ++ ": " ++ f.causeMessage)

def log (p : Program) : List Record :=
  p.session.house.stage.log ++ (p.session.ended.join.toList.map failureNote)

def shownLog (p : Program) (env : String → Option String) : List Record :=
  ((logConfig p.arguments).filter ((env filterVariable).getD "")).select p.log

def exitCode (p : Program) : Nat := if p.session.ended.join.isSome then 1 else 0

end Program

namespace Command.UsageFault

def exitCode : UsageFault → Nat
  | .help | .version => 0
  | _ => 2

def usageLines : List String :=
  [programDescription, "", "Usage: " ++ programName ++ " [OPTIONS] <COMMAND>", "",
    "Commands: " ++ ", ".intercalate commands]

def printed : UsageFault → List String
  | .version => [programName ++ " " ++ programVersion]
  | .help => usageLines
  | _ => []

def message : UsageFault → String
  | .unknownArgument => "unexpected argument"
  | .invalidValue => "invalid value"
  | .invalidSubcommand => "unrecognized subcommand"
  | .valueValidation => "invalid count"
  | .conflict => "an argument is given twice"
  | .missingSubcommand | .missingHelp => "a subcommand is required"
  | .tooManyValues => "unexpected value"
  | .help | .version => ""

end Command.UsageFault

end Steward
