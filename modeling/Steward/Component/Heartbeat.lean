import Steward.Component.Machine
import Steward.Document.Reading

set_option autoImplicit false

namespace Steward.Heartbeat

def kindName : String := "heartbeat"

structure Settings where
  interval : Span := .ofSeconds 10
  message : String := "alive"
  deriving DecidableEq, Repr, Inhabited

def settingSteps : List (Step Settings) :=
  [Step.readField "interval" (fun interval t => { t with interval }) [Check.notZero],
    Step.readField "message" (fun message t => { t with message })]

def Settings.ofSection (config : Section) : Load Settings := Reading.run config {} settingSteps

def ofSettings (s : Settings) : Heartbeat := { interval := s.interval, message := s.message }

def keeps (h : Heartbeat) (s : Settings) : Bool := !h.interval.isZero && h.interval == s.interval

def begin_ (h : Heartbeat) (name : String) (now : Nat) : Heartbeat :=
  match h.due with
  | some _ => h
  | none => { h with name, due := some now }

def dueCount (h : Heartbeat) (now : Nat) : Nat :=
  match h.due with
  | some due => if due ≤ now then (now - due) / (h.interval.nanos.max 1) + 1 else 0
  | none => 0

def advance (h : Heartbeat) (now : Nat) : Heartbeat :=
  let n := h.dueCount now
  { h with beats := h.beats + n, due := h.due.map (· + n * h.interval.nanos.max 1) }

def beatRecord (h : Heartbeat) : Record :=
  ⟨.info, .builtins, h.message, [("component", .bare h.name)]⟩

def records (h : Heartbeat) (now : Nat) : List Record :=
  List.replicate (h.dueCount now) h.beatRecord

def make (h : Heartbeat) : Act Machine Nat := do
  let id ← Act.freshId
  Act.change fun m => { m with heartbeats := m.heartbeats ++ [(id, h)] }
  return id

def get (id : Nat) : Act Machine Heartbeat := return ((← Act.world).heartbeat? id).getD {}

def set (id : Nat) (h : Heartbeat) : Act Machine Unit := Act.change fun m => m.setHeartbeat id h

def start (id : Nat) (name : String) : Act Machine Unit := do
  set id ((← get id).begin_ name (← Act.world).nanos)

def stop (id : Nat) (name : String) : Act Machine Unit := do
  let h ← get id
  if h.due.isSome then
    set id { h with due := none }
    Act.log [.debug .builtins ("心跳组件 " ++ name ++ " 已停止")]

def reload (id : Nat) (name : String) (config : Section) : Act Machine (Reload Nat) := do
  let s ← Act.load' (Settings.ofSection config)
  let h ← get id
  if h.keeps s then
    Act.log [.debug .builtins ("心跳组件 " ++ name ++ " 原地更新消息")]
    set id { h with message := s.message }
    return .inPlace
  else return .replace (← make (ofSettings s))

def help : HelpDoc :=
  (({ description := "按固定间隔输出心跳日志" } : HelpDoc).optional "interval" "duration"
      "心跳间隔，修改后替换实例" (some "10s")).optional "message" "string"
    "心跳消息，修改后原地生效" (some "alive")

def prototype : Prototype Nat Machine := ⟨make {}, reload, help⟩

theorem keeps_of_blank (s : Settings) : keeps {} s = false := by
  simp [keeps, Span.isZero, Span.zero]

end Steward.Heartbeat

namespace Steward.Machine

def beat (s : Stage Machine) : Stage Machine :=
  let now := s.world.nanos
  { s with
    log := s.log ++ s.world.heartbeats.flatMap fun e => e.2.records now
    world := { s.world with
      heartbeats := s.world.heartbeats.map fun e => (e.1, e.2.advance now) } }

def pass (n : Nat) (s : Stage Machine) : Stage Machine :=
  beat { s with world := { s.world with now := s.world.now + n } }

end Steward.Machine
