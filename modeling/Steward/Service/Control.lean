import Steward.Log.Record

set_option autoImplicit false

namespace Steward

inductive ControlEvent
  | reload
  | shutdown
  deriving DecidableEq, Repr, Inhabited

inductive Signal
  | hangup
  | terminate
  | interrupt
  deriving DecidableEq, Repr, Inhabited

namespace Signal

def event : Signal → ControlEvent
  | .hangup => .reload
  | _ => .shutdown

def message : Signal → String
  | .hangup => "接收到 SIGHUP 信号，重新加载配置..."
  | .terminate => "接收到 SIGTERM 信号，开始优雅关闭..."
  | .interrupt => "接收到 SIGINT 信号，开始优雅关闭..."

end Signal

structure Listening where
  signals : Bool := true
  interrupt : Bool := true
  taken : Bool := true
  deriving DecidableEq, Repr, Inhabited

namespace Listening

structure Heard where
  next : Listening
  events : List ControlEvent := []
  notes : List Record := []
  deriving DecidableEq, Repr

def Heard.and (h : Heard) (f : Listening → Heard) : Heard :=
  let more := f h.next
  ⟨more.next, h.events ++ more.events, h.notes ++ more.notes⟩

def hearSignal (s : Signal) (l : Listening) : Heard :=
  if !l.signals then { next := l }
  else if l.taken then
    { next := { l with signals := s.event = .reload }
      events := [s.event]
      notes := [.info .signals s.message] }
  else
    { next := { l with signals := false }
      notes := [.info .signals s.message, .debug .signals "控制通道已关闭，停止监听信号"] }

def hearInterrupt (s : Signal) (l : Listening) : Heard :=
  if s = .interrupt && l.interrupt then
    { next := { l with interrupt := false }
      events := if l.taken then [.shutdown] else []
      notes := .info .signals "接收到 Ctrl+C，开始优雅关闭..." ::
        if l.taken then [] else [.error .signals "发送关闭信号失败: channel closed"] }
  else { next := l }

def hear (l : Listening) (s : Signal) : Heard := (hearSignal s l).and (hearInterrupt s)

def close (l : Listening) : Listening := { l with taken := false }

def isClosed (l : Listening) : Bool := !l.taken || (!l.signals && !l.interrupt)

theorem events_hear_of_closed {l : Listening} (h : l.taken = false) (s : Signal) :
    (l.hear s).events = [] := by
  cases l with
  | mk signals interrupt taken =>
    subst h
    cases signals <;> cases interrupt <;> cases s <;> rfl

end Listening

end Steward
