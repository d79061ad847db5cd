import Steward.Service.Life

set_option autoImplicit false

namespace Steward

structure Session (ι ω : Type) where
  house : House ι (Post ω)
  plan : ServicePlan := default
  listening : Listening := {}
  ended : Option (Option Fault) := none
  deriving Inhabited

namespace Session

variable {ι ω : Type} (crew : Crew ι ω) (p : Policy)

def isOver (s : Session ι ω) : Bool := s.ended.isSome

def note (s : Session ι ω) (records : List Record) : Session ι ω :=
  { s with house.stage := s.house.stage.write records }

def proceed (s : Session ι ω) (m : Service.Life ι ω Unit) : Session ι ω :=
  if s.isOver then s else { s with house := (m.run s.house).2 }

def pass (s : Session ι ω) (n : Nat) : Session ι ω := s.proceed (Service.pass crew p s.plan n)

def end_ (s : Session ι ω) (result : Except Fault Unit × House ι (Post ω)) : Session ι ω :=
  { s with
    house := result.2
    listening := s.listening.close
    ended := some (match result.1 with | .ok () => none | .error f => some f) }

def start (o : ServicePlan) (today : Moment) (h : House ι (Post ω)) : Session ι ω :=
  match (Service.load crew p o today).run h with
  | (.ok _, h) => pass crew p { house := h, plan := o } 0
  | (.error f, h) => { house := h, plan := o, ended := some (some f) }

def take (s : Session ι ω) (e : ControlEvent) : Session ι ω :=
  if s.isOver then s
  else
    match e with
    | .reload =>
      (s.proceed (Service.tryReload crew p s.plan)).proceed (Service.attend crew p s.plan)
    | .shutdown => s.end_ ((Service.shutdown crew p s.plan).run s.house)

def hear (s : Session ι ω) (signal : Signal) : Session ι ω :=
  if s.isOver then s
  else
    let heard := s.listening.hear signal
    heard.events.foldl (take crew p) { s.note heard.notes with listening := heard.next }

theorem take_of_isOver {s : Session ι ω} (h : s.isOver = true) (e : ControlEvent) :
    take crew p s e = s := by
  simp [take, h]

theorem hear_of_isOver {s : Session ι ω} (h : s.isOver = true) (signal : Signal) :
    hear crew p s signal = s := by
  simp [hear, h]

end Session

end Steward
