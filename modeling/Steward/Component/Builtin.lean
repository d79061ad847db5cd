import Steward.Component.Heartbeat
import Steward.Component.PidFile

set_option autoImplicit false

namespace Steward

inductive Instance
  | heartbeat (id : Nat)
  | pidFile (id : Nat)
  deriving DecidableEq, Repr, Inhabited

namespace Instance

def makers : Registry (Maker Instance Machine) :=
  (Table.empty.insert Heartbeat.kindName
      { create := fun name config =>
          return .heartbeat (← Heartbeat.prototype.maker.create name config)
        help := Heartbeat.help }).insert PidFile.kindName
    (PidFile.direct.maker (return .pidFile (← Act.freshId)))

def kinds : List String := [Heartbeat.kindName, PidFile.kindName]

def registrationNotes : List Record := kinds.flatMap Registry.registerNotes

def begin_ (_ : Instance) (_ : String) : StateM (Stage Machine) (Option Nat) := return some 0

def finish (i : Instance) (name : String) : Act Machine Unit :=
  match i with
  | .heartbeat id => Heartbeat.start id name
  | .pidFile _ => PidFile.start name

def stop (i : Instance) (name : String) : Act Machine Unit :=
  match i with
  | .heartbeat id => Heartbeat.stop id name
  | .pidFile _ => PidFile.stop name

def reload (i : Instance) (name : String) (config : Section) : Act Machine (Reload Instance) :=
  match i with
  | .heartbeat id => do
    match ← Heartbeat.reload id name config with
    | .inPlace => return .inPlace
    | .replace id => return .replace (.heartbeat id)
  | .pidFile _ => PidFile.direct.reloadHandle name config

def crew : Crew Instance Machine where
  makers := makers
  begin_ := begin_
  finish := finish
  cancel _ _ _ := return ()
  stop := stop
  reload := reload
  hook := none
  wait n := modify (Machine.pass n)
  look := Machine.look

end Instance

end Steward
