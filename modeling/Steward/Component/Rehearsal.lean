import Steward.Component.Builtin

set_option autoImplicit false

namespace Steward

structure Conduct where
  failStart : Bool := false
  failStop : Bool := false
  panic : Bool := false
  hang : Bool := false
  delay : Nat := 0
  deriving DecidableEq, Repr, Inhabited

inductive Actor
  | builtin (i : Instance)
  | recorder (id : Nat)
  | keyed (id : Nat)
  | direct (id : Nat)
  deriving DecidableEq, Repr, Inhabited

structure Entry where
  action : String
  name : String
  config : Option Value
  deriving Repr, Inhabited

structure Theatre where
  machine : Machine := {}
  journal : List Entry := []
  recorders : List (Nat × Conduct) := []
  keys : List (Nat × Option String) := []
  directs : List (String × Conduct) := []
  deriving Inhabited

namespace Theatre

def look (w : Theatre) : Surroundings := w.machine.look

def onMachine {α : Type} (m : Act Machine α) : Act Theatre α :=
  Act.within machine (fun machine w => { w with machine }) m

def noted (action name : String) (config : Option Section) (w : Theatre) : Theatre :=
  { w with journal := w.journal ++ [⟨action, name, config.map (·.resolved w.look)⟩] }

def note (action name : String) (config : Option Section := none) : Act Theatre Unit :=
  Act.change (noted action name config)

def noteCall (action name : String) : StateM (Stage Theatre) Unit :=
  modify fun s => { s with world := noted action name none s.world }

def fieldOf {α : Type} [Typed α] (config : Section) (key : String) (absent : α) : Act Theatre α :=
  Act.load look do
    return (← config.fetch key fun sec s key => sec.get s key).getD absent

def fail (action name : String) : Act Theatre Unit := throw (action ++ " of " ++ name ++ ": boom")

def conductOf (config : Section) : Act Theatre Conduct := do
  return {
    failStart := ← fieldOf config "fail_start" false
    failStop := ← fieldOf config "fail_stop" false
    panic := ← fieldOf config "panic" false
    hang := ← fieldOf config "hang" false
    delay := (← fieldOf config "delay" Span.zero).millisUp }

def enter (action name : String) (config : Section) : Act Theatre Unit := do
  note action name config
  if ← fieldOf config ("fail_" ++ action) false then fail action name

def conduct? (w : Theatre) (name : String) : Actor → Option Conduct
  | .recorder id => w.recorders.lookup id
  | .direct _ => w.directs.lookup name
  | _ => none

def setRecorder (id : Nat) (c : Conduct) : Act Theatre Unit :=
  Act.change fun w => { w with recorders := (id, c) :: w.recorders }

def setKey (id : Nat) (key : Option String) : Act Theatre Unit :=
  Act.change fun w => { w with keys := (id, key) :: w.keys }

def newRecorder (c : Conduct) : Act Theatre Actor := do
  let id ← onMachine Act.freshId
  setRecorder id c
  return .recorder id

def newKeyed (key : Option String) : Act Theatre Actor := do
  let id ← onMachine Act.freshId
  setKey id key
  return .keyed id

def begin_ (i : Actor) (name : String) : StateM (Stage Theatre) (Option Nat) := do
  match i, conduct? (← get).world name i with
  | .builtin _, _ => return some 0
  | .keyed _, _ =>
    noteCall "start" name
    return some 0
  | _, none => return some 0
  | _, some c =>
    noteCall "start" name
    return if c.hang && !c.failStart && !c.panic then none else some c.delay

def finish (i : Actor) (name : String) : Act Theatre Unit := do
  match i, conduct? (← Act.world) name i with
  | .builtin i, _ => onMachine (i.finish name)
  | .keyed _, _ => return
  | _, none => throw (name ++ " not created")
  | _, some c =>
    if c.failStart then fail "start" name
    else if c.panic then throw "task 1 panicked"
    else note "started" name

-- A cancelled start shows only if it was hanging already.
def cancel (i : Actor) (name : String) (elapsed : Nat) : StateM (Stage Theatre) Unit := do
  match conduct? (← get).world name i with
  | some c =>
    if c.hang && c.delay < elapsed then noteCall "cancelled" name
  | none => return

def dropDirect (name : String) (i : Actor) : Act Theatre Unit :=
  match i with
  | .direct _ => Act.change fun w => { w with directs := w.directs.filter (·.1 ≠ name) }
  | _ => return

def stop (i : Actor) (name : String) : Act Theatre Unit := do
  match i with
  | .builtin i => onMachine (i.stop name)
  | i =>
    note "stop" name
    let c := conduct? (← Act.world) name i
    dropDirect name i
    if c.any (·.failStop) then fail "stop" name

def reloadKeyed (id : Nat) (name : String) (config : Section) : Act Theatre (Reload Actor) := do
  note "reload" name config
  let key : String ← Act.during "proto config"
    (Act.load look (config.fetch "key" fun sec s key => sec.require s key []))
  let stays ← match ((← Act.world).keys.lookup id).join with
    | some old => pure (old == key)
    | none => fieldOf config "inplace" false
  if stays then
    setKey id key
    return .inPlace
  else return .replace (← newKeyed key)

def storeDirect (name : String) (config : Section) : Act Theatre Unit := do
  let c ← conductOf config
  Act.change fun w => { w with directs := (name, c) :: w.directs }

def reloadRecorder (id : Nat) (name : String) (config : Section) :
    Act Theatre (Reload Actor) := do
  enter "reload" name config
  let c ← conductOf config
  if ← fieldOf config "restart" false then return .replace (← newRecorder c)
  setRecorder id c
  return .inPlace

def directType : Direct Theatre where
  create name config := do
    note "create" name config
    storeDirect name config
  reload name config := do
    enter "reload" name config
    storeDirect name config
  help := { description := "direct" }

def reload (i : Actor) (name : String) (config : Section) : Act Theatre (Reload Actor) := do
  match i with
  | .builtin i =>
    match ← onMachine (i.reload name config) with
    | .inPlace => return .inPlace
    | .replace i => return .replace (.builtin i)
  | .keyed id => reloadKeyed id name config
  | .direct _ => directType.reloadHandle name config
  | .recorder id => reloadRecorder id name config

def recorderType : Maker Actor Theatre where
  create name config := do
    enter "create" name config
    newRecorder (← conductOf config)
  help := ({ description := "recorder" } : HelpDoc).optional "delay" "duration" "start delay" none

def keyedType : Prototype Actor Theatre where
  blank := newKeyed none
  reload i name config := reload i name config
  help := ({ description := "prototype" } : HelpDoc).required "key" "string" "identity"

def builtinTypes : Registry (Maker Actor Theatre) :=
  Instance.makers.map fun t =>
    { create := fun name config => return .builtin (← onMachine (t.create name config))
      help := t.help }

def allTypes : Registry (Maker Actor Theatre) :=
  ((builtinTypes.insert "rec" recorderType).insert "proto" keyedType.maker).insert "direct"
    (directType.maker (return .direct (← onMachine Act.freshId)))

def hook (refused : List String) (name : String) (config : Section) : Act Theatre Unit := do
  note "pre-start" name config
  if refused.contains name then throw ("hook refused " ++ name)

def wait (n : Nat) : StateM (Stage Theatre) Unit := fun s =>
  ((), (onMachine (modify (Machine.pass n)) s).2)

def crew : Crew Actor Theatre where
  makers := allTypes
  begin_ := begin_
  finish := finish
  cancel := cancel
  stop := stop
  reload := reload
  hook := none
  wait := wait
  look := look

end Theatre

end Steward
