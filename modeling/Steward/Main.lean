import Std.Async.Signal
import Std.Internal.UV.System
import Std.Time
import Steward.Program

set_option autoImplicit false

namespace Steward.Host

def moment (sec : Int) (nanos : Nat) : Moment := sec * 1000000000 + nanos

def placeOf (names : List String) : String := "/" ++ "/".intercalate names

def pull (t : FileTree) (p : Path) : IO FileTree := do
  let gone := (t.removeFile p).toOption.getD t
  try
    let place ← IO.FS.realPath p.text
    let found ← place.metadata
    match found.type with
    | .file =>
      let content ← IO.FS.readBinFile place
      return t.place p (some content) (moment found.modified.sec found.modified.nsec.toNat)
    | .dir => return t.place p none 0
    | _ => return gone
  catch _ => return gone

def pullAll (t : FileTree) : IO FileTree :=
  t.nodes.foldlM (fun t (names, n) =>
    match n with
    | .file .. => pull t ⟨placeOf names⟩
    | .directory => return t) t

def push (before after : FileTree) : IO Unit := do
  for (names, n) in after.nodes do
    if !(before.node? names).any n.sameAs then
      match n with
      | .directory => IO.FS.createDirAll (placeOf names)
      | .file content _ => IO.FS.writeBinFile (placeOf names) content
  for (names, _) in before.nodes do
    if (after.node? names).isNone then IO.FS.removeFile (placeOf names)

def reading (a : Command.Arguments) (s : Surroundings) : LoadOr Fault (List ComponentSpec) :=
  match a.task with
  | .run listKey .. => Command.entriesOf Program.types.has listKey (a.configPath s)
  | .validate listKey _ => Command.entriesOf Program.types.has listKey (a.configPath s)
  | _ => return []

-- Reads files as they are asked for, until nothing more is missing that is there.
partial def learn (a : Command.Arguments) (m : Machine) (asked : List String) : IO Machine := do
  match ((reading a m.look).runOn m.look {}).1 with
  | .error (.config (.noFile p)) =>
    if asked.contains p then return m
    else learn a { m with files := ← pull m.files ⟨p⟩ } (p :: asked)
  | _ => return m

def now : IO Moment := return (← Std.Time.Timestamp.now).toNanosecondsSinceUnixEpoch.val

def timeText : IO String := do
  let stamp ← Std.Time.Timestamp.now
  let time := Std.Time.DateTime.ofTimestamp stamp Std.Time.TimeZone.ZoneRules.UTC
  return time.format "uuuu-MM-dd'T'HH:mm:ss.SSSSSSSSSxxx"

def refresh (a : Command.Arguments) (m : Machine) : IO Machine := do
  learn a { m with files := ← pullAll m.files, calendar := ← now } []

def line (json : Bool) (time : String) (r : Record) : String :=
  if json then
    Tree.Json.compact (.fields [("timestamp", .text time), ("level", .text r.level.name),
      ("fields", r.tree), ("target", .text r.origin.target)])
  else time ++ " " ++ r.level.name ++ " " ++ r.origin.target ++ ": " ++ r.text

def showLog (p : Program) (printed : Nat) : IO Nat := do
  let log := p.shownLog p.machine.look.env
  let time ← timeText
  for r in log.drop printed do IO.println (line p.arguments.jsonLogs time r)
  return log.length

structure Ear where
  signal : Signal
  waiter : Std.Async.Signal.Waiter
  next : Std.Async.AsyncTask Int

def Ear.listen (signal : Signal) (waiter : Std.Async.Signal.Waiter) : IO Ear :=
  return ⟨signal, waiter, ← waiter.wait⟩

def Ear.open_ (signal : Signal) : IO Ear := do
  let number : Std.Async.Signal := match signal with
    | .hangup => .sighup
    | .terminate => .sigterm
    | .interrupt => .sigint
  Ear.listen signal (← Std.Async.Signal.Waiter.mk number true)

def Ear.hear (p : Program) (e : Ear) : IO (Program × Ear) := do
  if ← IO.hasFinished e.next then return (p.hear e.signal, ← Ear.listen e.signal e.waiter)
  else return (p, e)

def hearAll (p : Program) : List Ear → IO (Program × List Ear)
  | [] => return (p, [])
  | e :: rest => do
    let (p, e) ← e.hear p
    let (p, rest) ← hearAll p rest
    return (p, e :: rest)

partial def attend (p : Program) (ears : List Ear) (clock printed : Nat) : IO Program := do
  if p.isOver then return p
  IO.sleep 50
  let later ← IO.monoMsNow
  let m ← refresh p.arguments p.machine
  let p := ((p.onMachine m).atTime (← timeText)).pass (later - clock)
  let (p, ears) ← hearAll p ears
  push m.files p.machine.files
  attend p ears later (← showLog p printed)

def machine : IO Machine := do
  let here := (⟨(← IO.currentDir).toString⟩ : Path).parts
  return {
    files := { here }
    vars := (← Std.Internal.UV.System.osEnviron).toList
    processId := (← Std.Internal.UV.System.osGetPid).toNat
    calendar := ← now }

def run (a : Command.Arguments) (m : Machine) : IO UInt32 := do
  let files ← pull m.files Command.Arguments.localName
  let m ← learn a { m with files } []
  let p := Program.start a (← Std.Internal.UV.System.osGetHostname) (← timeText) m
  push m.files p.machine.files
  let printed ← showLog p 0
  for text in p.printed do IO.println text
  if p.isOver then return p.exitCode.toUInt32
  let ears ← [Signal.hangup, .terminate, .interrupt].mapM Ear.open_
  return (← attend p ears (← IO.monoMsNow) printed).exitCode.toUInt32

end Steward.Host

open Steward in
def main (words : List String) : IO UInt32 := do
  let m ← Host.machine
  match Command.Arguments.read m.look.env words with
  | .ok a => Host.run a m
  | .error f => do
    for text in f.printed do IO.println text
    if f.exitCode ≠ 0 then IO.eprintln ("error: " ++ f.message)
    return f.exitCode.toUInt32
