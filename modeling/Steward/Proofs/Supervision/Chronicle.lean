import Steward.Component.Rehearsal
import Steward.Supervision.Request

set_option autoImplicit false

namespace Steward

-- A start is begun, and later it has ended or is cancelled.
inductive Call (ι : Type)
  | create (kind name : String) (config : Section) (answer : Except String ι)
  | reload (i : ι) (name : String) (config : Section) (answer : Except String (Reload ι))
  | stop (i : ι) (name : String) (answer : Except String Unit)
  | hook (name : String) (config : Section) (answer : Except String Unit)
  | begin_ (i : ι) (name : String)
  | finish (i : ι) (name : String) (answer : Except String Unit)
  | cancel (i : ι) (name : String)

namespace Call

variable {ι : Type}

def name : Call ι → String
  | .create _ name _ _ => name
  | .reload _ name _ _ => name
  | .stop _ name _ => name
  | .hook name _ _ => name
  | .begin_ _ name => name
  | .finish _ name _ => name
  | .cancel _ name => name

def failsTurn : Call ι → Bool
  | .create _ _ _ (.error _) => true
  | .stop _ _ (.error _) => true
  | _ => false

def isTurn : Call ι → Bool
  | .reload .. | .hook .. => false
  | _ => true

def isSwitch : Call ι → Bool
  | .create .. | .reload .. | .hook .. => false
  | _ => true

def isStop : Call ι → Bool
  | .stop .. => true
  | _ => false

def stopped (calls : List (Call ι)) : List String :=
  calls.filterMap fun
    | .stop _ name _ => some name
    | _ => none

def started (calls : List (Call ι)) : List String :=
  calls.filterMap fun
    | .finish _ name (.ok ()) => some name
    | _ => none

def on (name : String) (calls : List (Call ι)) : List (Call ι) := calls.filter (·.name = name)

@[simp] theorem on_append (name : String) (front back : List (Call ι)) :
    on name (front ++ back) = on name front ++ on name back :=
  List.filter_append ..

@[simp] theorem stopped_append (front back : List (Call ι)) :
    stopped (front ++ back) = stopped front ++ stopped back :=
  List.filterMap_append ..

@[simp] theorem started_append (front back : List (Call ι)) :
    started (front ++ back) = started front ++ started back :=
  List.filterMap_append ..

def lastTurn (calls : List (Call ι)) : Option (Call ι) := (calls.filter isTurn).getLast?

def lastSwitch (calls : List (Call ι)) : Option (Call ι) := (calls.filter isSwitch).getLast?

theorem isTurn_of_isSwitch {c : Call ι} (switches : c.isSwitch = true) : c.isTurn = true := by
  cases c <;> first | rfl | cases switches

theorem lastTurn_concat {c : Call ι} (turns : c.isTurn = true) (calls : List (Call ι)) :
    lastTurn (calls ++ [c]) = some c := by
  simp [lastTurn, turns]

theorem lastSwitch_concat {c : Call ι} (switches : c.isSwitch = true) (calls : List (Call ι)) :
    lastSwitch (calls ++ [c]) = some c := by
  simp [lastSwitch, switches]

theorem lastTurn_quiet {c : Call ι} (quiet : c.isTurn = false) (calls : List (Call ι)) :
    lastTurn (calls ++ [c]) = lastTurn calls := by
  simp [lastTurn, quiet]

theorem lastSwitch_quiet {c : Call ι} (quiet : c.isSwitch = false) (calls : List (Call ι)) :
    lastSwitch (calls ++ [c]) = lastSwitch calls := by
  simp [lastSwitch, quiet]

theorem on_own {name : String} {calls : List (Call ι)} (own : ∀ c ∈ calls, c.name = name) :
    on name calls = calls :=
  List.filter_eq_self.mpr fun c member => decide_eq_true (own c member)

theorem on_others {name : String} {calls : List (Call ι)} (others : ∀ c ∈ calls, c.name ≠ name) :
    on name calls = [] :=
  List.filter_eq_nil_iff.mpr fun c member => by simpa using others c member

end Call

structure Chronicle (ι ω : Type) where
  world : ω
  calls : List (Call ι) := []

namespace Chronicle

variable {ι ω α : Type}

def put (world : ω) (c : Chronicle ι ω) : Chronicle ι ω := { c with world }

def write (call : Call ι) : StateM (Stage (Chronicle ι ω)) Unit :=
  modify fun s => { s with world.calls := s.world.calls ++ [call] }

def within (m : StateM (Stage ω) α) : StateM (Stage (Chronicle ι ω)) α := Stage.within world put m

def act (call : Except String α → Call ι) (m : Act ω α) : Act (Chronicle ι ω) α := ExceptT.mk do
  let answer ← within m.run
  write (call answer)
  return answer

end Chronicle

def Maker.chronicled {ι ω : Type} (kind : String) (t : Maker ι ω) : Maker ι (Chronicle ι ω) where
  create name config := Chronicle.act (.create kind name config) (t.create name config)
  help := t.help

def Crew.chronicled {ι ω : Type} (c : Crew ι ω) : Crew ι (Chronicle ι ω) where
  makers := c.makers.mapNamed Maker.chronicled
  begin_ i name := do
    Chronicle.write (.begin_ i name)
    Chronicle.within (c.begin_ i name)
  finish i name := Chronicle.act (.finish i name) (c.finish i name)
  cancel i name elapsed := do
    Chronicle.write (.cancel i name)
    Chronicle.within (c.cancel i name elapsed)
  stop i name := Chronicle.act (.stop i name) (c.stop i name)
  reload i name config := Chronicle.act (.reload i name config) (c.reload i name config)
  hook := c.hook.map fun hook name config => Chronicle.act (.hook name config) (hook name config)
  wait n := Chronicle.within (c.wait n)
  look w := c.look w.world

theorem Crew.makers_chronicled {ι ω : Type} (c : Crew ι ω) (kind : String) :
    c.chronicled.makers.get? kind = (c.makers.get? kind).map (Maker.chronicled kind) :=
  Table.get?_mapNamed c.makers Maker.chronicled kind

theorem Supervisor.knows_chronicled {ι ω : Type} (crew : Crew ι ω) :
    Supervisor.knows crew.chronicled = Supervisor.knows crew := by
  funext kind
  simp [Supervisor.knows, Table.has, Crew.makers_chronicled]

def Crew.hookCalls {ι ω : Type} (c : Crew ι ω) (name : String) (config : Section) :
    List (Call ι) :=
  c.hook.toList.map fun _ => .hook name config (.ok ())

def Crew.startCalls {ι ω : Type} (c : Crew ι ω) (name : String) (config : Section) (i : ι) :
    List (Call ι) :=
  c.hookCalls name config ++ [.begin_ i name, .finish i name (.ok ())]

theorem Crew.name_of_mem_hookCalls {ι ω : Type} {crew : Crew ι ω} {name : String}
    {config : Section} {c : Call ι} (member : c ∈ crew.hookCalls name config) : c.name = name := by
  obtain ⟨_, -, rfl⟩ := List.mem_map.mp member
  rfl

theorem Crew.name_of_mem_startCalls {ι ω : Type} {crew : Crew ι ω} {name : String}
    {config : Section} {i : ι} {c : Call ι} (member : c ∈ crew.startCalls name config i) :
    c.name = name := by
  rcases List.mem_append.mp member with hooked | started
  · exact name_of_mem_hookCalls hooked
  · simp only [List.mem_cons, List.not_mem_nil, or_false] at started
    rcases started with rfl | rfl <;> rfl

def Event.chronicled {ι ω : Type} : Event ω → Event (Chronicle ι ω)
  | .asked r => .asked r
  | .passed change => .passed fun s => (Chronicle.within (modify change) s).2

namespace House

variable {ι ω : Type}

/-- A house after some events from an empty roster, with all calls since then. -/
def recorded (crew : Crew ι ω) (p : Policy) (stage : Stage ω) (events : List (Event ω)) :
    House ι (Chronicle ι ω) :=
  House.after crew.chronicled p { stage := ⟨⟨stage.world, []⟩, stage.watch, stage.log⟩ }
    (events.map .chronicled)

end House

namespace Theatre

def entry (name kind : String) (more : Entries) : Value × Option Path :=
  (.mapping ((.string "name", .string name) :: (.string "type", .string kind) :: more), none)

def switches (names : List String) : Value × Value :=
  (.string "config", .mapping (names.map fun name => (.string name, .bool true)))

def rehearsal (events : List (Event Theatre)) : House Actor (Chronicle Actor Theatre) :=
  House.recorded crew {} { world := {} } events

end Theatre

end Steward
