import Steward.Command.Show
import Steward.Document.Loader
import Steward.Supervision.Roll

set_option autoImplicit false

namespace Steward.Command

structure Outcome where
  lines : List String := []
  fault? : Option Fault := none
  deriving DecidableEq, Repr, Inhabited

namespace Outcome

def ofText (text : String) : Outcome :=
  { lines := (String.ofList (Text.trimEnd text.toList)).splitOn "\n" }

def ofResult : Except ComponentFault String → Outcome
  | .ok text => ofText text
  | .error f => { fault? := some (.component f) }

def text (o : Outcome) : String := String.join (o.lines.map (· ++ "\n"))

end Outcome

def listOf (listKey : String) (p : Path) : Load Listing := do
  (← Document.ofFile listKey p).getList listKey

def entriesOf (knows : String → Bool) (listKey : String) (p : Path) :
    LoadOr Fault (List ComponentSpec) := do
  Roll.read knows (← LoadOr.mapFault Fault.config (listOf listKey p))

def entryLines (host : String) (i : Nat) (t : ComponentSpec) : List String :=
  ("  " ++ toString (i + 1) ++ ". " ++ t.name ++ " (" ++ t.kind ++ ")") ::
    (if t.hosts.isEmpty then [] else ["     主机白名单: " ++ ", ".intercalate t.hosts]) ++
    ["     启用状态: " ++ if t.disabledOn host then "否" else "是"]

def successLines (host : String) (verbose : Bool) (entries : List ComponentSpec) : List String :=
  if verbose then
    ["配置验证通过！", "组件配置（主机 " ++ host ++ "）:"] ++
      (entries.zipIdx.flatMap fun (t, i) => entryLines host i t)
  else ["✓ 配置文件验证通过", "✓ 找到 " ++ toString entries.length ++ " 个组件配置"]

def validate (knows : String → Bool) (host listKey : String) (verbose : Bool) (p : Path)
    (s : Surroundings) (l : Loading) : Outcome × Loading :=
  let opening := "验证配置文件: " ++ p.text
  let (r, l) := (entriesOf knows listKey p).runOn s l
  (match r with
    | .ok entries => { lines := opening :: successLines host verbose entries }
    | .error f => { lines := [opening], fault? := some f }, l)

def Arguments.perform (a : Arguments) (types : Registry HelpDoc) (host : String)
    (s : Surroundings) (l : Loading) : Outcome × Loading :=
  match a.task with
  | .run .. => ({}, l)
  | .show_ kind format => (.ofResult (format.help types kind), l)
  | .version format => (.ofText format.version, l)
  | .validate listKey verbose =>
    validate types.has host listKey verbose (a.configPath s) s l

def Arguments.performAs (a : Arguments) (command : String) (types : Registry HelpDoc)
    (host : String) (s : Surroundings) (l : Loading) : Outcome × Loading :=
  if command = a.task.command then a.perform types host s l else ({}, l)

end Steward.Command
