import Steward.FileTree
import Steward.Log.Audit
import Steward.Log.Filter

set_option autoImplicit false

namespace Steward

structure LogConfig where
  level : Threshold := some .info
  file : Option Path := none
  console : Bool := true
  json : Bool := false
  modules : Table Threshold := .empty
  deriving DecidableEq, Inhabited

namespace LogConfig

def ruleOf (row : String × Threshold) : Option FilterRule :=
  FilterRule.read? (row.1 ++ "=" ++ Text.lower row.2.name).toList

def filter (c : LogConfig) (written : String) : Filter :=
  (c.modules.rows.filterMap ruleOf).foldl Filter.insert ((Filter.read written).withLevel c.level)

end LogConfig

structure LogState where
  current : Option LogConfig := none
  failure : Option String := none
  deriving DecidableEq, Inhabited

namespace LogState

def isReady (s : LogState) : Bool := s.current.isSome

def ofConfig (c : LogConfig) : LogState := { current := some c }

def doneNote : Record := .debug .logging "日志系统已经初始化过了"

def directoryOf (p : Path) : Option Path := p.parent?.filter (·.text ≠ "")

def openFile (t : FileTree) (p : Path) (now : Moment) : FileTree × Option String :=
  match ((directoryOf p).map t.makeDirectories).getD (.ok t) with
  | .error f => (t, some ("创建日志目录失败: " ++ f.message))
  | .ok t =>
    match t.openForAppend p now with
    | .error f => (t, some ("创建日志文件失败: " ++ f.message))
    | .ok t => (t, none)

def install (c : LogConfig) (t : FileTree) (now : Moment) : FileTree × Option String :=
  match c.file with
  | some p => if c.console then (t, none) else openFile t p now
  | none => (t, none)

structure SetUp where
  result : Except String LogConfig
  state : LogState
  files : FileTree
  notes : List Record := []

def set (c : LogConfig) (t : FileTree) (now : Moment) : SetUp :=
  match install c t now with
  | (t, none) => ⟨.ok c, ofConfig c, t, [doneNote]⟩
  | (t, some e) => ⟨.error e, ⟨some c, some e⟩, t, []⟩

def setUp (s : LogState) (force : Bool) (c : LogConfig) (t : FileTree) (now : Moment) : SetUp :=
  if s.isReady && !force then
    match s.failure with
    | none => ⟨.ok c, s, t, []⟩
    | some e => ⟨.error ("日志系统之前初始化失败: " ++ e), s, t, []⟩
  else set c t now

def auditForm (s : LogState) (time : String) : AuditForm :=
  if (s.current.map (·.json)).getD false then .json time else .text

theorem setUp_of_ready {s : LogState} (h : s.isReady = true) (c : LogConfig) (t : FileTree)
    (now : Moment) : (s.setUp false c t now).state = s := by
  unfold setUp
  simp only [h, Bool.not_false, Bool.and_self, if_true]
  split <;> rfl

end LogState

end Steward
