import Steward.Document.Reading

set_option autoImplicit false

namespace Steward.Document

def defaultListKey : String := "components"

def entrySteps : List (Step Unit) :=
  [Step.required String "name" [Check.nonEmpty], Step.required String "type" [Check.nonEmpty],
    Step.optional Bool "disabled", Step.optional (List String) "hosts"]

def validateEntry (entry : Section) : Load Unit := Reading.run entry () entrySteps

def validate (listKey : String) (root : Section) : Load Unit := do
  let entries ← root.getList listKey
  (List.range entries.size).forM fun i => do validateEntry (← entries.get i)

def ofFile (listKey : String) (p : Path) : Load Section := do
  let root ← Section.ofFile p
  validate listKey root
  Load.note [.info .loading ("成功加载配置文件: " ++ p.text)]
  return root

def ofText (listKey content : String) : Load Section := do
  let root ← Section.ofYaml content
  validate listKey root
  Load.note [.debug .loading "成功解析配置字符串"]
  return root

end Steward.Document
