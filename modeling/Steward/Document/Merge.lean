import Steward.Document.Load

set_option autoImplicit false

namespace Steward.Merge

def propertiesKey : String := "properties"

def hasKey (keys : List Value) (key : Value) : Bool := keys.any key.same

/-- What a document says before anything is merged into it: its keys, and those of its
properties. -/
structure Own where
  keys : List Value
  properties : List Value

def Own.of (es : Entries) : Own :=
  { keys := es.map (·.1)
    properties := match es.lookup propertiesKey with
      | some (.mapping ps) => ps.map (·.1)
      | _ => [] }

def insertMissing (own : List Value) (es : Entries) (e : Value × Value) : Entries :=
  if hasKey own e.1 then es else es.insert e.1 e.2

def adoptProperties (own : Own) (es : Entries) (included : Value) : Entries :=
  match included with
  | .mapping ps =>
    match es.lookup propertiesKey with
    | some (.mapping mine) =>
      es.insert (.string propertiesKey) (.mapping (ps.foldl (insertMissing own.properties) mine))
    | some .null | none => es.insert (.string propertiesKey) included
    | some _ => es
  | _ => es

def adoptEntry (own : Own) (es : Entries) (e : Value × Value) : Entries :=
  if e.1.string? = some propertiesKey then adoptProperties own es e.2
  else insertMissing own.keys es e

def adopt (own : Own) (es included : Entries) : Entries := included.foldl (adoptEntry own) es

def adoptNotes (es included : Entries) : List Record :=
  included.flatMap fun (key, block) =>
    if key.string? = some propertiesKey then
      match block, es.lookup propertiesKey with
      | .mapping _, some (.mapping _) | .mapping _, some .null => []
      | .mapping _, some _ =>
        [.debug .sections "本地 properties 不是映射，忽略被 include 的属性块"]
      | _, _ => []
    else []

def withoutIncludes (es : Entries) : Entries :=
  (Include.ofEntries es).foldl (fun es e => es.remove (.string e.1)) es

def documentEntries (p : Path) : Value → Except ConfigFault Entries
  | .null => .ok []
  | .mapping es => .ok es
  | _ => .error (.malformed p.text .includedDocument)

def mergeWith (file : Path → Load Entries) (t : PropertyTable) (es : Entries)
    (base : Option Path) : Load Entries := do
  let plain := withoutIncludes es
  let own := Own.of plain
  (Include.ofEntries es).foldlM
    (fun es (key, value) => do
      let paths ← liftM (Include.paths key value)
      paths.foldlM
        (fun es path => do
          let included ← file (← Load.resolve t path base)
          Load.note (adoptNotes es included)
          return adopt own es included)
        es)
    plain

def included (t : PropertyTable) : Nat → Path → Load Entries
  | 0, p => throw (.tooDeep p.text)
  | left + 1, p => do
    let es ← liftM (documentEntries p (← Load.readYaml p))
    Load.register p
    Load.note [.debug .sections ("合并 include 文档: " ++ p.text)]
    mergeWith (included t left) t es (← Load.directoryOf p)

def mergeIncludes (t : PropertyTable) (left : Nat) (es : Entries) (base : Option Path) :
    Load Entries :=
  mergeWith (included t left) t es base

end Steward.Merge
