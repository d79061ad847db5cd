import Steward.Document.Merge
import Steward.Property.Block
import Steward.Typed.Coerce

set_option autoImplicit false

namespace Steward

structure Section where
  context : String := ""
  table : PropertyTable := .empty
  document : Entries := []
  base : Option Path := none
  deriving Inhabited

namespace Section

def empty : Section := {}

def joinPlace (context key : String) : String := if context = "" then key else context ++ "." ++ key

def orRoot (context : String) : String := if context = "" then "document" else context

-- A section from a value: a text names the file that holds it, and null is an empty one. `left`
-- files may be named one through another.
def build (context : String) (parent : PropertyTable) : Nat → Value → Option Path → Load Section
  | left, .null, base => finish left [] base
  | left, .mapping es, base => finish left es base
  | 0, .string text, base => do
    -- The fault names the file that would be read next.
    let p ← Load.resolve parent text base
    throw (.tooDeep p.text)
  | left + 1, .string text, base => do
    let p ← Load.resolve parent text base
    Load.note [.debug .sections ("从文件加载配置节点 " ++ orRoot context ++ ": " ++ p.text)]
    let loaded ← Load.readYaml p
    Load.register p
    build context parent left loaded (← Load.directoryOf p)
  | _, _, _ => throw (.malformed (orRoot context) .section)
where
  finish (left : Nat) (es : Entries) (base : Option Path) : Load Section := do
    let es ← Merge.mergeIncludes parent left es base
    match es.lookup Merge.propertiesKey with
    | none | some .null => return ⟨context, parent, es, base⟩
    | some (.mapping block) => do
      let (table, files) ← PropertyBlock.add parent block base
      files.forM Load.register
      return ⟨context, table, es, base⟩
    | some _ => throw (.malformed (joinPlace context Merge.propertiesKey) .properties)

def ofValue (context : String) (v : Value) : Load Section :=
  build context .empty includeLimit v none

def ofYaml (content : String) : Load Section :=
  match Yaml.read? content with
  | some v => ofValue "" v
  | none => throw (.malformed (orRoot "") .yaml)

-- The section in a file. The file itself counts as watched once it has been read.
def ofFile (p : Path) : Load Section := do
  let p := (← read).absolute p
  let v ← Load.readYaml p
  Load.register p
  build "" .empty includeLimit v (← Load.directoryOf p)

def placeOf (sec : Section) (key : String) : String := joinPlace sec.context key

def raw? (sec : Section) (key : String) : Option Value := sec.document.lookup key

def has (sec : Section) (key : String) : Bool := sec.document.has key

def keys (sec : Section) : List String := sec.document.stringKeys

def isEmpty (sec : Section) : Bool := sec.document.isEmpty

def resolve (sec : Section) (s : Surroundings) (v : Value) : Value :=
  v.mapStrings (sec.table.expand s.env)

def resolveNotes (sec : Section) (s : Surroundings) (v : Value) : List Record :=
  v.strings.flatMap (sec.table.expandNotes s.env)

def resolved (sec : Section) (s : Surroundings) : Value := sec.resolve s (.mapping sec.document)

def differs (a b : Section) (s : Surroundings) : Bool :=
  a.document.length != b.document.length || !(a.resolved s).same (b.resolved s)

def differsNotes (a b : Section) (s : Surroundings) : List Record :=
  if a.document.length != b.document.length then []
  else a.resolveNotes s (.mapping a.document) ++ b.resolveNotes s (.mapping b.document)

def field? (sec : Section) (key : String) : Option Value :=
  match sec.raw? key with
  | none | some .null => none
  | some v => some v

section Fields

variable {α : Type} [Typed α]

def get (sec : Section) (s : Surroundings) (key : String) : Except ConfigFault (Option α) :=
  match sec.field? key with
  | none => .ok none
  | some v =>
    match Typed.ofValue s (sec.resolve s v) with
    | .ok a => .ok (some a)
    | .error cause => .error (.mistyped (sec.placeOf key) (Typed.kind α) cause)

def checkAt (place : String) (checks : List (Check α)) (a : α) : Except ConfigFault Unit :=
  match Check.run checks a with
  | .ok () => .ok ()
  | .error cause => .error (.refused place cause)

def getChecked (sec : Section) (s : Surroundings) (key : String) (checks : List (Check α)) :
    Except ConfigFault (Option α) := do
  let found ← sec.get s key
  match found with
  | some a => checkAt (sec.placeOf key) checks a
  | none => pure ()
  return found

def require (sec : Section) (s : Surroundings) (key : String) (checks : List (Check α)) :
    Except ConfigFault α := do
  match ← sec.getChecked s key checks with
  | some a => return a
  | none => throw (.missing (sec.placeOf key))

def getOr (sec : Section) (s : Surroundings) (key : String) (fallback : α) :
    Except ConfigFault α := do
  return (← sec.get s key).getD fallback

end Fields

def getNotes (sec : Section) (s : Surroundings) (key : String) : List Record :=
  match sec.field? key with
  | none => []
  | some v => sec.resolveNotes s v

def fetch {β : Type} (sec : Section) (key : String)
    (f : Section → Surroundings → String → Except ConfigFault β) : Load β := do
  let s ← read
  Load.note (sec.getNotes s key)
  liftM (f sec s key)

def getSection (sec : Section) (key : String) : Load Section :=
  build (sec.placeOf key) sec.table includeLimit ((sec.raw? key).getD .null) sec.base

theorem joinPlace_of_ne {context : String} (h : context ≠ "") (key : String) :
    joinPlace context key = context ++ "." ++ key := by
  simp [joinPlace, h]

theorem get_of_field?_none {α : Type} [Typed α] {sec : Section} {s : Surroundings} {key : String}
    (h : sec.field? key = none) : sec.get (α := α) s key = .ok none := by
  simp [get, h]

end Section

end Steward
