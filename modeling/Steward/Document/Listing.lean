import Steward.Document.Section

set_option autoImplicit false

namespace Steward

structure Listing where
  context : String := ""
  table : PropertyTable := .empty
  items : List (Value × Option Path) := []
  deriving Inhabited

namespace Listing

def loneInclude? (v : Value) : Option (String × Value) :=
  match v.untagged with
  | .mapping [e] => Include.ofEntry? e
  | _ => none

def listEntries (p : Path) : Value → Except ConfigFault (List Value)
  | .null => .ok []
  | .sequence vs => .ok vs
  | .mapping es => .ok [.mapping es]
  | _ => .error (.malformed p.text .includedList)

def spliceWith (file : Path → Load (List (Value × Option Path))) (t : PropertyTable)
    (vs : List Value) (base : Option Path) : Load (List (Value × Option Path)) := do
  let parts ← vs.mapM fun v => do
    match loneInclude? v with
    | none => return [(v, base)]
    | some (key, value) => do
      let paths ← liftM (Include.paths key value)
      let parts ← paths.mapM fun path => do file (← Load.resolve t path base)
      return parts.flatten
  return parts.flatten

def spliceFile (context : String) (t : PropertyTable) :
    Nat → Path → Load (List (Value × Option Path))
  | 0, p => throw (.tooDeep p.text)
  | left + 1, p => do
    let loaded ← Load.readYaml p
    Load.register p
    Load.note
      [.debug .sections ("拼接 include 列表 " ++ Section.orRoot context ++ ": " ++ p.text)]
    let vs ← liftM (listEntries p loaded)
    spliceWith (spliceFile context t left) t vs (← Load.directoryOf p)

def build (context : String) (t : PropertyTable) (v : Value) (base : Option Path) :
    Load Listing := do
  let file := spliceFile context t includeLimit
  match v with
  | .null => return ⟨context, t, []⟩
  | .sequence vs => return ⟨context, t, ← spliceWith file t vs base⟩
  | .string text => return ⟨context, t, ← file (← Load.resolve t text base)⟩
  | _ => throw (.malformed (Section.orRoot context) .list)

def size (l : Listing) : Nat := l.items.length

def isEmpty (l : Listing) : Bool := l.items.isEmpty

def raw? (l : Listing) (index : Nat) : Option Value := l.items[index]?.map (·.1)

def get (l : Listing) (index : Nat) : Load Section :=
  let place := Section.joinPlace l.context (toString index)
  match l.items[index]? with
  | none => throw (.missing place)
  | some (v, base) => Section.build place l.table includeLimit v base

def sections (l : Listing) : Load (List Section) := (List.range l.size).mapM l.get

end Listing

def Section.getList (sec : Section) (key : String) : Load Listing :=
  Listing.build (sec.placeOf key) sec.table ((sec.raw? key).getD .null) sec.base

end Steward
