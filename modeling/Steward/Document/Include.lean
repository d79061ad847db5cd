import Steward.Document.Fault
import Steward.Text.Blank
import Steward.Text.Search
import Steward.Value

set_option autoImplicit false

namespace Steward.Include

def mark : List Char := "include_".toList

def suffix (key : String) : String :=
  match Text.stripPrefix? mark key.toList with
  | some rest => String.ofList rest
  | none => key

def isKey (key : String) : Bool :=
  match Text.stripPrefix? mark key.toList with
  | some rest => rest.all Char.isDigit
  | none => false

def rank (key : String) : Nat × String := ((suffix key).utf8ByteSize, suffix key)

def isBefore (a b : String) : Bool :=
  let (m, s) := rank a
  let (n, t) := rank b
  m < n || (m == n && s ≤ t)

def sorted (keys : List String) : List String := keys.mergeSort isBefore

def ofEntry? (e : Value × Value) : Option (String × Value) :=
  (e.1.string?.filter isKey).map (·, e.2)

def ofEntries (es : Entries) : List (String × Value) :=
  (es.filterMap ofEntry?).mergeSort fun a b => isBefore a.1 b.1

def itemPath (key : String) (item : Value) : Except ConfigFault String :=
  match item.string? with
  | some path => .ok path
  | none => .error (.malformed key .includeItem)

def paths (key : String) : Value → Except ConfigFault (List String)
  | .null => .ok []
  | .string path => .ok [path]
  | .sequence items => items.mapM (itemPath key)
  | _ => .error (.malformed key .includeValue)

theorem isBefore_refl (a : String) : isBefore a a = true := by
  simp [isBefore]

end Steward.Include

namespace Steward.Surroundings

def resolve (s : Surroundings) (text : String) (base : Option Path) : Path :=
  let p : Path := ⟨Text.trimmed text⟩
  if p.isAbsolute then p
  else
    match base with
    | some dir => dir.join p
    | none => s.absolute p

end Steward.Surroundings
