import Steward.Typed.Check
import Steward.Typed.Scalar
import Steward.Url.Basic
import Steward.Value

set_option autoImplicit false

namespace Steward

namespace Value

def shape : Value → String
  | .null => "null"
  | .bool _ => "bool"
  | .number _ => "number"
  | .string _ => "string"
  | .sequence _ => "list"
  | .mapping _ => "mapping"
  | .tagged .. => "tagged value"

def expect (what : Wanted) (v : Value) {α : Type} : Except TypedFault α :=
  .error (.wanted what v.shape)

def text? (v : Value) : Except TypedFault String :=
  match v.string? with
  | some s => .ok s
  | none => v.expect .string

def scalar (v : Value) : Except TypedFault String :=
  match v.scalarText? with
  | some s => .ok s
  | none => v.expect .scalar

-- An integer, or a floating number without fraction, which moves to the nearer bound if it lies
-- outside the 64-bit integers.
def integer : Value → Except TypedFault Int
  | .number n =>
    match n.toInt? with
    | some i => .ok i
    | none =>
      if n.toFloat.isWhole then .ok (n.toFloat.clampToInt Integer.minimum Integer.maximum)
      else .error (.notWhole n.text)
  | .string s => Integer.read s
  | other => other.expect .integer

def unsigned (v : Value) : Except TypedFault Nat := do
  let i ← v.integer
  if i < 0 then .error (.negative (toString i)) else .ok i.toNat

def float : Value → Except TypedFault Binary64
  | .number n => .ok n.toFloat
  | .string s => Binary64.read s
  | other => other.expect .number

def truth : Value → Except TypedFault Bool
  | .bool b => .ok b
  | .number n =>
    match n.toInt? with
    | some 0 => .ok false
    | some 1 => .ok true
    | _ => .error (.notBool n.text)
  | .string s => Truth.read s
  | other => other.expect .bool

def span : Value → Except TypedFault Span
  | .number n => Span.ofFloatSeconds n.toFloat
  | .string s => Span.read s
  | other => other.expect .span

def expression (v : Value) : Except TypedFault Expression := do
  let text ← v.text?
  match Pattern.read? text with
  | some pattern => .ok ⟨text, pattern⟩
  | none => .error (.pattern "syntax")

def url (v : Value) : Except TypedFault Url := do
  let text ← v.text?
  match Url.read (Text.trimmed text) with
  | .ok u => .ok u
  | .error f => .error (.url text f.message)

def listItem (v : Value) : Except TypedFault String :=
  match v.scalarText? with
  | some s => .ok s
  | none => v.expect .item

def list : Value → Except TypedFault (List String)
  | .sequence items => items.mapM listItem
  | .string s =>
    let parts := (Text.splitOn ',' s.toList).map fun part => String.ofList (Text.trim part)
    .ok (parts.filter (· ≠ ""))
  | .null => .ok []
  | other => other.expect .list

end Value

class Typed (α : Type) where
  kind : String
  ofValue : Surroundings → Value → Except TypedFault α

instance : Typed String := ⟨"string", fun _ v => v.scalar⟩

instance : Typed Int := ⟨"integer", fun _ v => v.integer⟩

instance : Typed Nat := ⟨"unsigned integer", fun _ v => v.unsigned⟩

instance : Typed Binary64 := ⟨"float", fun _ v => v.float⟩

instance : Typed Bool := ⟨"bool", fun _ v => v.truth⟩

instance : Typed Span := ⟨"duration", fun _ v => v.span⟩

instance : Typed Path := ⟨"path", fun s v => do Path.read s (← v.text?)⟩

instance : Typed Url := ⟨"url", fun _ v => v.url⟩

instance : Typed Expression := ⟨"regex", fun _ v => v.expression⟩

instance : Typed (List String) := ⟨"string list", fun _ v => v.list⟩

instance : Typed Value := ⟨"value", fun _ v => .ok v⟩

end Steward
