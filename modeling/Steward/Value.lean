import Steward.Number.Power
import Steward.Number.Shortest

set_option autoImplicit false

namespace Steward

inductive Number
  | int (i : Int)
  | float (x : Binary64)
  deriving DecidableEq, Repr, Inhabited

inductive Value
  | null
  | bool (b : Bool)
  | number (n : Number)
  | string (s : String)
  | sequence (items : List Value)
  | mapping (entries : List (Value × Value))
  | tagged (tag : String) (value : Value)
  deriving Repr, Inhabited

abbrev Entries := List (Value × Value)

namespace Number

def text : Number → String
  | .int i => toString i
  | .float x => x.documentText

-- A NaN is the same as itself here, and an integer never the same as a floating number.
def same : Number → Number → Bool
  | .int a, .int b => a == b
  | .float a, .float b => (a.isNaN && b.isNaN) || a.eq b
  | _, _ => false

def toFloat : Number → Binary64
  | .int i => Binary64.ofInt i
  | .float x => x

def toInt? : Number → Option Int
  | .int i => if i < Int.ofNat signedLimit then some i else none
  | .float _ => none

end Number

namespace Value

def tagName (tag : String) : List Char :=
  match tag.toList with
  | '!' :: c :: cs => c :: cs
  | cs => cs

mutual

def same : Value → Value → Bool
  | .null, .null => true
  | .bool a, .bool b => a == b
  | .number a, .number b => a.same b
  | .string a, .string b => a == b
  | .sequence xs, .sequence ys => sameItems xs ys
  | .mapping xs, .mapping ys => xs.length == ys.length && sameEntries xs ys
  | .tagged t v, .tagged u w => tagName t == tagName u && same v w
  | _, _ => false

def sameItems : List Value → List Value → Bool
  | [], [] => true
  | x :: xs, y :: ys => same x y && sameItems xs ys
  | _, _ => false

def sameEntries : Entries → Entries → Bool
  | [], _ => true
  | (k, v) :: xs, ys => (ys.any fun e => same k e.1 && same v e.2) && sameEntries xs ys

end

mutual

-- The value with `f` applied to every string that is not a key and not under a tag.
def mapStrings (f : String → String) : Value → Value
  | .string s => .string (f s)
  | .sequence xs => .sequence (mapItems f xs)
  | .mapping es => .mapping (mapEntries f es)
  | v => v

def mapItems (f : String → String) : List Value → List Value
  | [] => []
  | v :: vs => mapStrings f v :: mapItems f vs

def mapEntries (f : String → String) : Entries → Entries
  | [] => []
  | (k, v) :: es => (k, mapStrings f v) :: mapEntries f es

end

mutual

def strings : Value → List String
  | .string s => [s]
  | .sequence xs => itemStrings xs
  | .mapping es => entryStrings es
  | _ => []

def itemStrings : List Value → List String
  | [] => []
  | v :: vs => strings v ++ itemStrings vs

def entryStrings : Entries → List String
  | [] => []
  | (_, v) :: es => strings v ++ entryStrings es

end

def isNull : Value → Bool
  | .null => true
  | _ => false

def untagged : Value → Value
  | .tagged _ v => untagged v
  | v => v

def string? (v : Value) : Option String :=
  match v.untagged with
  | .string s => some s
  | _ => none

def scalarText? : Value → Option String
  | .string s => some s
  | .number n => some n.text
  | .bool b => some (if b then "true" else "false")
  | _ => none

theorem mapItems_eq_map (f : String → String) (vs : List Value) :
    mapItems f vs = vs.map (mapStrings f) := by
  induction vs with
  | nil => rfl
  | cons v vs ih => simp [mapItems, ih]

theorem mapEntries_eq_map (f : String → String) (es : Entries) :
    mapEntries f es = es.map fun e => (e.1, mapStrings f e.2) := by
  induction es with
  | nil => rfl
  | cons e es ih => simp [mapEntries, ih]

@[simp] theorem string?_string (s : String) : (Value.string s).string? = some s := rfl

@[simp] theorem string?_tagged (tag : String) (v : Value) :
    (Value.tagged tag v).string? = v.string? :=
  rfl

theorem sameItems_length {xs ys : List Value} (h : sameItems xs ys = true) :
    xs.length = ys.length := by
  induction xs generalizing ys with
  | nil => cases ys <;> simp_all [sameItems]
  | cons x xs ih =>
    cases ys with
    | nil => simp [sameItems] at h
    | cons y ys =>
      simp only [sameItems, Bool.and_eq_true] at h
      simp [ih h.2]

end Value

namespace Entries

def get? (es : Entries) (key : Value) : Option Value :=
  (es.find? fun e => key.same e.1).map (·.2)

def lookup (es : Entries) (key : String) : Option Value := get? es (.string key)

def has (es : Entries) (key : String) : Bool := (lookup es key).isSome

def insert : Entries → Value → Value → Entries
  | [], k, v => [(k, v)]
  | e :: es, k, v => if k.same e.1 then (e.1, v) :: es else e :: insert es k v

def replaceFirst (key : Value) (last : Value × Value) : Entries → Entries
  | [] => []
  | e :: es => if key.same e.1 then last :: es else e :: replaceFirst key last es

def remove (es : Entries) (key : Value) : Entries :=
  match es.getLast? with
  | none => []
  | some last =>
    if key.same last.1 then es.dropLast
    else if es.any fun e => key.same e.1 then replaceFirst key last es.dropLast
    else es

def stringKeys (es : Entries) : List String := es.filterMap fun e => e.1.string?

end Entries

end Steward
