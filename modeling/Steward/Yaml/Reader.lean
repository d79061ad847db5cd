import Steward.Number.Decimal
import Steward.Number.Power
import Steward.Typed.Integer
import Steward.Value
import Steward.Yaml.Node

set_option autoImplicit false

namespace Steward.Yaml

namespace Scalar

def null? (s : String) : Option Value :=
  if ["null", "Null", "NULL", "~"].contains s then some .null else none

def bool? (s : String) : Option Value :=
  if ["true", "True", "TRUE"].contains s then some (.bool true)
  else if ["false", "False", "FALSE"].contains s then some (.bool false)
  else none

def hasLeadingZero (cs : List Char) : Bool :=
  match cs with
  | '-' :: '0' :: d :: ds | '+' :: '0' :: d :: ds | '0' :: d :: ds => (d :: ds).all Char.isDigit
  | _ => false

def digits? (radix : Nat) (cs : List Char) : Option Nat :=
  if cs.isEmpty then none
  else cs.foldlM (fun n c => (Integer.digit? radix c).map (n * radix + ·)) 0

def radix? : List Char → Option (Nat × List Char)
  | '0' :: 'x' :: cs => some (16, cs)
  | '0' :: 'o' :: cs => some (8, cs)
  | '0' :: 'b' :: cs => some (2, cs)
  | _ => none

def magnitude? (cs : List Char) : Option Nat :=
  match radix? cs with
  | some (radix, body) => digits? radix body
  | none => digits? 10 cs

def integer? (cs : List Char) : Option Int :=
  match cs with
  | '-' :: rest => if hasLeadingZero cs then none else (magnitude? rest).map fun n => -(n : Int)
  | '+' :: rest => if hasLeadingZero cs then none else (magnitude? rest).map Int.ofNat
  | _ => if hasLeadingZero cs then none else (magnitude? cs).map Int.ofNat

def float? (cs : List Char) : Option Binary64 :=
  let s := String.ofList cs
  let unsigned := match cs with
    | '+' :: rest => rest
    | _ => cs
  let u := String.ofList unsigned
  if [".inf", ".Inf", ".INF"].contains u then some (.infinite false)
  else if ["-.inf", "-.Inf", "-.INF"].contains s then some (.infinite true)
  else if [".nan", ".NaN", ".NAN"].contains s then some .nan
  else if cs.head? = some '+' && unsigned.head?.any fun c => c == '+' || c == '-' then none
  else (Decimal.readFloat? unsigned).filter Binary64.isFinite

-- An integer of more than 64 bits, up to 128, is an error; a longer one is a floating number.
def int? (cs : List Char) : Option (Option Value) :=
  match integer? cs with
  | none => none
  | some i =>
    if Int.negOfNat signedLimit ≤ i && i < Int.ofNat wordLimit then some (some (.number (.int i)))
    else if Int.negOfNat (twoTo 127) ≤ i && i < Int.ofNat (twoTo 128) then some none
    else none

def ofPlain (s : String) : Option Value :=
  if s = "" then some .null
  else
    match null? s <|> bool? s with
    | some v => some v
    | none =>
      let cs := s.toList
      match int? cs with
      | some v => v
      | none =>
        if hasLeadingZero cs then some (.string s)
        else
          match float? cs with
          | some x => some (.number (.float x))
          | none => some (.string s)

def standard : String := "tag:yaml.org,2002:"

def ofUntagged (plain : Bool) (s : String) : Option Value :=
  if plain then ofPlain s else some (.string s)

def ofTagged (tag s : String) : Option Value :=
  if tag = standard ++ "bool" then bool? s
  else if tag = standard ++ "int" then (int? s.toList).join
  else if tag = standard ++ "float" then (float? s.toList).map fun x => .number (.float x)
  else if tag = standard ++ "null" then null? s
  else some (.string s)

end Scalar

def ownTag? (tag : Option String) : Option String :=
  match tag.map String.toList with
  | some ('!' :: rest) => some (if rest.isEmpty then "!!" else String.ofList ('!' :: rest))
  | _ => none

structure Anchored where
  id : Nat
  place : Nat
  node : Node

/-- The anchors met so far: a name stands for a number, and a number for the last node that got it.
A new anchor gets the count of names as its number. -/
structure Anchors where
  names : List (String × Nat)
  nodes : List Anchored
  events : Nat

namespace Anchors

def add (a : Anchors) (label : Label) (n : Node) (events : Nat) : Anchors :=
  match label.anchor with
  | none => { a with events := a.events + events }
  | some name =>
    let id := a.names.length
    { names := (name, id) :: a.names.filter (·.1 != name)
      nodes := ⟨id, a.events, n⟩ :: a.nodes.filter (·.id != id)
      events := a.events + events }

def settle (a : Anchors) (place : Nat) (n : Node) : Anchors :=
  { a with nodes := a.nodes.map fun e => if e.place == place then { e with node := n } else e }

def node? (a : Anchors) (id : Nat) : Option Node := (a.nodes.find? (·.id == id)).map (·.node)

end Anchors

mutual

def number (a : Anchors) : Node → Option (Anchors × Node)
  | .alias name =>
    (a.names.lookup name).map fun id => ({ a with events := a.events + 1 }, .reference id)
  | .reference id => some (a, .reference id)
  | .scalar label plain text =>
    some (a.add label (.scalar label plain text) 1, .scalar label plain text)
  | .sequence label items => do
    let (after, items) ← numberItems (a.add label .empty 2) items
    let n := Node.sequence label items
    return (after.settle a.events n, n)
  | .mapping label entries => do
    let (after, entries) ← numberEntries (a.add label .empty 2) entries
    let n := Node.mapping label entries
    return (after.settle a.events n, n)

def numberItems (a : Anchors) : List Node → Option (Anchors × List Node)
  | [] => some (a, [])
  | n :: ns => do
    let (a, n) ← number a n
    let (a, ns) ← numberItems a ns
    return (a, n :: ns)

def numberEntries (a : Anchors) : List (Node × Node) → Option (Anchors × List (Node × Node))
  | [] => some (a, [])
  | (k, v) :: es => do
    let (a, k) ← number a k
    let (a, v) ← number a v
    let (a, es) ← numberEntries a es
    return (a, (k, v) :: es)

end

def depthLimit : Nat := 128

abbrev Follow := StateT Nat Option

def follow (anchors : Anchors) (n : Node) : Follow Node := do
  match n with
  | .reference id =>
    let left ← get
    if left = 0 then failure
    set (left - 1)
    match anchors.node? id with
    | some n => return n
    | none => failure
  | n => return n

def withTag (label : Label) (v : Value) : Value :=
  match ownTag? label.tag with
  | some tag => .tagged tag v
  | none => v

def value (anchors : Anchors) : Nat → Node → Follow Value
  | depth, n => do
    match ← follow anchors n with
    | .alias _ | .reference _ => failure
    | .scalar label plain text =>
      match label.tag, ownTag? label.tag with
      | none, _ => Scalar.ofUntagged plain text
      | some _, some own => return .tagged own (← Scalar.ofUntagged plain text)
      | some tag, none => Scalar.ofTagged tag text
    | .sequence label items =>
      match depth with
      | 0 => failure
      | d + 1 => return withTag label (.sequence (← items.mapM (value anchors d)))
    | .mapping label entries =>
      match depth with
      | 0 => failure
      | d + 1 =>
        let es ← entries.foldlM (fun es (k, v) => do
          let k ← value anchors d k
          -- A key that comes twice makes the document wrong, before its second value is read.
          if (Entries.get? es k).isSome then failure
          return es ++ [(k, ← value anchors d v)]) ([] : Entries)
        return withTag label (.mapping es)

def read? (text : String) : Option Value := do
  if Text.trimmed text = "" then return .null
  let root ← Node.read? text
  let (anchors, root) ← number { names := [], nodes := [], events := 0 } root
  let (v, _) ← (value anchors depthLimit root).run (anchors.events * 100)
  return v

end Steward.Yaml
