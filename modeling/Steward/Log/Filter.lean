import Steward.Log.Record
import Steward.Number.Decimal
import Steward.Table
import Steward.Text.Blank
import Steward.Text.Search

/-!
Filters of log records. A filter is a list of rules, the most specific first; the first rule that is
about a record decides. A rule may name the beginning of a target and fields that a record must
have.

A filter is written as entries between commas: a level, `target=level`, a target alone for all its
records, and `[\x7bfield\x7d]` behind or without a target for records with a field. An entry that is
not well formed has no effect, nor has one that asks for the name of a span or the value of a field,
since records here have no spans around them.
-/

set_option autoImplicit false

namespace Steward

/-- The gravest level that is let through, and those above it; none lets nothing through. -/
abbrev Threshold := Option Level

def Threshold.admits (t : Threshold) (l : Level) : Bool :=
  match t with
  | some t => l.width ≤ t.width
  | none => false

def Threshold.name : Threshold → String
  | some l => l.name
  | none => "OFF"

structure FilterRule where
  target : Option String := none
  fields : List String := []
  level : Threshold
  deriving DecidableEq, Repr, Inhabited

namespace FilterRule

def isAbout (f : FilterRule) (r : Record) : Bool :=
  (match f.target with
    | some t => (Text.stripPrefix? t.toList r.origin.target.toList).isSome
    | none => true) &&
    f.fields.all fun name => name == "message" || (r.field? name).isSome

def weight (f : FilterRule) : Nat × Nat :=
  ((f.target.map fun t => t.utf8ByteSize + 1).getD 0, f.fields.length)

def isHeavier (a b : FilterRule) : Bool :=
  let (m, n) := a.weight
  let (m', n') := b.weight
  if m ≠ m' then m > m'
  else if n ≠ n' then n > n'
  else if a.target ≠ b.target then (a.target.getD "") > (b.target.getD "")
  else a.fields > b.fields

def isLike (a b : FilterRule) : Bool := a.target == b.target && a.fields == b.fields

def numbers : List Threshold :=
  [none, some .error, some .warn, some .info, some .debug, some .trace]

def level? (cs : List Char) : Option Threshold :=
  let digits := match cs with
    | '+' :: rest => rest
    | all => all
  if !digits.isEmpty && digits.all Char.isDigit then numbers[Decimal.ofDigits digits]?
  else numbers.find? fun t => Text.lower t.name == Text.lower (String.ofList cs)

def levelAfter? (cs : List Char) : Option Threshold :=
  if cs.isEmpty then some (some .trace) else level? cs

def readField? (target : Option String) (cs : List Char) : Option FilterRule := do
  let rest ← Text.stripPrefix? ['\x7b'] cs
  let (name, rest) ← Text.cut? ['\x7d'] rest
  if name.isEmpty || name.contains '=' then none
  else
    let fields := [String.ofList name]
    match Text.trimEnd rest, rest with
    | [']'], _ => some ⟨target, fields, some .trace⟩
    | _, ']' :: '=' :: level => do some ⟨target, fields, ← levelAfter? level⟩
    | _, _ => none

def isOpening (c : Char) : Bool := c.isAlphanum || ['-', ':', '_'].contains c

def readTarget? (cs : List Char) : Option FilterRule :=
  let isPart := fun c => c ≠ '=' && c ≠ '['
  let word := String.ofList (cs.takeWhile isPart)
  match cs.dropWhile isPart with
  | '=' :: level => do some ⟨some word, [], ← levelAfter? level⟩
  | '[' :: rest => readField? (some word) rest
  | _ =>
    match level? cs with
    | some level => some ⟨none, [], level⟩
    | none => some ⟨some word, [], some .trace⟩

def read? (entry : List Char) : Option FilterRule :=
  match entry with
  | '[' :: rest => readField? none rest
  | c :: _ => if isOpening c then readTarget? entry else none
  | [] => none

end FilterRule

structure Filter where
  rules : List FilterRule := []
  deriving DecidableEq, Repr, Inhabited

namespace Filter

def insert (f : Filter) (r : FilterRule) : Filter :=
  let rest := f.rules.filter fun other => !other.isLike r
  ⟨rest.takeWhile (·.isHeavier r) ++ r :: rest.dropWhile (·.isHeavier r)⟩

def ofRules (rules : List FilterRule) : Filter := rules.foldl insert {}

def read (s : String) : Filter := ofRules ((Text.splitOn ',' s.toList).filterMap FilterRule.read?)

def admits (f : Filter) (r : Record) : Bool :=
  match f.rules.find? (·.isAbout r) with
  | some rule => Threshold.admits rule.level r.level
  | none => false

def select (f : Filter) (log : List Record) : List Record := log.filter f.admits

def withLevel (f : Filter) (t : Threshold) : Filter := f.insert ⟨none, [], t⟩

theorem admits_empty (r : Record) : admits {} r = false := rfl

end Filter

end Steward
