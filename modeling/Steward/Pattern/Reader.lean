import Steward.Number.Power
import Steward.Pattern.Basic
import Steward.Text.Blank

set_option autoImplicit false

namespace Steward.Pattern

structure Flags where
  caseless : Bool := false
  multiLine : Bool := false
  dotAll : Bool := false
  unicode : Bool := true
  verbose : Bool := false
  crlf : Bool := false
  deriving DecidableEq, Repr

inductive Escaped
  | literal (c : Char)
  | set (s : CharSet)
  | assertion (a : Assertion)
  deriving DecidableEq, Repr

def Flags.cased (f : Flags) (s : CharSet) : CharSet :=
  if f.caseless then s.foldCase f.unicode else s

def Flags.allows (f : Flags) (s : CharSet) : Bool := f.unicode || s.ranges.all (·.2 < 128)

def hexValue? (c : Char) : Option Nat :=
  if c.isDigit then some (c.toNat - 48)
  else if 'a' ≤ c && c ≤ 'f' then some (c.toNat - 87)
  else if 'A' ≤ c && c ≤ 'F' then some (c.toNat - 55)
  else none

def ofHex? (cs : List Char) : Option Char := do
  if cs.isEmpty || cs.length > 8 then none
  let n ← cs.foldlM (fun n c => (hexValue? c).map (n * 16 + ·)) 0
  if n < 0xD800 || (0xDFFF < n && n ≤ 0x10FFFF) then some (Char.ofNat n) else none

def readHex (width : Nat) : List Char → Option (Char × List Char)
  | '{' :: cs =>
    let digits := cs.takeWhile (· != '}')
    match cs.drop digits.length with
    | '}' :: rest => (ofHex? digits).map (·, rest)
    | _ => none
  | cs =>
    if cs.length < width then none else (ofHex? (cs.take width)).map (·, cs.drop width)

def readProperty (flags : Flags) (negated : Bool) (cs : List Char) :
    Option (Escaped × List Char) := do
  let (name, rest) ← match cs with
    | '{' :: cs =>
      let name := cs.takeWhile (· != '}')
      match cs.drop name.length with
      | '}' :: rest => some (name, rest)
      | _ => none
    | c :: rest => some ([c], rest)
    | [] => none
  let set ← CharSet.property? name
  if !flags.unicode then none
  let set := flags.cased set
  some (.set (if negated then set.compl else set), rest)

def readClassEscape (flags : Flags) (negated : Bool) (set : CharSet) (rest : List Char) :
    Option (Escaped × List Char) :=
  let set := if negated then set.compl else set
  if flags.allows set then some (.set set, rest) else none

def readBoundary (flags : Flags) (cs : List Char) : Assertion × List Char :=
  let u := flags.unicode
  let named := fun (name : String) (a : Assertion) =>
    (match cs with
      | '{' :: rest =>
        if (rest.takeWhile (· != '}')) = name.toList && rest.contains '}' then
          some (a, rest.drop (name.length + 1))
        else none
      | _ => none)
  (named "start" (.wordStart u) <|> named "end" (.wordFinish u) <|>
    named "start-half" (.wordStartHalf u) <|> named "end-half" (.wordFinishHalf u)).getD
    (.boundary u, cs)

def isPlainEscape (c : Char) : Bool :=
  c.toNat < 128 && !c.isAlphanum && c != '<' && c != '>'

def readEscape (flags : Flags) : List Char → Option (Escaped × List Char)
  | [] => none
  | c :: cs =>
    let u := flags.unicode
    if isPlainEscape c then some (.literal c, cs)
    else
      match c with
      | 'x' =>
        match readHex 2 cs with
        | some (c, rest) =>
          if u || c.toNat < 128 || cs.head? = some '{' then some (.literal c, rest) else none
        | none => none
      | 'u' => (readHex 4 cs).map fun (c, rest) => (.literal c, rest)
      | 'U' => (readHex 8 cs).map fun (c, rest) => (.literal c, rest)
      | 'p' => readProperty flags false cs
      | 'P' => readProperty flags true cs
      | 'd' => readClassEscape flags false (.digit u) cs
      | 'D' => readClassEscape flags true (.digit u) cs
      | 's' => readClassEscape flags false (.space u) cs
      | 'S' => readClassEscape flags true (.space u) cs
      | 'w' => readClassEscape flags false (.word u) cs
      | 'W' => readClassEscape flags true (.word u) cs
      | 'a' => some (.literal '\x07', cs)
      | 'f' => some (.literal '\x0c', cs)
      | 't' => some (.literal '\t', cs)
      | 'n' => some (.literal '\n', cs)
      | 'r' => some (.literal '\r', cs)
      | 'v' => some (.literal '\x0b', cs)
      | 'A' => some (.assertion .start, cs)
      | 'z' => some (.assertion .finish, cs)
      | 'b' => let (a, rest) := readBoundary flags cs; some (.assertion a, rest)
      | 'B' => some (.assertion (.inside u), cs)
      | '<' => some (.assertion (.wordStart u), cs)
      | '>' => some (.assertion (.wordFinish u), cs)
      | _ => none

def skipSpace (flags : Flags) (cs : List Char) : List Char :=
  if !flags.verbose then cs
  else go cs.length cs
where
  go : Nat → List Char → List Char
    | 0, cs => cs
    | n + 1, cs =>
      match cs.dropWhile Text.isBlank with
      | '#' :: rest => go n ((rest.dropWhile (· != '\n')).drop 1)
      | rest => rest

inductive ClassOp
  | inter
  | diff
  | symmDiff
  deriving DecidableEq, Repr

def ClassOp.apply : ClassOp → CharSet → CharSet → CharSet
  | .inter, s, t => s.inter t
  | .diff, s, t => s.diff t
  | .symmDiff, s, t => s.symmDiff t

structure Bracket where
  negated : Bool
  left : Option (CharSet × ClassOp)
  set : CharSet

def Bracket.value (flags : Flags) (b : Bracket) : CharSet :=
  let set := flags.cased b.set
  match b.left with
  | some (left, op) => op.apply left set
  | none => set

def Bracket.close (flags : Flags) (b : Bracket) : CharSet :=
  if b.negated then (b.value flags).compl else b.value flags

def Bracket.operator (flags : Flags) (b : Bracket) (op : ClassOp) : Bracket :=
  { b with left := some (b.value flags, op), set := .none }

def openBracket (flags : Flags) (cs : List Char) : Bracket × List Char :=
  let cs := skipSpace flags cs
  let (negated, cs) := match cs with
    | '^' :: rest => (true, skipSpace flags rest)
    | cs => (false, cs)
  let hyphens := cs.takeWhile (· == '-')
  let rest := cs.drop hyphens.length
  if !hyphens.isEmpty then ({ negated, left := none, set := .single '-' }, rest)
  else
    match rest with
    | ']' :: rest => ({ negated, left := none, set := .single ']' }, rest)
    | rest => ({ negated, left := none, set := .none }, rest)

def readPosix? : List Char → Option (CharSet × List Char)
  | ':' :: cs => do
    let (negated, cs) := match cs with
      | '^' :: rest => (true, rest)
      | cs => (false, cs)
    let name := cs.takeWhile (· != ':')
    match cs.drop name.length with
    | ':' :: ']' :: rest =>
      let set ← CharSet.posix? (String.ofList name)
      some (if negated then set.compl else set, rest)
    | _ => none
  | _ => none

def readClassItem (flags : Flags) : List Char → Option (Escaped × List Char)
  | '\\' :: cs => readEscape flags cs
  | c :: cs => some (.literal c, cs)
  | [] => none

def readClassRange (flags : Flags) (cs : List Char) : Option (CharSet × List Char) := do
  let (first, rest) ← readClassItem flags cs
  let rest := skipSpace flags rest
  let isRange := match rest with
    | '-' :: more =>
      match skipSpace flags more with
      | ']' :: _ | '-' :: _ => false
      | _ => true
    | _ => false
  if isRange then
    let (last, rest) ← readClassItem flags (skipSpace flags (rest.drop 1))
    match first, last with
    | .literal a, .literal b => if a ≤ b then some (.range a b, rest) else none
    | _, _ => none
  else
    match first with
    | .literal c => some (.single c, rest)
    | .set s => some (s, rest)
    | .assertion _ => none

def readClass (flags : Flags) (stack : List Bracket) (cs : List Char) :
    Option (CharSet × List Char) :=
  match stack with
  | [] => none
  | b :: outer =>
    let next := fun (stack : List Bracket) (rest : List Char) =>
      if _h : rest.length < cs.length then readClass flags stack rest else none
    match skipSpace flags cs with
    | [] => none
    | '[' :: rest =>
      match readPosix? rest with
      | some (found, rest) => next ({ b with set := b.set.union found } :: outer) rest
      | none =>
        let (inner, rest) := openBracket flags rest
        next (inner :: b :: outer) rest
    | ']' :: rest =>
      match outer with
      | [] => some (b.close flags, rest)
      | parent :: above =>
        next ({ parent with set := parent.set.union (b.close flags) } :: above) rest
    | '&' :: '&' :: rest => next (b.operator flags .inter :: outer) rest
    | '-' :: '-' :: rest => next (b.operator flags .diff :: outer) rest
    | '~' :: '~' :: rest => next (b.operator flags .symmDiff :: outer) rest
    | other =>
      match readClassRange flags other with
      | none => none
      | some (found, rest) => next ({ b with set := b.set.union found } :: outer) rest
termination_by cs.length

inductive Item
  | pattern (p : Pattern)
  | flags

structure Group where
  outer : Flags
  alternatives : List Pattern
  items : List Item

structure Reading where
  flags : Flags
  groups : List Group
  alternatives : List Pattern
  items : List Item
  names : List String

namespace Reading

def start : Reading := { flags := {}, groups := [], alternatives := [], items := [], names := [] }

def sequence (items : List Item) : Pattern :=
  items.foldl (fun acc i =>
    match i with
    | .pattern p => if acc = .empty then p else .seq p acc
    | .flags => acc) .empty

def body (r : Reading) : Pattern :=
  r.alternatives.foldl (fun acc p => .alt p acc) (sequence r.items)

def push (r : Reading) (p : Pattern) : Reading := { r with items := .pattern p :: r.items }

def openGroup (r : Reading) (flags : Flags) : Reading :=
  { r with
    flags
    groups := ⟨r.flags, r.alternatives, r.items⟩ :: r.groups
    alternatives := []
    items := [] }

def closeGroup? (r : Reading) : Option Reading :=
  match r.groups with
  | [] => none
  | g :: groups =>
    some { r with
      flags := g.outer
      groups
      alternatives := g.alternatives
      items := .pattern r.body :: g.items }

def pushSet? (r : Reading) (set : CharSet) : Option Reading :=
  if r.flags.allows set then some (r.push (.set set)) else none

def pushLiteral (r : Reading) (c : Char) : Reading := r.push (.set (r.flags.cased (.single c)))

-- Repeats the last element; a `?` behind the operator changes nothing about what matches.
def repeatLast? (r : Reading) (min : Nat) (max : Option Nat) (rest : List Char) :
    Option (Reading × List Char) :=
  match r.items with
  | .pattern p :: items =>
    let rest := match skipSpace r.flags rest with
      | '?' :: more => more
      | _ => rest
    some ({ r with items := .pattern (.repeated p min max) :: items }, rest)
  | _ => none

def readNat? (cs : List Char) : Option (Nat × List Char) :=
  let digits := cs.takeWhile Char.isDigit
  let n := digits.foldl (fun n c => n * 10 + (c.toNat - 48)) 0
  if digits.isEmpty || n ≥ twoTo 32 then none else some (n, cs.drop digits.length)

def readCount? (flags : Flags) (cs : List Char) : Option (Nat × Option Nat × List Char) := do
  let (min, rest) ← readNat? (skipSpace flags cs)
  match skipSpace flags rest with
  | '}' :: rest => some (min, some min, rest)
  | ',' :: rest =>
    match skipSpace flags rest with
    | '}' :: rest => some (min, none, rest)
    | rest =>
      let (max, rest) ← readNat? rest
      match skipSpace flags rest with
      | '}' :: rest => if min ≤ max then some (min, some max, rest) else none
      | _ => none
  | _ => none

def isNameStart (c : Char) : Bool :=
  c == '_' || c.isAlpha || (c.toNat ≥ 128 && (CharSet.word true).has c.toNat)

def isNameChar (c : Char) : Bool := isNameStart c || c.isDigit || c == '.' || c == '[' || c == ']'

def readName? (r : Reading) (cs : List Char) : Option (String × List Char) :=
  let name := cs.takeWhile (· != '>')
  match cs.drop name.length with
  | '>' :: rest =>
    let taken := r.names.contains (String.ofList name)
    if name.head?.any isNameStart && name.all isNameChar && !taken then
      some (String.ofList name, rest)
    else none
  | _ => none

def setFlag? (flags : Flags) (c : Char) (on : Bool) : Option Flags :=
  match c with
  | 'i' => some { flags with caseless := on }
  | 'm' => some { flags with multiLine := on }
  | 's' => some { flags with dotAll := on }
  | 'u' => some { flags with unicode := on }
  | 'x' => some { flags with verbose := on }
  | 'R' => some { flags with crlf := on }
  | 'U' => some flags
  | _ => none

def readFlags? (flags : Flags) (seen : List Char) (on : Bool) :
    List Char → Option (Flags × Bool × Bool × List Char)
  | [] => none
  | ':' :: rest => if seen.head? = some '-' then none else some (flags, true, seen.isEmpty, rest)
  | ')' :: rest => if seen.head? = some '-' then none else some (flags, false, seen.isEmpty, rest)
  | '-' :: rest =>
    if seen.contains '-' then none else readFlags? flags ('-' :: seen) false rest
  | c :: rest =>
    if seen.contains c then none
    else
      match setFlag? flags c on with
      | some flags => readFlags? flags (c :: seen) on rest
      | none => none

def readGroup (r : Reading) (cs : List Char) : Option (Reading × List Char) :=
  let named := fun (cs : List Char) =>
    (r.readName? cs).map fun (name, rest) =>
      ({ (r.openGroup r.flags) with names := name :: r.names }, rest)
  match cs with
  | '?' :: 'P' :: '<' :: rest => named rest
  | '?' :: '<' :: c :: rest => if c = '=' || c = '!' then none else named (c :: rest)
  | '?' :: rest =>
    match readFlags? r.flags [] true rest with
    | none => none
    | some (flags, true, _, rest) => some (r.openGroup flags, rest)
    | some (flags, false, bare, rest) =>
      if bare then none else some ({ r with flags, items := .flags :: r.items }, rest)
  | rest => some (r.openGroup r.flags, rest)

def lineBreaks (crlf : Bool) : CharSet := if crlf then ⟨[(10, 10), (13, 13)]⟩ else .single '\n'

def step (r : Reading) (cs : List Char) : Option (Reading × List Char) :=
  match cs with
  | [] => none
  | '(' :: rest => r.readGroup rest
  | ')' :: rest => r.closeGroup?.map (·, rest)
  | '|' :: rest =>
    some ({ r with alternatives := sequence r.items :: r.alternatives, items := [] }, rest)
  | '[' :: rest =>
    let (bracket, rest) := openBracket r.flags rest
    match readClass r.flags [bracket] rest with
    | none => none
    | some (found, rest) => (r.pushSet? found).map (·, rest)
  | '?' :: rest => r.repeatLast? 0 (some 1) rest
  | '*' :: rest => r.repeatLast? 0 none rest
  | '+' :: rest => r.repeatLast? 1 none rest
  | '{' :: rest =>
    match r.items, readCount? r.flags rest with
    | .pattern _ :: _, some (min, max, rest) => r.repeatLast? min max rest
    | _, _ => none
  | '.' :: rest =>
    (r.pushSet? (if r.flags.dotAll then .all else (lineBreaks r.flags.crlf).compl)).map (·, rest)
  | '^' :: rest =>
    let place := if r.flags.multiLine then .lineStart r.flags.crlf else .start
    some (r.push (.assertion place), rest)
  | '$' :: rest =>
    let place := if r.flags.multiLine then .lineFinish r.flags.crlf else .finish
    some (r.push (.assertion place), rest)
  | '\\' :: rest =>
    match readEscape r.flags rest with
    | none => none
    | some (.literal c, rest) => some (r.pushLiteral c, rest)
    | some (.set s, rest) => some (r.push (.set s), rest)
    | some (.assertion a, rest) => some (r.push (.assertion a), rest)
  | c :: rest => some (r.pushLiteral c, rest)

def run (r : Reading) (cs : List Char) : Option Pattern :=
  match skipSpace r.flags cs with
  | [] => if r.groups.isEmpty then some r.body else none
  | rest =>
    match r.step rest with
    | none => none
    | some (r, left) => if _h : left.length < cs.length then run r left else none
termination_by cs.length

end Reading

def sizeLimit : Nat := 250000

def size : Pattern → Nat
  | .empty | .assertion _ => 1
  | .set s => 1 + (s.canonical.ranges.length - 1) * 3 / 2
  | .seq p q | .alt p q => size p + size q
  | .repeated p min max => size p * (max.getD (min + 1)) + 1

def read? (text : String) : Option Pattern :=
  (Reading.start.run text.toList).filter (size · ≤ sizeLimit)

end Steward.Pattern
