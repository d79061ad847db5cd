import Steward.Number.Power
import Steward.Pattern.CharSet
import Steward.Url.Punycode

set_option autoImplicit false

namespace Steward.Url

inductive UrlFault
  | noBase
  | emptyHost
  | badPort
  | badIpv4
  | badIpv6
  | badDomainCharacter
  | badName
  deriving DecidableEq, Repr

def UrlFault.message : UrlFault → String
  | .noBase => "relative URL without a base"
  | .emptyHost => "empty host"
  | .badPort => "invalid port number"
  | .badIpv4 => "invalid IPv4 address"
  | .badIpv6 => "invalid IPv6 address"
  | .badDomainCharacter => "invalid domain character"
  | .badName => "invalid international domain name"

inductive Host
  | domain (name : String)
  | ipv4 (address : Nat)
  | ipv6 (pieces : List Nat)
  deriving DecidableEq, Repr

def hexDigit (n : Nat) : Char := if n < 10 then Char.ofNat (48 + n) else Char.ofNat (55 + n)

def percentByte (b : UInt8) : List Char :=
  ['%', hexDigit (b.toNat / 16), hexDigit (b.toNat % 16)]

def percentEncode (set : String) (cs : List Char) : String :=
  String.ofList <| cs.flatMap fun c =>
    if c.toNat < 0x20 || c.toNat ≥ 0x7F || set.contains c then
      (String.singleton c).toUTF8.toList.flatMap percentByte
    else [c]

def hexValue? (c : Char) : Option Nat :=
  if c.isDigit then some (c.toNat - 48)
  else if 'a' ≤ c && c ≤ 'f' then some (c.toNat - 87)
  else if 'A' ≤ c && c ≤ 'F' then some (c.toNat - 55)
  else none

def percentDecode : List Char → List UInt8
  | [] => []
  | '%' :: a :: b :: cs =>
    match hexValue? a, hexValue? b with
    | some x, some y => UInt8.ofNat (x * 16 + y) :: percentDecode cs
    | _, _ => 37 :: percentDecode (a :: b :: cs)
  | c :: cs => (String.singleton c).toUTF8.toList ++ percentDecode cs

def ofHex (cs : List Char) : Nat := cs.foldl (fun n c => n * 16 + (hexValue? c).getD 0) 0

def ofOctal (cs : List Char) : Nat := cs.foldl (fun n c => n * 8 + (c.toNat - 48)) 0

def ipv4Number? : List Char → Option Nat
  | [] => none
  | '0' :: x :: cs =>
    if x = 'x' || x = 'X' then
      if cs.all fun c => (hexValue? c).isSome then some (ofHex cs) else none
    else if (x :: cs).all fun c => '0' ≤ c && c ≤ '7' then some (ofOctal (x :: cs))
    else none
  | cs =>
    if cs.all Char.isDigit then some (cs.foldl (fun n c => n * 10 + (c.toNat - 48)) 0) else none

def labels (name : List Char) : List (List Char) :=
  let parts := Text.splitOn '.' name
  if parts.getLast? = some [] then parts.dropLast else parts

def endsInNumber (name : List Char) : Bool :=
  match (labels name).getLast? with
  | none => false
  | some last => (!last.isEmpty && last.all Char.isDigit) ||
      (match last with
        | '0' :: _ :: _ => (ipv4Number? last).isSome
        | _ => false)

def readIpv4 (name : List Char) : Except UrlFault Host :=
  let parts := labels name
  match parts.mapM ipv4Number? with
  | none => .error .badIpv4
  | some numbers =>
    let last := numbers.getLast?.getD 0
    let room := twoTo (8 * (5 - numbers.length))
    if numbers.length > 4 || numbers.dropLast.any (· > 255) || last ≥ room then
      .error .badIpv4
    else
      let high := numbers.dropLast.zipIdx.foldl (fun sum (n, i) => sum + n * twoTo (8 * (3 - i))) 0
      .ok (.ipv4 (high + last))

def readPieces (text : List Char) : Option (List Nat) :=
  if text.isEmpty then some []
  else
    let parts := Text.splitOn ':' text
    let piece := fun (cs : List Char) =>
      if cs.isEmpty || cs.length > 4 || !cs.all (fun c => (hexValue? c).isSome) then none
      else some [ofHex cs]
    let dotted := fun (cs : List Char) =>
      let numbers := Text.splitOn '.' cs
      let fits := fun (n : List Char) =>
        !n.isEmpty && n.length ≤ 3 && n.all Char.isDigit && (n.length = 1 || n.head? != some '0') &&
          n.foldl (fun a c => a * 10 + (c.toNat - 48)) 0 ≤ 255
      if numbers.length = 4 && numbers.all fits then
        match numbers.map fun n => n.foldl (fun a c => a * 10 + (c.toNat - 48)) 0 with
        | [a, b, c, d] => some [a * 256 + b, c * 256 + d]
        | _ => none
      else none
    let last := parts.getLast?.getD []
    let lastPieces := if last.contains '.' then dotted last else piece last
    match parts.dropLast.mapM piece, lastPieces with
    | some front, some back => some (front.flatten ++ back)
    | _, _ => none

def readIpv6 (text : List Char) : Except UrlFault Host :=
  match Text.cut? [':', ':'] text with
  | none =>
    match readPieces text with
    | some ps => if ps.length = 8 then .ok (.ipv6 ps) else .error .badIpv6
    | none => .error .badIpv6
  | some (before, after) =>
    if before.contains '.' then .error .badIpv6
    else
      match readPieces before, readPieces after with
      | some front, some back =>
        let gap := 8 - front.length - back.length
        if front.length + back.length ≤ 7 then
          .ok (.ipv6 (front ++ List.replicate gap 0 ++ back))
        else .error .badIpv6
      | _, _ => .error .badIpv6

def hexText (n : Nat) : String := String.ofList ((Nat.toDigits 16 n).map Char.toLower)

def zeroRun (ps : List Nat) : Option (Nat × Nat) :=
  let runAt := fun (i : Nat) => ((ps.drop i).takeWhile (· == 0)).length
  let best := (List.range ps.length).foldl
    (fun (best : Nat × Nat) i => if runAt i > best.2 then (i, runAt i) else best) (0, 0)
  if best.2 ≥ 2 then some best else none

def ipv6Text (ps : List Nat) : String :=
  let join := fun (qs : List Nat) => ":".intercalate (qs.map hexText)
  match zeroRun ps with
  | none => join ps
  | some (start, len) => join (ps.take start) ++ "::" ++ join (ps.drop (start + len))

def ipv4Text (a : Nat) : String :=
  ".".intercalate ([a / twoTo 24, a / twoTo 16 % 256, a / 256 % 256, a % 256].map toString)

def Host.text : Host → String
  | .domain name => name
  | .ipv4 a => ipv4Text a
  | .ipv6 ps => "[" ++ ipv6Text ps ++ "]"

-- Letters of names fold as letters do, apart from the final sigma, which stays; full-width forms
-- and the ideographic full stop fold to their ASCII counterparts.
def foldName (c : Char) : Char :=
  let n := c.toNat
  if n < 128 then c.toLower
  else if n = 0x3002 || n = 0xFF0E || n = 0xFF61 then '.'
  else if 0xFF01 ≤ n && n ≤ 0xFF5E then (Char.ofNat (n - 0xFEE0)).toLower
  else if n = 0x3C2 then c
  else Char.ofNat (Text.CaseFold.fold n)

def ignoredInName : CharSet :=
  ⟨[(0xAD, 0xAD), (0x34F, 0x34F), (0x180B, 0x180D), (0x180F, 0x180F), (0x200B, 0x200B),
    (0x2060, 0x2060), (0x2064, 0x2064), (0xFE00, 0xFE0F), (0xFEFF, 0xFEFF), (0xE0100, 0xE01EF)]⟩

def isMark (c : Char) : Bool := ["Mn", "Mc", "Me"].contains (Text.Category.of c)

def allowedInName (before : Option Char) (c : Char) : Bool :=
  if c == '\u200c' || c == '\u200d' then before.any isMark
  else
    let banned := ["Cc", "Cf", "Cs", "Co", "Cn", "Zs", "Zl", "Zp"]
    c.toNat < 128 || !banned.contains (Text.Category.of c)

def allAllowed (before : Option Char) : List Char → Bool
  | [] => true
  | c :: cs => allowedInName before c && allAllowed (some c) cs

def isProper (label : List Char) : Bool := !label.head?.any isMark && allAllowed none label

def isFolded (label : List Char) : Bool :=
  label.all fun c => foldName c = c && !ignoredInName.has c.toNat

def forbiddenInHost (c : Char) : Bool := "\x00\t\n\r #/:<>?@[\\]^|".contains c

def forbiddenInDomain (c : Char) : Bool :=
  forbiddenInHost c || c.toNat ≤ 0x1F || c == '%' || c.toNat == 0x7F

def punycodeMark : List Char := "xn--".toList

def asciiLabel? (label : List Char) : Option String :=
  match Text.stripPrefix? punycodeMark label with
  | some rest =>
    match Punycode.decode? rest with
    | some decoded =>
      if decoded.any (·.toNat ≥ 128) && isFolded decoded && isProper decoded then
        some (String.ofList label)
      else none
    | none => none
  | none =>
    if label.all (·.toNat < 128) then some (String.ofList label)
    else if isProper label then some (String.ofList punycodeMark ++ Punycode.encode label)
    else none

def asciiName? (name : List Char) : Option String := do
  let folded := (name.filter fun c => !ignoredInName.has c.toNat).map foldName
  let labels ← (Text.splitOn '.' folded).mapM asciiLabel?
  let ascii := ".".intercalate labels
  if ascii.toList.any forbiddenInDomain then none else some ascii

def readDomain (text : List Char) : Except UrlFault Host :=
  match String.fromUTF8? ⟨(percentDecode text).toArray⟩ with
  | none => .error .badName
  | some decoded =>
    match asciiName? decoded.toList with
    | none => .error .badName
    | some name =>
      if name.isEmpty then .error .emptyHost
      else if endsInNumber name.toList then readIpv4 name.toList
      else .ok (.domain name)

def bracketed? (text : List Char) : Option (Except UrlFault Host) :=
  match text with
  | '[' :: rest =>
    some (match rest.reverse with
      | ']' :: inner => readIpv6 inner.reverse
      | _ => .error .badIpv6)
  | _ => none

def readHost (text : List Char) : Except UrlFault Host := (bracketed? text).getD (readDomain text)

def readOpaqueHost (text : List Char) : Except UrlFault Host :=
  (bracketed? text).getD <|
    if text.any forbiddenInHost then .error .badDomainCharacter
    else .ok (.domain (percentEncode "" text))

end Steward.Url
