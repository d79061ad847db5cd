import Steward.Number.Decimal
import Steward.Number.Power
import Steward.Text.Blank
import Steward.Typed.Fault

set_option autoImplicit false

namespace Steward.Integer

open Text (trim)

def minimum : Int := Int.negOfNat signedLimit

def maximum : Int := Int.ofNat (signedLimit - 1)

def digit? (radix : Nat) (c : Char) : Option Nat :=
  let n :=
    if c.isDigit then some (c.toNat - 48)
    else if 'a' ≤ c && c ≤ 'z' then some (c.toNat - 87)
    else if 'A' ≤ c && c ≤ 'Z' then some (c.toNat - 55)
    else none
  n.filter (· < radix)

-- Reads digits up to a limit; whichever comes first, a wrong digit or the limit, is the fault.
def readNat (radix limit : Nat) (overflow : DigitFault) (acc : Nat) :
    List Char → Except DigitFault Nat
  | [] => .ok acc
  | c :: cs =>
    match digit? radix c with
    | none => .error .invalidDigit
    | some d =>
      if acc * radix + d ≤ limit then readNat radix limit overflow (acc * radix + d) cs
      else .error overflow

def readDigits (radix : Nat) : List Char → Except DigitFault Int
  | ['-'] | ['+'] => .error .invalidDigit
  | '-' :: cs => (readNat radix signedLimit .tooSmall 0 cs).map Int.negOfNat
  | '+' :: cs => (readNat radix (signedLimit - 1) .tooLarge 0 cs).map Int.ofNat
  | cs => (readNat radix (signedLimit - 1) .tooLarge 0 cs).map Int.ofNat

def radixOf : List Char → Nat × List Char
  | '0' :: 'x' :: cs => (16, cs)
  | '0' :: 'o' :: cs => (8, cs)
  | '0' :: 'b' :: cs => (2, cs)
  | '0' :: c :: cs => (8, c :: cs)
  | cs => (10, cs)

def readLiteral (text : List Char) : Except TypedFault Int :=
  let (negative, digits) := Decimal.takeSign text
  let (radix, body) := radixOf ((digits.filter (· != '_')).map Char.toLower)
  if body.isEmpty then .error (.noDigits (String.ofList text))
  else
    match readDigits radix body with
    | .ok n => .ok (if negative then -n else n)
    | .error cause => .error (.digits (String.ofList text) cause)

def suffixes : List (String × Nat) :=
  [("ki", twoTo 10), ("mi", twoTo 20), ("gi", twoTo 30),
    ("ti", twoTo 40), ("pi", twoTo 50), ("ei", twoTo 60),
    ("k", tenTo 3), ("m", tenTo 6), ("g", tenTo 9),
    ("t", tenTo 12), ("p", tenTo 15), ("e", tenTo 18)]

def hasRadixPrefix (text : List Char) : Bool :=
  match text.dropWhile (fun c => c == '+' || c == '-') with
  | '0' :: c :: _ => ['x', 'b', 'o'].contains c.toLower
  | _ => false

-- The text before a suffix and the factor of the suffix; a suffix needs something before it, and
-- the digits of a literal with a radix prefix are no suffix.
def splitSuffix (text : List Char) : List Char × Nat :=
  let fits := fun (s : String × Nat) =>
    let head := text.take (text.length - s.1.length)
    (Text.stripSuffix? s.1.toList (text.map Char.toLower)).isSome && !head.isEmpty &&
      !hasRadixPrefix head
  match suffixes.find? fits with
  | some (suffix, factor) => (text.take (text.length - suffix.length), factor)
  | none => (text, 1)

def tolerance : Binary64 := Binary64.ofDecimal false 1 (-9)

def readMantissa (text head : List Char) : Except TypedFault Binary64 :=
  if head.contains '.' then
    let plain := head.filter (· != '_')
    match Decimal.readFloat? plain with
    | some x => .ok x
    | none => .error (.numeral (String.ofList text) plain.isEmpty)
  else (readLiteral head).map Binary64.ofInt

-- A scaled literal is computed as a floating number; one part in `10 ^ 9` of error is allowed.
def ofScaled (text : List Char) (scaled : Binary64) : Except TypedFault Int :=
  let whole := scaled.round
  if (tolerance.mul (whole.abs.max (Binary64.ofNat 1))).lt (scaled.sub whole).abs then
    .error (.notWhole (String.ofList text))
  else if whole.lt (Binary64.ofInt minimum) || !whole.isFinite ||
      (Binary64.ofInt maximum).lt whole then
    .error (.beyondIntegers (String.ofList text))
  else .ok (whole.clampToInt minimum maximum)

def read (s : String) : Except TypedFault Int :=
  let text := trim s.toList
  if text.isEmpty then .error .emptyInteger
  else
    let (head, factor) := splitSuffix text
    if factor = 1 then readLiteral head
    else do
      let mantissa ← readMantissa text head
      ofScaled text (mantissa.mul (Binary64.ofNat factor))

def readUnsigned (s : String) : Except TypedFault Nat := do
  let n ← read s
  if n < 0 then .error (.negative s) else .ok n.toNat

theorem readNat_le {radix limit acc n : Nat} {f : DigitFault} {cs : List Char}
    (ha : acc ≤ limit) (h : readNat radix limit f acc cs = .ok n) : n ≤ limit := by
  induction cs generalizing acc with
  | nil => simp only [readNat, Except.ok.injEq] at h; omega
  | cons c cs ih =>
    simp only [readNat] at h
    split at h
    · cases h
    · split at h
      · next hl => exact ih hl h
      · cases h

end Steward.Integer
