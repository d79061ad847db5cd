import Steward.Number.Power
import Steward.Number.Shortest
import Steward.Span
import Steward.Surroundings
import Steward.Typed.Integer

set_option autoImplicit false

namespace Steward

open Text (trim)

def Binary64.read (s : String) : Except TypedFault Binary64 :=
  let text := trim s.toList
  let (head, factor) := Integer.splitSuffix text
  let plain := head.filter (· != '_')
  match Decimal.readFloat? plain with
  | some x => .ok (x.mul (Binary64.ofNat factor))
  | none => .error (.numeral (String.ofList text) plain.isEmpty)

namespace Truth

def trueWords : List String := ["true", "yes", "on", "1", "y"]

def falseWords : List String := ["false", "no", "off", "0", "n"]

def read (s : String) : Except TypedFault Bool :=
  let word := Text.lower (Text.trimmed s)
  if trueWords.contains word then .ok true
  else if falseWords.contains word then .ok false
  else .error (.notBool word)

end Truth

namespace Span

def maxNanos : Int := Int.ofNat (wordLimit - 1)

def ofNanos (x : Binary64) : Span := ⟨(x.round.clampToInt 0 maxNanos).toNat⟩

def ofFloatSeconds (x : Binary64) : Except TypedFault Span :=
  if x.lt Binary64.zero || !x.isFinite then .error (.notSpan x.messageText)
  else .ok (ofNanos (x.mul (Binary64.ofNat (tenTo 9))))

def unitNanos? (unit : List Char) : Option Nat :=
  match String.ofList unit with
  | "ns" => some 1
  | "us" | "µs" | "μs" => some (tenTo 3)
  | "ms" => some (tenTo 6)
  | "s" => some (tenTo 9)
  | "m" => some (60 * tenTo 9)
  | "h" => some (3600 * tenTo 9)
  | "d" => some (86400 * tenTo 9)
  | _ => none

def isNumeral (c : Char) : Bool := c.isDigit || c == '.'

theorem length_dropWhile_lt {p : Char → Bool} {cs : List Char} (h : cs.takeWhile p ≠ []) :
    (cs.dropWhile p).length < cs.length := by
  have hl := congrArg List.length (List.takeWhile_append_dropWhile (p := p) (l := cs))
  have : 0 < (cs.takeWhile p).length := List.length_pos_iff.mpr h
  simp only [List.length_append] at hl
  omega

theorem length_dropWhile_le (p : Char → Bool) (cs : List Char) :
    (cs.dropWhile p).length ≤ cs.length := by
  have hl := congrArg List.length (List.takeWhile_append_dropWhile (p := p) (l := cs))
  simp only [List.length_append] at hl
  omega

def readItems (text : String) (total : Binary64) (cs : List Char) : Except TypedFault Binary64 :=
  if cs = [] then .ok total
  else
    let number := cs.takeWhile isNumeral
    if _h : number = [] then .error (.notSpan text)
    else
      match Decimal.readFloat? number with
      | none => .error (.notSpan text)
      | some x =>
        let rest := cs.dropWhile isNumeral
        let unit := rest.takeWhile (!isNumeral ·)
        if unit.isEmpty then .error (.unitMissing text)
        else
          match unitNanos? unit with
          | none => .error (.unitUnknown (String.ofList unit) text)
          | some n =>
            readItems text (total.add (x.mul (Binary64.ofNat n))) (rest.dropWhile (!isNumeral ·))
termination_by cs.length
decreasing_by
  have h₁ := length_dropWhile_lt (p := isNumeral) _h
  have h₂ := length_dropWhile_le (!isNumeral ·) (cs.dropWhile isNumeral)
  omega

-- A bare number counts seconds.
def read (s : String) : Except TypedFault Span :=
  let text := trim s.toList
  if text.isEmpty then .error .emptySpan
  else
    match Decimal.readFloat? text with
    | some x => ofFloatSeconds x
    | none => (readItems (String.ofList text) Binary64.zero text).map ofNanos

end Span

namespace Path

def isSlash (c : Char) : Bool := c == '/' || c == '\\'

def read (s : Surroundings) (t : String) : Except TypedFault Path :=
  match trim t.toList with
  | [] => .error .emptyPath
  | '~' :: rest =>
    if rest.isEmpty || (rest.head?.any isSlash) then
      match s.home? with
      | none => .error .noHome
      | some home => .ok (s.absolute (home.join ⟨String.ofList (rest.dropWhile isSlash)⟩))
    else .ok (s.absolute ⟨String.ofList ('~' :: rest)⟩)
  | text => .ok (s.absolute ⟨String.ofList text⟩)

end Path

end Steward
