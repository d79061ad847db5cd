import Steward.Text.Search
import Steward.Tree.Json
import Steward.Yaml.Reader

set_option autoImplicit false

namespace Steward.Tree.Yaml

def doubtfulWords : List String :=
  ["y", "Y", "yes", "Yes", "YES", "n", "N", "no", "No", "NO", "on", "On", "ON", "off", "Off", "OFF"]

def readsAsText (s : String) : Bool :=
  (match Yaml.Scalar.ofPlain s with
    | some v => v.string?.isSome
    | none => false) &&
  !doubtfulWords.contains s && !Yaml.Scalar.hasLeadingZero s.toList

def isBreak (c : Char) : Bool :=
  c == '\n' || c == '\r' || c == '\u0085' || c == '\u2028' || c == '\u2029'

def isPrintable (c : Char) : Bool :=
  let n := c.toNat
  n == 0x0A || (0x20 ≤ n && n ≤ 0x7E) || (0xA0 ≤ n && n ≤ 0xFFFD && n != 0xFEFF)

def endsWord (c : Option Char) : Bool :=
  match c with
  | none => true
  | some c => c == ' ' || c == '\t' || isBreak c || c == '\x00'

def leadMarks : List Char :=
  ['#', ',', '[', ']', '{', '}', '&', '*', '!', '|', '>', '\'', '"', '%', '@', '\x60']

def hasMark (before : Option Char) : List Char → Bool
  | [] => false
  | c :: cs =>
    (match before with
      | none => leadMarks.contains c || ((c == '?' || c == ':' || c == '-') && endsWord cs.head?)
      | some b => (c == ':' && endsWord cs.head?) || (c == '#' && endsWord (some b))) ||
    hasMark (some c) cs

def startsLikeBorder (cs : List Char) : Bool :=
  (Text.stripPrefix? ['-', '-', '-'] cs).isSome || (Text.stripPrefix? ['.', '.', '.'] cs).isSome

def hasBlankAtBreak (blankFirst : Bool) : List Char → Bool
  | [] => false
  | [_] => false
  | c :: d :: cs =>
    (if blankFirst then c == ' ' && isBreak d else isBreak c && d == ' ') ||
      hasBlankAtBreak blankFirst (d :: cs)

inductive Style
  | plain
  | single
  | double
  | literal
  deriving DecidableEq, Repr

def needsEscapes (cs : List Char) : Bool := cs.any (!isPrintable ·) || hasBlankAtBreak true cs

def style (key : Bool) (s : String) : Style :=
  let cs := s.toList
  if needsEscapes cs then .double
  else if cs.contains '\n' then
    if key || cs.getLast? == some ' ' then .double else .literal
  else if !readsAsText s then .single
  else if cs.any isBreak then if key || hasBlankAtBreak false cs then .double else .single
  else if cs.head? == some ' ' || cs.getLast? == some ' ' || startsLikeBorder cs || hasMark none cs
  then .single
  else .plain

def hexUpper (width n : Nat) : List Char := (Json.hexDigits width n).map Char.toUpper

def escapeChar (c : Char) : List Char :=
  match c with
  | '"' => ['\\', '"']
  | '\\' => ['\\', '\\']
  | '\x00' => ['\\', '0']
  | '\x07' => ['\\', 'a']
  | '\x08' => ['\\', 'b']
  | '\t' => ['\\', 't']
  | '\n' => ['\\', 'n']
  | '\x0b' => ['\\', 'v']
  | '\x0c' => ['\\', 'f']
  | '\r' => ['\\', 'r']
  | '\x1b' => ['\\', 'e']
  | '\u0085' => ['\\', 'N']
  | '\u2028' => ['\\', 'L']
  | '\u2029' => ['\\', 'P']
  | c =>
    if isPrintable c then [c]
    else if c.toNat ≤ 0xFF then ['\\', 'x'] ++ hexUpper 2 c.toNat
    else if c.toNat ≤ 0xFFFF then ['\\', 'u'] ++ hexUpper 4 c.toNat
    else ['\\', 'U'] ++ hexUpper 8 c.toNat

def chomping (cs : List Char) : String :=
  match cs.reverse with
  | '\n' :: '\n' :: _ => "+"
  | ['\n'] => "+"
  | '\n' :: _ => ""
  | _ => "-"

def literal (s : String) : List String :=
  let lead := match s.toList with
    | ' ' :: _ | '\n' :: _ => "2"
    | _ => ""
  let deeper := fun (line : String) => if line = "" then "" else "  " ++ line
  ("|" ++ lead ++ chomping s.toList) :: (Text.lines s).map deeper

def doubleQuoted (s : String) : String :=
  String.ofList ('"' :: s.toList.flatMap escapeChar ++ ['"'])

def singleQuoted (s : String) : String :=
  String.ofList ('\'' :: s.toList.flatMap (fun c => if c == '\'' then [c, c] else [c]) ++ ['\''])

def scalar (key : Bool) (s : String) : List String :=
  match style key s with
  | .plain => [s]
  | .single => [singleQuoted s]
  | .double => [doubleQuoted s]
  | .literal => literal s

def beside (lead : String) : List String → List String
  | [] => [lead]
  | line :: lines => (lead ++ line) :: lines

mutual

def lines : Tree → List String
  | .text s => scalar false s
  | .flag b => [flagText b]
  | .count n => [toString n]
  | .list [] => ["[]"]
  | .list items => itemLines items
  | .fields [] => ["\x7b\x7d"]
  | .fields entries => fieldLines entries

def itemLines : List Tree → List String
  | [] => []
  | t :: ts => beside "- " (indentRest 2 (lines t)) ++ itemLines ts

-- A list begins under its key, in the same column; fields are two columns deeper.
def fieldLines : List (String × Tree) → List String
  | [] => []
  | (k, t) :: es =>
    let key := String.join (scalar true k) ++ ":"
    (match t with
      | .list (item :: items) => key :: itemLines (item :: items)
      | .fields (e :: more) => key :: indent 2 (fieldLines (e :: more))
      | t => beside (key ++ " ") (lines t)) ++ fieldLines es

end

def document (t : Tree) : String := String.join ((lines t).map (· ++ "\n"))

end Steward.Tree.Yaml
