import Steward.Tree.Basic

set_option autoImplicit false

namespace Steward.Tree.Json

def hexDigits (width n : Nat) : List Char :=
  let digits := Nat.toDigits 16 n
  List.replicate (width - digits.length) '0' ++ digits

def escapeChar (c : Char) : List Char :=
  match c with
  | '"' => ['\\', '"']
  | '\\' => ['\\', '\\']
  | '\n' => ['\\', 'n']
  | '\r' => ['\\', 'r']
  | '\t' => ['\\', 't']
  | '\x08' => ['\\', 'b']
  | '\x0c' => ['\\', 'f']
  | c => if c.toNat < 0x20 then ['\\', 'u'] ++ hexDigits 4 c.toNat else [c]

def quoted (s : String) : String := String.ofList ('"' :: s.toList.flatMap escapeChar ++ ['"'])

mutual

def compact : Tree → String
  | .text s => quoted s
  | .flag b => flagText b
  | .count n => toString n
  | .list items => "[" ++ ",".intercalate (compactItems items) ++ "]"
  | .fields entries => "\x7b" ++ ",".intercalate (compactFields entries) ++ "\x7d"

def compactItems : List Tree → List String
  | [] => []
  | t :: ts => compact t :: compactItems ts

def compactFields : List (String × Tree) → List String
  | [] => []
  | (k, t) :: es => (quoted k ++ ":" ++ compact t) :: compactFields es

end

def enclosed (opening closing : String) (items : List (List String)) : List String :=
  if items.isEmpty then [opening ++ closing]
  else
    let withComma := fun (lines : List String) =>
      lines.dropLast ++ (lines.getLast?.toList.map (· ++ ","))
    [opening] ++ indent 2 (items.dropLast.flatMap withComma ++ items.getLast?.getD []) ++ [closing]

def labelled (key : String) : List String → List String
  | [] => []
  | line :: lines => (quoted key ++ ": " ++ line) :: lines

mutual

def lines : Tree → List String
  | .list items => enclosed "[" "]" (itemLines items)
  | .fields entries => enclosed "\x7b" "\x7d" (fieldLines entries)
  | t => [compact t]

def itemLines : List Tree → List (List String)
  | [] => []
  | t :: ts => lines t :: itemLines ts

def fieldLines : List (String × Tree) → List (List String)
  | [] => []
  | (k, t) :: es => labelled k (lines t) :: fieldLines es

end

def pretty (t : Tree) : String := "\n".intercalate (lines t)

theorem quoted_empty : quoted "" = "\"\"" := by decide

end Steward.Tree.Json
