import Steward.Text.CaseFold
import Steward.Text.Category
import Steward.Text.Script
import Steward.Text.Search

set_option autoImplicit false

namespace Steward

structure CharSet where
  ranges : List (Nat × Nat)
  deriving DecidableEq, Repr, Inhabited

namespace CharSet

def none : CharSet := ⟨[]⟩

def all : CharSet := ⟨[(0, 0x10FFFF)]⟩

def single (c : Char) : CharSet := ⟨[(c.toNat, c.toNat)]⟩

def range (a b : Char) : CharSet := ⟨[(a.toNat, b.toNat)]⟩

def has (s : CharSet) (n : Nat) : Bool := s.ranges.any fun r => r.1 ≤ n && n ≤ r.2

def union (s t : CharSet) : CharSet := ⟨s.ranges ++ t.ranges⟩

def gaps : Nat → List (Nat × Nat) → List (Nat × Nat)
  | next, [] => if next ≤ 0x10FFFF then [(next, 0x10FFFF)] else []
  | next, (a, b) :: rest =>
    if next < a then (next, a - 1) :: gaps (max next (b + 1)) rest
    else gaps (max next (b + 1)) rest

def compl (s : CharSet) : CharSet := ⟨gaps 0 (s.ranges.mergeSort fun a b => a.1 ≤ b.1)⟩

def inter (s t : CharSet) : CharSet := (s.compl.union t.compl).compl

def diff (s t : CharSet) : CharSet := s.inter t.compl

def symmDiff (s t : CharSet) : CharSet := (s.diff t).union (t.diff s)

def canonical (s : CharSet) : CharSet := s.compl.compl

def foldCase (unicode : Bool) (s : CharSet) : CharSet :=
  let pairs := if unicode then Text.CaseFold.pairs else Text.CaseFold.asciiPairs
  (s.union ⟨(Text.CaseFold.variants pairs s.has).map fun n => (n, n)⟩).canonical

def ofCategories (names : List String) : CharSet :=
  ⟨Text.Category.ranges names.contains⟩

def digit (unicode : Bool) : CharSet := if unicode then ofCategories ["Nd"] else ⟨[(48, 57)]⟩

def space (unicode : Bool) : CharSet :=
  if unicode then
    ⟨[(9, 13), (0x20, 0x20), (0x85, 0x85), (0xA0, 0xA0), (0x1680, 0x1680), (0x2000, 0x200A),
      (0x2028, 0x2029), (0x202F, 0x202F), (0x205F, 0x205F), (0x3000, 0x3000)]⟩
  else ⟨[(9, 13), (0x20, 0x20)]⟩

def letters : List String := ["Lu", "Ll", "Lt", "Lm", "Lo"]

def circled : CharSet :=
  ⟨[(0x24B6, 0x24E9), (0x1F130, 0x1F149), (0x1F150, 0x1F169), (0x1F170, 0x1F189)]⟩

def word (unicode : Bool) : CharSet :=
  if unicode then
    ((ofCategories (letters ++ ["Mn", "Mc", "Me", "Nd", "Nl", "Pc"])).union circled).union
      ⟨[(0x200C, 0x200D)]⟩
  else ⟨[(48, 57), (65, 90), (95, 95), (97, 122)]⟩

def posix? (name : String) : Option CharSet :=
  match name with
  | "alnum" => some ⟨[(48, 57), (65, 90), (97, 122)]⟩
  | "alpha" => some ⟨[(65, 90), (97, 122)]⟩
  | "ascii" => some ⟨[(0, 127)]⟩
  | "blank" => some ⟨[(9, 9), (32, 32)]⟩
  | "cntrl" => some ⟨[(0, 31), (127, 127)]⟩
  | "digit" => some ⟨[(48, 57)]⟩
  | "graph" => some ⟨[(33, 126)]⟩
  | "lower" => some ⟨[(97, 122)]⟩
  | "print" => some ⟨[(32, 126)]⟩
  | "punct" => some ⟨[(33, 47), (58, 64), (91, 96), (123, 126)]⟩
  | "space" => some ⟨[(9, 13), (32, 32)]⟩
  | "upper" => some ⟨[(65, 90)]⟩
  | "word" => some ⟨[(48, 57), (65, 90), (95, 95), (97, 122)]⟩
  | "xdigit" => some ⟨[(48, 57), (65, 70), (97, 102)]⟩
  | _ => .none

def categories : List (String × List String × List String) :=
  [("l", ["letter"], letters), ("lc", ["casedletter"], ["Lu", "Ll", "Lt"]),
    ("m", ["mark", "combiningmark"], ["Mn", "Mc", "Me"]),
    ("n", ["number"], ["Nd", "Nl", "No"]),
    ("p", ["punctuation", "punct"], ["Pc", "Pd", "Ps", "Pe", "Pi", "Pf", "Po"]),
    ("s", ["symbol"], ["Sm", "Sc", "Sk", "So"]),
    ("z", ["separator"], ["Zs", "Zl", "Zp"]),
    ("c", ["other"], ["Cc", "Cf", "Cs", "Co", "Cn"]),
    ("lu", ["uppercaseletter"], ["Lu"]),
    ("ll", ["lowercaseletter"], ["Ll"]),
    ("lt", ["titlecaseletter"], ["Lt"]), ("lm", ["modifierletter"], ["Lm"]),
    ("lo", ["otherletter"], ["Lo"]), ("mn", ["nonspacingmark"], ["Mn"]),
    ("mc", ["spacingmark"], ["Mc"]), ("me", ["enclosingmark"], ["Me"]),
    ("nd", ["decimalnumber", "digit"], ["Nd"]), ("nl", ["letternumber"], ["Nl"]),
    ("no", ["othernumber"], ["No"]), ("pc", ["connectorpunctuation"], ["Pc"]),
    ("pd", ["dashpunctuation"], ["Pd"]), ("ps", ["openpunctuation"], ["Ps"]),
    ("pe", ["closepunctuation"], ["Pe"]), ("pi", ["initialpunctuation"], ["Pi"]),
    ("pf", ["finalpunctuation"], ["Pf"]), ("po", ["otherpunctuation"], ["Po"]),
    ("sm", ["mathsymbol"], ["Sm"]), ("sc", ["currencysymbol"], ["Sc"]),
    ("sk", ["modifiersymbol"], ["Sk"]), ("so", ["othersymbol"], ["So"]),
    ("zs", ["spaceseparator"], ["Zs"]), ("zl", ["lineseparator"], ["Zl"]),
    ("zp", ["paragraphseparator"], ["Zp"]), ("cc", ["control", "cntrl"], ["Cc"]),
    ("cf", ["format"], ["Cf"]), ("co", ["privateuse"], ["Co"]), ("cn", ["unassigned"], ["Cn"])]

def otherLower : CharSet :=
  ⟨[(0xAA, 0xAA), (0xBA, 0xBA), (0x2B0, 0x2B8), (0x2C0, 0x2C1), (0x2E0, 0x2E4), (0x345, 0x345),
    (0x37A, 0x37A), (0x10FC, 0x10FC), (0x1D2C, 0x1D6A), (0x1D78, 0x1D78), (0x1D9B, 0x1DBF),
    (0x2071, 0x2071), (0x207F, 0x207F), (0x2090, 0x209C), (0x2170, 0x217F), (0x24D0, 0x24E9),
    (0x2C7C, 0x2C7D), (0xA69C, 0xA69D), (0xA770, 0xA770), (0xA7F2, 0xA7F4), (0xA7F8, 0xA7F9),
    (0xAB5C, 0xAB5F), (0xAB69, 0xAB69), (0x10780, 0x10780), (0x10783, 0x10785), (0x10787, 0x107B0),
    (0x107B2, 0x107BA), (0x1E030, 0x1E06D)]⟩

def otherUpper : CharSet :=
  ⟨[(0x2160, 0x216F), (0x24B6, 0x24CF), (0x1F130, 0x1F149), (0x1F150, 0x1F169), (0x1F170, 0x1F189)]⟩

def propertyName (name : List Char) : String :=
  let small := name.map Char.toLower
  let rest := match small with
    | 'i' :: 's' :: rest => rest
    | all => all
  String.ofList (rest.filter fun c => c != '_' && c != '-' && c != ' ')

def category? (name : String) : Option CharSet :=
  match name with
  | "any" => some all
  | "assigned" => some (ofCategories ["Cn"]).compl
  | "ascii" => some ⟨[(0, 127)]⟩
  | _ =>
    (categories.find? fun (short, long, _) => name = short || long.contains name).map fun c =>
      ofCategories c.2.2

def script? (name : String) : Option CharSet := (Text.Script.ranges? name).map CharSet.mk

def trait? (name : String) : Option CharSet :=
  match name with
  | "alphabetic" | "alpha" => some ((ofCategories (letters ++ ["Nl"])).union circled)
  | "whitespace" | "wspace" | "space" => some (space true)
  | "lowercase" | "lower" => some ((ofCategories ["Ll"]).union otherLower)
  | "uppercase" | "upper" => some ((ofCategories ["Lu"]).union otherUpper)
  | "asciihexdigit" | "ahex" => some ⟨[(48, 57), (65, 70), (97, 102)]⟩
  | "hexdigit" | "hex" =>
    some ⟨[(48, 57), (65, 70), (97, 102), (0xFF10, 0xFF19), (0xFF21, 0xFF26), (0xFF41, 0xFF46)]⟩
  | _ => .none

def valued? (property value : List Char) : Option CharSet :=
  match propertyName property with
  | "gc" | "generalcategory" => category? (propertyName value)
  | "sc" | "script" | "scx" | "scriptextensions" => script? (propertyName value)
  | _ => .none

def property? (name : List Char) : Option CharSet :=
  match Text.cut? ['!', '='] name with
  | some (property, value) => (valued? property value).map compl
  | .none =>
    match (Text.cut? [':'] name).or (Text.cut? ['='] name) with
    | some (property, value) => valued? property value
    | .none =>
      let name := propertyName name
      ((trait? name).or (category? name)).or (script? name)

end CharSet

end Steward
