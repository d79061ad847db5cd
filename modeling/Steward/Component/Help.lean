import Steward.Text.Blank

set_option autoImplicit false

namespace Steward

structure HelpField where
  key : String
  kind : String
  note : String
  default : Option String
  optional : Bool
  deriving DecidableEq, Repr, Inhabited

structure HelpDoc where
  description : String
  fields : List HelpField := []
  deriving DecidableEq, Repr, Inhabited

namespace HelpDoc

def required (d : HelpDoc) (key kind note : String) : HelpDoc :=
  { d with fields := d.fields ++ [⟨key, kind, note, none, false⟩] }

def optional (d : HelpDoc) (key kind note : String) (default : Option String) : HelpDoc :=
  { d with fields := d.fields ++ [⟨key, kind, note, default, true⟩] }

def padded (width : Nat) (s : String) : String :=
  s ++ String.ofList (List.replicate (width - s.length) ' ')

def width (column : List String) : Nat := (column.map String.utf8ByteSize).foldl max 0

def remark (f : HelpField) : String :=
  if !f.optional then ""
  else
    match f.default with
    | some default => " (可选，默认 " ++ default ++ ")"
    | none => " (可选)"

def fieldLine (keyWidth kindWidth : Nat) (f : HelpField) : String :=
  let line := "  " ++ padded keyWidth f.key ++ "  " ++ padded kindWidth f.kind ++ "  " ++ f.note ++
    remark f
  String.ofList (Text.trimEnd line.toList)

def lines (d : HelpDoc) (kind : String) : List String :=
  (kind ++ ": " ++ d.description) ::
    if d.fields.isEmpty then ["  (无配置字段)"]
    else
      d.fields.map (fieldLine (width (d.fields.map (·.key))) (width (d.fields.map (·.kind))))

def text (d : HelpDoc) (kind : String) : String := String.join ((d.lines kind).map (· ++ "\n"))

end HelpDoc

end Steward
