import Steward.Table
import Steward.Text.Blank
import Steward.Text.Search

set_option autoImplicit false

namespace Steward

abbrev PropertyTable := Table String

inductive TemplateFault
  | unclosed (offset : Nat)
  | missing (name : String)
  | unsupported (action : String)
  deriving DecidableEq, Repr

def TemplateFault.message : TemplateFault → String
  | .unclosed offset => "模板在偏移 " ++ toString offset ++ " 处未闭合"
  | .missing name => "属性不存在: " ++ name
  | .unsupported action => "不支持的模板表达式: " ++ action

namespace Template

open Text

inductive Piece
  | text (cs : List Char)
  | action (body : List Char)
  | unclosed (cs : List Char) (offset : Nat)
  deriving DecidableEq, Repr

def opening : List Char := ['{', '{']

def closing : List Char := ['}', '}']

def Piece.raw : Piece → List Char
  | .text cs => cs
  | .action body => opening ++ body ++ closing
  | .unclosed cs _ => cs

def byteSize (cs : List Char) : Nat := cs.foldl (fun n c => n + c.utf8Size) 0

def textPiece (cs : List Char) : List Piece := if cs.isEmpty then [] else [.text cs]

theorem length_of_cut? {sep cs before after : List Char} (h : cut? sep cs = some (before, after)) :
    cs.length = before.length + sep.length + after.length := by
  simp [cut?_eq_some h, Nat.add_assoc]

def piecesFrom (offset : Nat) (cs : List Char) : List Piece :=
  match _h : cut? opening cs with
  | none => textPiece cs
  | some (before, after) =>
    match _h' : cut? closing after with
    | none => textPiece before ++ [.unclosed (opening ++ after) (offset + byteSize before)]
    | some (body, rest) =>
      -- The action has two braces at either end, each of one byte.
      textPiece before ++
        .action body :: piecesFrom (offset + byteSize before + byteSize body + 4) rest
termination_by cs.length
decreasing_by
  have h₁ := length_of_cut? _h
  have h₂ := length_of_cut? _h'
  simp only [opening, closing, List.length_cons, List.length_nil] at h₁ h₂
  omega

def pieces (s : String) : List Piece := piecesFrom 0 s.toList

def unsign (cs : List Char) : List Char :=
  let cs := match trim cs with
    | '-' :: rest => trimStart rest
    | all => all
  match stripSuffix? ['-'] cs with
  | some rest => trimEnd rest
  | none => cs

def literal? : List Char → Option (List Char)
  | '"' :: rest => stripSuffix? ['"'] rest
  | _ => none

def valueOf (props : PropertyTable) (body : List Char) : Except TemplateFault String :=
  match unsign body with
  | '.' :: name =>
    if name.isEmpty || name.any isBlank then .error (.unsupported (String.ofList ('.' :: name)))
    else
      match props.get? (String.ofList name) with
      | some text => .ok text
      | none => .error (.missing (String.ofList name))
  | other =>
    match literal? other with
    | some inner => .ok (String.ofList inner)
    | none => .error (.unsupported (String.ofList other))

def Piece.strict (props : PropertyTable) : Piece → Except TemplateFault String
  | .text cs => .ok (String.ofList cs)
  | .action body => valueOf props body
  | .unclosed _ offset => .error (.unclosed offset)

def Piece.careful (props : PropertyTable) (p : Piece) : String :=
  match p.strict props with
  | .ok value => value
  | .error _ => String.ofList p.raw

def strict (props : PropertyTable) (s : String) : Except TemplateFault String :=
  ((pieces s).mapM (Piece.strict props)).map String.join

def careful (props : PropertyTable) (s : String) : String :=
  String.join ((pieces s).map (Piece.careful props))

def occursIn (s : String) : Bool := contains opening s.toList

theorem careful_of_strict {props : PropertyTable} {p : Piece} {value : String}
    (h : p.strict props = .ok value) : p.careful props = value := by
  simp [Piece.careful, h]

end Template

end Steward
