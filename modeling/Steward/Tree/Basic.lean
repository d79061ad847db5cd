set_option autoImplicit false

namespace Steward

inductive Tree
  | text (s : String)
  | flag (b : Bool)
  | count (n : Nat)
  | list (items : List Tree)
  | fields (entries : List (String × Tree))
  deriving Repr, Inhabited

namespace Tree

def flagText (b : Bool) : String := if b then "true" else "false"

def indentRest (n : Nat) : List String → List String
  | [] => []
  | line :: lines => line :: lines.map (String.ofList (List.replicate n ' ') ++ ·)

def indent (n : Nat) (lines : List String) : List String :=
  lines.map (String.ofList (List.replicate n ' ') ++ ·)

end Tree

end Steward
