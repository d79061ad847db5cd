import Steward.Text.Category

set_option autoImplicit false

namespace Steward.Text

def hidden : List String := ["Cc", "Cf", "Cs", "Co", "Cn", "Zl", "Zp", "Zs"]

def isShown (c : Char) : Bool :=
  if c.toNat < 0x7F then c.toNat ≥ 0x20
  else
    let category := Category.of c
    !hidden.contains category && category != "Mn" && category != "Me"

def escapeChar (c : Char) : List Char :=
  match c with
  | '"' => ['\\', '"']
  | '\\' => ['\\', '\\']
  | '\n' => ['\\', 'n']
  | '\r' => ['\\', 'r']
  | '\t' => ['\\', 't']
  | '\x00' => ['\\', '0']
  | c =>
    if isShown c then [c]
    else ['\\', 'u', '{'] ++ Nat.toDigits 16 c.toNat ++ ['}']

def quoted (s : String) : String :=
  String.ofList ('"' :: s.toList.flatMap escapeChar ++ ['"'])

def quotedList (ss : List String) : String := "[" ++ ", ".intercalate (ss.map quoted) ++ "]"

theorem escapeChar_quote : escapeChar '"' = ['\\', '"'] := rfl

theorem escapeChar_of_isAlphanum {c : Char} (h : 'a' ≤ c ∧ c ≤ 'z') : escapeChar c = [c] := by
  obtain ⟨h₁, h₂⟩ := h
  have h₁' : 97 ≤ c.toNat := h₁
  have h₂' : c.toNat ≤ 122 := h₂
  have hs : isShown c = true := by
    have : c.toNat < 0x7F := by omega
    have h3 : c.toNat ≥ 0x20 := by omega
    simp [isShown, this, h3]
  unfold escapeChar
  split <;> simp_all

end Steward.Text
