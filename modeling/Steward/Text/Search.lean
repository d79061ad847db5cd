set_option autoImplicit false

namespace Steward.Text

def stripPrefix? : List Char → List Char → Option (List Char)
  | [], cs => some cs
  | _ :: _, [] => none
  | p :: ps, c :: cs => if p = c then stripPrefix? ps cs else none

def stripSuffix? (tail cs : List Char) : Option (List Char) :=
  (stripPrefix? tail.reverse cs.reverse).map List.reverse

def cut? (sep : List Char) : List Char → Option (List Char × List Char)
  | [] => (stripPrefix? sep []).map ([], ·)
  | c :: cs =>
    match stripPrefix? sep (c :: cs) with
    | some rest => some ([], rest)
    | none => (cut? sep cs).map fun (before, after) => (c :: before, after)

def contains (sep cs : List Char) : Bool := (cut? sep cs).isSome

def splitOn (sep : Char) : List Char → List (List Char)
  | [] => [[]]
  | c :: cs =>
    if c = sep then [] :: splitOn sep cs
    else
      match splitOn sep cs with
      | [] => [[c]]
      | part :: parts => (c :: part) :: parts

def lines (s : String) : List String :=
  let parts := (splitOn '\n' s.toList).map String.ofList
  if parts.getLast? = some "" then parts.dropLast else parts

theorem stripPrefix?_eq_some {p cs rest : List Char} (h : stripPrefix? p cs = some rest) :
    cs = p ++ rest := by
  induction p generalizing cs with
  | nil => simp_all [stripPrefix?]
  | cons a p ih =>
    cases cs with
    | nil => simp [stripPrefix?] at h
    | cons c cs =>
      simp only [stripPrefix?] at h
      split at h
      · next he => rw [he, ih h]; rfl
      · simp at h

theorem stripPrefix?_append (p rest : List Char) : stripPrefix? p (p ++ rest) = some rest := by
  induction p with
  | nil => rfl
  | cons a p ih => simp [stripPrefix?, ih]

theorem cut?_eq_some {sep cs before after : List Char} (h : cut? sep cs = some (before, after)) :
    cs = before ++ sep ++ after := by
  induction cs generalizing before with
  | nil =>
    simp only [cut?, Option.map_eq_some_iff, Prod.mk.injEq] at h
    obtain ⟨rest, hr, rfl, rfl⟩ := h
    simpa using stripPrefix?_eq_some hr
  | cons c cs ih =>
    simp only [cut?] at h
    split at h
    · next rest hr =>
      simp only [Option.some.injEq, Prod.mk.injEq] at h
      obtain ⟨rfl, rfl⟩ := h
      simpa using stripPrefix?_eq_some hr
    · simp only [Option.map_eq_some_iff, Prod.exists, Prod.mk.injEq] at h
      obtain ⟨b, a, hb, rfl, rfl⟩ := h
      simpa using ih hb

theorem splitOn_ne_nil (sep : Char) (cs : List Char) : splitOn sep cs ≠ [] := by
  cases cs with
  | nil => simp [splitOn]
  | cons c cs =>
    simp only [splitOn]
    split
    · simp
    · split <;> simp

end Steward.Text
