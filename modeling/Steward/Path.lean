import Steward.Text.Search

set_option autoImplicit false

namespace Steward

structure Path where
  text : String
  deriving DecidableEq, Repr, Inhabited

namespace Path

def chars (p : Path) : List Char := p.text.toList

def isAbsolute (p : Path) : Bool := p.chars.head? == some '/'

def segments (p : Path) : List String := (Text.splitOn '/' p.chars).map String.ofList

def isSkipped (s : String) : Bool := s == "" || s == "."

def parts (p : Path) : List String :=
  match p.segments with
  | "." :: rest =>
    if p.isAbsolute then rest.filter (!isSkipped ·) else "." :: rest.filter (!isSkipped ·)
  | all => all.filter (!isSkipped ·)

def sameAs (p q : Path) : Bool := p.isAbsolute == q.isAbsolute && p.parts == q.parts

def join (dir p : Path) : Path :=
  if p.isAbsolute then p
  else if dir.text == "" || dir.chars.getLast? == some '/' then ⟨dir.text ++ p.text⟩
  else ⟨dir.text ++ "/" ++ p.text⟩

def joinAll (dir : Path) (names : List String) : Path :=
  names.foldl (fun p n => p.join ⟨n⟩) dir

/-- The path from the root, with `.` and doubled slashes dropped; `..`, a slash at the end and two
slashes at the beginning stay. The empty path has none. -/
def absolute? (p here : Path) : Option Path :=
  if p.text == "" then none
  else
    let names := p.segments.filter (!isSkipped ·)
    let base : Path :=
      match p.chars with
      | '/' :: '/' :: '/' :: _ => ⟨"/"⟩
      | '/' :: '/' :: _ => ⟨"//"⟩
      | '/' :: _ => ⟨"/"⟩
      | _ => here
    let full := base.joinAll names
    some (if p.chars.getLast? == some '/' then full.join ⟨""⟩ else full)

def absolute (p here : Path) : Path := (p.absolute? here).getD p

def parent? (p : Path) : Option Path :=
  let body := if p.isAbsolute then p.chars.drop 1 else p.chars
  let lead := if p.isAbsolute then "/" else ""
  let segs := (Text.splitOn '/' body).map String.ofList
  let isPart := fun (i : Nat × String) =>
    !isSkipped i.2 || (i.1 == 0 && i.2 == "." && !p.isAbsolute)
  let numbered := (List.range segs.length).zip segs
  match numbered.reverse.dropWhile (!isPart ·) with
  | [] => none
  | _ :: before =>
    let kept := (before.dropWhile (!isPart ·)).reverse.map (·.2)
    some ⟨lead ++ "/".intercalate kept⟩

def parentOf (p here : Path) : Option Path := (p.absolute? here).bind parent?

theorem join_of_isAbsolute (dir p : Path) (h : p.isAbsolute = true) : dir.join p = p := by
  simp [join, h]

end Path

end Steward
