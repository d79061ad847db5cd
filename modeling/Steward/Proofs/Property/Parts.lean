import Mathlib.Data.List.TakeWhile
import Steward.Property.Expansion

set_option autoImplicit false

namespace Steward

namespace Text

variable {a : Char} {sep cs rest : List Char}

theorem cut?_none_of_free (free : ∀ c ∈ cs, c ≠ a) : cut? (a :: sep) cs = none := by
  induction cs with
  | nil => rfl
  | cons c cs ih =>
    obtain ⟨other, free⟩ := List.forall_mem_cons.mp free
    simp [cut?, stripPrefix?, other.symm, ih free]

theorem cut?_of_free (free : ∀ c ∈ cs, c ≠ a) :
    cut? (a :: sep) (cs ++ (a :: sep) ++ rest) = some (cs, rest) := by
  induction cs with
  | nil =>
    have found := stripPrefix?_append (a :: sep) rest
    simp only [List.cons_append] at found
    simp [cut?, found]
  | cons c cs ih =>
    obtain ⟨other, free⟩ := List.forall_mem_cons.mp free
    have later := ih free
    simp only [List.cons_append, List.append_assoc] at later
    simp [cut?, stripPrefix?, other.symm, later]

theorem trim_of_unblank (unblank : ∀ c ∈ cs, isBlank c = false) : trim cs = cs := by
  have start : cs.dropWhile isBlank = cs :=
    List.dropWhile_eq_self_iff.mpr fun _ => by simpa using unblank _ (List.getElem_mem _)
  have back : cs.reverse.dropWhile isBlank = cs.reverse :=
    List.dropWhile_eq_self_iff.mpr fun within => by
      simpa using unblank _ (List.mem_reverse.mp (List.getElem_mem within))
  simp [trim, trimStart, trimEnd, dropEndWhile, start, back]

end Text

namespace Template

theorem piecesFrom_of_none (offset : Nat) {cs : List Char}
    (missing : Text.cut? opening cs = none) : piecesFrom offset cs = textPiece cs := by
  rw [piecesFrom]
  split
  · rfl
  · next found => simp [missing] at found

theorem piecesFrom_of_unclosed (offset : Nat) {cs before after : List Char}
    (found : Text.cut? opening cs = some (before, after))
    (missing : Text.cut? closing after = none) :
    piecesFrom offset cs =
      textPiece before ++ [.unclosed (opening ++ after) (offset + byteSize before)] := by
  rw [piecesFrom]
  split
  · next none => cases none.symm.trans found
  · next found' =>
    cases found.symm.trans found'
    split
    · rfl
    · next closed => simp [missing] at closed

theorem piecesFrom_of_action (offset : Nat) {cs before after body rest : List Char}
    (found : Text.cut? opening cs = some (before, after))
    (closed : Text.cut? closing after = some (body, rest)) :
    piecesFrom offset cs =
      textPiece before ++
        .action body :: piecesFrom (offset + byteSize before + byteSize body + 4) rest := by
  rw [piecesFrom]
  split
  · next none => cases none.symm.trans found
  · next found' =>
    cases found.symm.trans found'
    split
    · next missing => cases missing.symm.trans closed
    · next closed' =>
      cases closed.symm.trans closed'
      rfl

end Template

inductive Part
  | text (cs : List Char)
  | reference (name : String)
  deriving DecidableEq, Repr

namespace Part

def spell : Part → List Char
  | .text cs => cs
  | .reference name => Template.opening ++ '.' :: name.toList ++ Template.closing

def spelled (parts : List Part) : String := String.ofList (parts.flatMap spell)

def isPlain (c : Char) : Bool := !Text.isBlank c && c != '{' && c != '}'

/-- No mark begins or ends within the part, and nothing in it is dropped. -/
def fits : Part → Bool
  | .text cs => cs.all fun c => isPlain c && c != '$'
  | .reference name =>
    name != "" && name.toList.all isPlain && name.toList.getLast? != some '-'

def inlined (values : String → List Part) (parts : List Part) : List Part :=
  parts.flatMap fun
    | .text cs => [.text cs]
    | .reference name => values name

variable {values : String → List Part} {part : Part} {parts : List Part}

theorem ne_brace_of_isPlain {c : Char} (plain : isPlain c = true) : c ≠ '{' ∧ c ≠ '}' := by
  simp only [isPlain, Bool.and_eq_true, bne_iff_ne] at plain
  exact ⟨plain.1.2, plain.2⟩

theorem unblank_of_isPlain {c : Char} (plain : isPlain c = true) : Text.isBlank c = false := by
  simp only [isPlain, Bool.and_eq_true, Bool.not_eq_true'] at plain
  exact plain.1.1

theorem fits_text {cs : List Char} (fit : (Part.text cs).fits = true) :
    ∀ c ∈ cs, isPlain c = true ∧ c ≠ '$' := by
  simpa [fits] using fit

theorem fits_reference {name : String} (fit : (Part.reference name).fits = true) :
    name.toList ≠ [] ∧ (∀ c ∈ name.toList, isPlain c = true) ∧
      name.toList.getLast? ≠ some '-' := by
  simpa [fits, and_assoc] using fit

theorem spell_unblank (fit : part.fits = true) : ∀ c ∈ part.spell, Text.isBlank c = false := by
  cases part with
  | text cs => exact fun c member => unblank_of_isPlain (fits_text fit c member).1
  | reference name =>
    obtain ⟨-, plain, -⟩ := fits_reference fit
    have marks : ∀ c ∈ ['{', '.', '}'], Text.isBlank c = false := by simp [Text.isBlank]
    intro c member
    simp only [spell, Template.opening, Template.closing, List.mem_append, List.mem_cons] at member
    by_cases inside : c ∈ name.toList
    · exact unblank_of_isPlain (plain c inside)
    · exact marks c (by simp; grind)

theorem spelled_unblank (fit : ∀ part ∈ parts, part.fits = true) :
    ∀ c ∈ (spelled parts).toList, Text.isBlank c = false := by
  intro c member
  rw [spelled, String.toList_ofList, List.mem_flatMap] at member
  obtain ⟨part, inside, member⟩ := member
  exact spell_unblank (fit part inside) c member

section Variables

open Variable

theorem cut?_variable_name {name rest : List Char} {d : Char} (plain : ∀ c ∈ name, c ≠ '{')
    (other : d ≠ '{') (free : Text.cut? Variable.opening (d :: rest) = none) :
    Text.cut? Variable.opening (name ++ d :: rest) = none := by
  induction name with
  | nil => exact free
  | cons c name ih =>
    obtain ⟨-, later⟩ := List.forall_mem_cons.mp plain
    have head : Text.stripPrefix? Variable.opening (c :: (name ++ d :: rest)) = none := by
      cases name with
      | nil => simp [Variable.opening, Text.stripPrefix?, other.symm]
      | cons e name => simp [Variable.opening, Text.stripPrefix?, (later e (by simp)).symm]
    simp only [List.cons_append, Text.cut?, head, ih later, Option.map_none]

theorem cut?_variable_append (cs : List Char) {rest : List Char} (plain : ∀ c ∈ cs, c ≠ '$')
    (free : Text.cut? Variable.opening rest = none) :
    Text.cut? Variable.opening (cs ++ rest) = none := by
  induction cs with
  | nil => exact free
  | cons c cs ih =>
    obtain ⟨other, plain⟩ := List.forall_mem_cons.mp plain
    have later := ih plain
    simp only [Variable.opening] at later ⊢
    simp [Text.cut?, Text.stripPrefix?, other.symm, later]

theorem spelled_without_variables (fit : ∀ part ∈ parts, part.fits = true) :
    occursIn (spelled parts) = false := by
  rw [occursIn, spelled, String.toList_ofList, Text.contains, Option.isSome_eq_false_iff,
    Option.isNone_iff_eq_none]
  induction parts with
  | nil => rfl
  | cons part parts ih =>
    obtain ⟨here, fit⟩ := List.forall_mem_cons.mp fit
    have rest := ih fit
    rw [List.flatMap_cons]
    cases part with
    | text cs => exact cut?_variable_append cs (fun c member => (fits_text here c member).2) rest
    | reference name =>
      obtain ⟨-, plain, -⟩ := fits_reference here
      have closed := cut?_variable_append Template.closing (by simp [Template.closing]) rest
      have named := cut?_variable_name (fun c member => (ne_brace_of_isPlain (plain c member)).1)
        (by decide) closed
      have whole := cut?_variable_append (Template.opening ++ ['.'])
        (by simp [Template.opening]) named
      simpa [spell, Template.closing] using whole

end Variables

section Pieces

open Template

theorem piecesFrom_text (offset : Nat) {cs : List Char} (free : ∀ c ∈ cs, c ≠ '{') :
    piecesFrom offset cs = textPiece cs :=
  piecesFrom_of_none offset (Text.cut?_none_of_free free)

theorem piecesFrom_action (offset : Nat) {lead body : List Char} (rest : List Char)
    (free : ∀ c ∈ lead, c ≠ '{') (closed : ∀ c ∈ body, c ≠ '}') :
    piecesFrom offset (lead ++ Template.opening ++ (body ++ Template.closing ++ rest)) =
      textPiece lead ++
        .action body :: piecesFrom (offset + byteSize lead + byteSize body + 4) rest :=
  piecesFrom_of_action offset (Text.cut?_of_free free) (Text.cut?_of_free closed)

theorem valueOf_reference {t : PropertyTable} {name value : String}
    (fit : (Part.reference name).fits = true) (found : t.get? name = some value) :
    valueOf t ('.' :: name.toList) = .ok value := by
  obtain ⟨filled, plain, undashed⟩ := fits_reference fit
  have unblank : ∀ c ∈ name.toList, Text.isBlank c = false :=
    fun c member => unblank_of_isPlain (plain c member)
  have trimmed : Text.trim ('.' :: name.toList) = '.' :: name.toList :=
    Text.trim_of_unblank (List.forall_mem_cons.mpr ⟨by decide, unblank⟩)
  have kept : Text.stripSuffix? ['-'] ('.' :: name.toList) = none := by
    have last : ('.' :: name.toList).reverse.head? ≠ some '-' := by
      rw [List.head?_reverse, List.getLast?_cons_of_ne_nil filled]
      exact undashed
    unfold Text.stripSuffix?
    generalize ('.' :: name.toList).reverse = reversed at last
    cases reversed with
    | nil => rfl
    | cons c cs =>
      have other : '-' ≠ c := fun same => last (by rw [same]; rfl)
      simp [Text.stripPrefix?, other]
  have signed : unsign ('.' :: name.toList) = '.' :: name.toList := by
    simp [unsign, trimmed, kept]
  have unspaced : name.toList.any Text.isBlank = false := by
    simpa using unblank
  simp [valueOf, signed, unspaced, filled, found]

theorem mapM_textPiece (t : PropertyTable) (cs : List Char) :
    ∃ outs, (textPiece cs).mapM (Piece.strict t) = .ok outs ∧
      String.join outs = String.ofList cs := by
  unfold textPiece
  split
  · next empty => exact ⟨[], rfl, by simp [List.isEmpty_iff.mp empty]⟩
  · exact ⟨[String.ofList cs], rfl, by simp⟩

theorem mapM_piecesFrom {t : PropertyTable} (offset : Nat) (lead : List Char)
    (free : ∀ c ∈ lead, c ≠ '{') (fit : ∀ part ∈ parts, part.fits = true)
    (known : ∀ name, .reference name ∈ parts → t.get? name = some (spelled (values name))) :
    ∃ outs, (piecesFrom offset (lead ++ parts.flatMap spell)).mapM (Piece.strict t) = .ok outs ∧
      String.join outs = String.ofList lead ++ spelled (inlined values parts) := by
  induction parts generalizing lead offset with
  | nil =>
    obtain ⟨outs, pieces, joined⟩ := mapM_textPiece t lead
    refine ⟨outs, ?_, by simpa [spelled, inlined] using joined⟩
    rw [List.flatMap_nil, List.append_nil, piecesFrom_text offset free, pieces]
  | cons part parts ih =>
    obtain ⟨here, others⟩ := List.forall_mem_cons.mp fit
    have later : ∀ name, .reference name ∈ parts → t.get? name = some (spelled (values name)) :=
      fun name member => known name (List.mem_cons_of_mem _ member)
    cases part with
    | text cs =>
      -- A text goes on the one in front of it.
      have longer : ∀ c ∈ lead ++ cs, c ≠ '{' := by
        intro c member
        rcases List.mem_append.mp member with front | back
        · exact free c front
        · exact (ne_brace_of_isPlain (fits_text here c back).1).1
      obtain ⟨outs, pieces, joined⟩ := ih offset (lead ++ cs) longer others later
      refine ⟨outs, by simpa [spell] using pieces, ?_⟩
      rw [joined]
      simp [spelled, inlined, spell, String.ofList_append, String.append_assoc]
    | reference name =>
      have closed : ∀ c ∈ '.' :: name.toList, c ≠ '}' :=
        List.forall_mem_cons.mpr ⟨by decide, fun c member =>
          (ne_brace_of_isPlain ((fits_reference here).2.1 c member)).2⟩
      have split := piecesFrom_action offset (parts.flatMap spell) free closed
      obtain ⟨front, text, joined⟩ := mapM_textPiece t lead
      obtain ⟨outs, pieces, behind⟩ :=
        ih (offset + byteSize lead + byteSize ('.' :: name.toList) + 4) [] nofun others later
      have value := valueOf_reference here (known name (by simp))
      refine ⟨front ++ spelled (values name) :: outs, ?_, ?_⟩
      · simp only [List.flatMap_cons, spell]
        simp only [List.append_assoc] at split ⊢
        rw [split, List.mapM_append, List.mapM_cons, text]
        simp only [List.nil_append] at pieces
        simp only [Piece.strict, value, pieces]
        rfl
      · rw [String.join_append, String.join_cons, joined, behind]
        simp [spelled, inlined, String.ofList_append]

theorem strict_spelled {t : PropertyTable} (fit : ∀ part ∈ parts, part.fits = true)
    (known : ∀ name, .reference name ∈ parts → t.get? name = some (spelled (values name))) :
    strict t (spelled parts) = .ok (spelled (inlined values parts)) := by
  obtain ⟨outs, found, joined⟩ := mapM_piecesFrom 0 [] nofun fit known
  rw [strict, pieces, spelled, String.toList_ofList]
  rw [List.nil_append] at found
  rw [found]
  simpa [Except.map, spelled] using joined

theorem strict_of_unmarked {s : String} (t : PropertyTable) (unmarked : occursIn s = false) :
    strict t s = .ok s := by
  rw [occursIn, Text.contains, Option.isSome_eq_false_iff, Option.isNone_iff_eq_none] at unmarked
  obtain ⟨outs, found, joined⟩ := mapM_textPiece t s.toList
  rw [strict, pieces, piecesFrom_of_none 0 unmarked, found]
  simpa [Except.map] using joined

theorem unmarked_of_closed (closed : ∀ name, .reference name ∉ parts)
    (fit : ∀ part ∈ parts, part.fits = true) : occursIn (spelled parts) = false := by
  have free : ∀ c ∈ parts.flatMap spell, c ≠ '{' := by
    intro c member
    obtain ⟨part, inside, member⟩ := List.mem_flatMap.mp member
    cases part with
    | text cs => exact (ne_brace_of_isPlain (fits_text (fit _ inside) c member).1).1
    | reference name => exact absurd inside (closed name)
  rw [occursIn, spelled, String.toList_ofList, Text.contains, Template.opening,
    Text.cut?_none_of_free free]
  rfl

end Pieces

theorem trimmed_spelled (fit : ∀ part ∈ parts, part.fits = true) :
    Text.trimmed (spelled parts) = spelled parts := by
  rw [Text.trimmed, Text.trim_of_unblank (spelled_unblank fit), String.ofList_toList]

theorem expand_spelled {t : PropertyTable} (env : String → Option String)
    (fit : ∀ part ∈ parts, part.fits = true)
    (fit' : ∀ part ∈ inlined values parts, part.fits = true)
    (known : ∀ name, .reference name ∈ parts → t.get? name = some (spelled (values name))) :
    t.expand env (spelled parts) = spelled (inlined values parts) := by
  have strict := strict_spelled fit known
  simp only [PropertyTable.expand, PropertyTable.withVariables, spelled_without_variables fit,
    Bool.not_false, Bool.true_and, Bool.false_eq_true, if_false]
  cases marked : Template.occursIn (spelled parts) with
  | false =>
    rw [strict_of_unmarked t marked] at strict
    simpa using strict
  | true =>
    simp only [Bool.not_true, Bool.false_eq_true, if_false, if_true, PropertyTable.render, strict]
    exact trimmed_spelled fit'

end Part

end Steward
