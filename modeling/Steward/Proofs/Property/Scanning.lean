import Mathlib.Data.List.Chain
import Steward.Proofs.Property.Rendering

set_option autoImplicit false

namespace Steward.Template

open Text (Precedes cut?)

def step? (offset : Nat) (cs : List Char) : Option (Piece × List Char) :=
  if cs.isEmpty then none
  else
    match cut? opening cs with
    | none => some (.text cs, [])
    | some ([], after) =>
      match cut? closing after with
      | none => some (.unclosed cs offset, [])
      | some (body, rest) => some (.action body, rest)
    | some (lead, after) => some (.text lead, opening ++ after)

inductive Scans : Nat → List Char → List Piece → Prop
  | done {offset : Nat} {cs : List Char} (ended : step? offset cs = none) : Scans offset cs []
  | step {offset : Nat} {cs rest : List Char} {p : Piece} {ps : List Piece}
      (taken : step? offset cs = some (p, rest)) (more : Scans (offset + byteSize p.raw) rest ps) :
      Scans offset cs (p :: ps)

def Piece.isText : Piece → Bool
  | .text _ => true
  | _ => false

/-- The pieces lie side by side on the text, from the offset to its end. -/
structure Tiles (offset : Nat) (cs : List Char) (ps : List Piece) : Prop where
  covers : ps.flatMap Piece.raw = cs
  filled : ∀ p ∈ ps, p.raw ≠ []
  plain : ∀ text, .text text ∈ ps → ¬ opening <:+: text
  apart : ps.IsChain fun p q => ¬ (p.isText ∧ q.isText)
  action : ∀ body, .action body ∈ ps →
    (Piece.action body).raw = opening ++ body ++ closing ∧ ¬ closing <:+: body
  unclosed : ∀ front raw place back, ps = front ++ .unclosed raw place :: back →
    back = [] ∧ place = offset + (String.ofList (front.flatMap Piece.raw)).utf8ByteSize ∧
      ∃ after, raw = opening ++ after ∧ ¬ closing <:+: after

variable {offset : Nat} {cs rest lead after body : List Char} {p : Piece} {ps : List Piece}

theorem byteSize_append (front back : List Char) :
    byteSize (front ++ back) = byteSize front + byteSize back := by
  have further (n : Nat) :
      back.foldl (fun n c => n + c.utf8Size) n = n + byteSize back := by
    unfold byteSize
    induction back generalizing n with
    | nil => rfl
    | cons c back ih =>
      rw [List.foldl_cons, List.foldl_cons, ih, ih (0 + _)]
      omega
  rw [byteSize, List.foldl_append, further]
  rfl

theorem byteSize_eq (cs : List Char) : byteSize cs = (String.ofList cs).utf8ByteSize := by
  induction cs with
  | nil => rfl
  | cons c cs ih =>
    have first : byteSize [c] = (String.ofList [c]).utf8ByteSize := by
      rw [← String.singleton_eq_ofList, String.utf8ByteSize_singleton]
      exact Nat.zero_add _
    rw [← List.singleton_append, byteSize_append, ih, first, String.ofList_append,
      String.utf8ByteSize_append]

theorem byteSize_action (body : List Char) :
    byteSize (Piece.action body).raw = byteSize body + 4 := by
  have braces : byteSize opening = 2 ∧ byteSize closing = 2 := by decide
  rw [Piece.raw, byteSize_append, byteSize_append, braces.1, braces.2]
  omega

theorem cut?_opening (after : List Char) : cut? opening (opening ++ after) = some ([], after) :=
  (Text.precedes_nil opening_ne_nil).cut? opening_ne_nil after

inductive Takes (offset : Nat) : List Char → Piece → List Char → Prop
  | last {cs : List Char} (filled : cs ≠ []) (unmarked : ¬ opening <:+: cs) :
      Takes offset cs (.text cs) []
  | lead {lead after : List Char} (filled : lead ≠ []) (first : Precedes lead opening) :
      Takes offset (lead ++ opening ++ after) (.text lead) (opening ++ after)
  | unclosed {after : List Char} (endless : ¬ closing <:+: after) :
      Takes offset (opening ++ after) (.unclosed (opening ++ after) offset) []
  | action {body rest : List Char} (next : Precedes body closing) :
      Takes offset (opening ++ (body ++ closing ++ rest)) (.action body) rest

theorem step?_eq_some_iff : step? offset cs = some (p, rest) ↔ Takes offset cs p rest := by
  constructor
  · intro taken
    unfold step? at taken
    split at taken
    · cases taken
    · next filled =>
      rw [List.isEmpty_iff] at filled
      split at taken
      · next missing =>
        cases taken
        exact .last filled (Text.cut?_eq_none_iff.mp missing)
      · next after found =>
        obtain ⟨rfl, -⟩ := (Text.cut?_eq_some_iff opening_ne_nil).mp found
        split at taken
        · next missing =>
          cases taken
          exact .unclosed (Text.cut?_eq_none_iff.mp missing)
        · next body rest closed =>
          cases taken
          obtain ⟨rfl, next⟩ := (Text.cut?_eq_some_iff closing_ne_nil).mp closed
          exact .action next
      · next lead after other found =>
        cases taken
        obtain ⟨rfl, first⟩ := (Text.cut?_eq_some_iff opening_ne_nil).mp found
        exact .lead other first
  · intro takes
    unfold step?
    cases takes with
    | last filled unmarked => simp [filled, Text.cut?_eq_none_iff.mpr unmarked]
    | @lead lead after filled first =>
      rw [first.cut? opening_ne_nil]
      cases lead with
      | nil => exact absurd rfl filled
      | cons c lead => rfl
    | @unclosed after endless =>
      rw [cut?_opening]
      simp [Text.cut?_eq_none_iff.mpr endless, opening]
    | @action body rest next =>
      rw [cut?_opening]
      simp only [next.cut? closing_ne_nil]
      rfl

theorem step?_eq_none_iff : step? offset cs = none ↔ cs = [] := by
  constructor
  · intro ended
    cases cs with
    | nil => rfl
    | cons c cs =>
      unfold step? at ended
      simp only [List.isEmpty_cons, Bool.false_eq_true, if_false] at ended
      repeat' split at ended
      all_goals cases ended
  · rintro rfl
    rfl

namespace Takes

theorem covers (takes : Takes offset cs p rest) : cs = p.raw ++ rest := by
  cases takes <;> simp [Piece.raw]

theorem filled (takes : Takes offset cs p rest) : p.raw ≠ [] := by
  cases takes with
  | last filled _ => exact filled
  | lead filled _ => exact filled
  | unclosed _ => simp [Piece.raw, opening]
  | action _ => simp [Piece.raw, opening]

theorem plain (takes : Takes offset cs p rest) {text : List Char} (own : p = .text text) :
    ¬ opening <:+: text := by
  cases takes with
  | last _ unmarked =>
    cases own
    exact unmarked
  | lead _ first =>
    cases own
    exact fun within => first (within.trans (List.infix_append' [] _ _))
  | unclosed _ => cases own
  | action _ => cases own

theorem endless (takes : Takes offset cs p rest) {raw : List Char} {place : Nat}
    (own : p = .unclosed raw place) :
    rest = [] ∧ place = offset ∧ ∃ after, raw = opening ++ after ∧ ¬ closing <:+: after := by
  cases takes with
  | @unclosed after endless =>
    cases own
    exact ⟨rfl, rfl, after, rfl, endless⟩
  | last _ _ => cases own
  | lead _ _ => cases own
  | action _ => cases own

theorem closed (takes : Takes offset cs p rest) {body : List Char} (own : p = .action body) :
    ¬ closing <:+: body := by
  cases takes with
  | action next =>
    cases own
    exact fun within => next (within.trans (List.infix_append' [] _ _))
  | last _ _ => cases own
  | lead _ _ => cases own
  | unclosed _ => cases own

theorem apart {q : Piece} {rest' : List Char} (takes : Takes offset cs p rest)
    (next : Takes (offset + byteSize p.raw) rest q rest') : ¬ (p.isText ∧ q.isText) := by
  rintro ⟨first, second⟩
  cases takes with
  | last _ _ => exact next.filled (List.append_eq_nil_iff.mp next.covers.symm).1
  | unclosed _ => cases first
  | action _ => cases first
  | @lead lead after _ _ =>
    generalize front : opening ++ after = cs at next
    cases next with
    | last _ unmarked =>
      rw [← front] at unmarked
      exact unmarked (List.prefix_append opening after).isInfix
    | @lead lead' after' filled first =>
      have found := first.cut? opening_ne_nil after'
      rw [← front, cut?_opening] at found
      cases found
      exact filled rfl
    | unclosed _ => cases second
    | action _ => cases second

end Takes

namespace Scans

theorem unique {ps' : List Piece} (scans : Scans offset cs ps) (other : Scans offset cs ps') :
    ps = ps' := by
  induction scans generalizing ps' with
  | done ended =>
    cases other with
    | done _ => rfl
    | step taken _ => cases ended.symm.trans taken
  | step taken _ ih =>
    cases other with
    | done ended => cases ended.symm.trans taken
    | step taken' more =>
      cases taken.symm.trans taken'
      rw [ih more]

theorem nil (scans : Scans offset [] ps) : ps = [] :=
  scans.unique (.done rfl)

theorem behind (first : Precedes lead opening)
    (more : Scans (offset + byteSize lead) (opening ++ after) ps) :
    Scans offset (lead ++ opening ++ after) (textPiece lead ++ ps) := by
  cases lead with
  | nil => exact more
  | cons c lead => exact .step (step?_eq_some_iff.mpr (.lead (List.cons_ne_nil c lead) first)) more

theorem tiles (scans : Scans offset cs ps) : Tiles offset cs ps := by
  induction scans with
  | done ended =>
    rw [step?_eq_none_iff.mp ended]
    exact ⟨rfl, nofun, nofun, .nil, nofun, fun front _ _ _ none => by simp at none⟩
  | @step offset cs rest p ps taken more ih =>
    have takes := step?_eq_some_iff.mp taken
    refine ⟨?_, ?_, ?_, ?_, ?_, ?_⟩
    · rw [List.flatMap_cons, ih.covers]
      exact takes.covers.symm
    · exact List.forall_mem_cons.mpr ⟨takes.filled, ih.filled⟩
    · intro text member
      rcases List.mem_cons.mp member with own | later
      · exact takes.plain own.symm
      · exact ih.plain text later
    · refine List.isChain_cons.mpr ⟨fun q behind => ?_, ih.apart⟩
      cases more with
      | done _ => cases behind
      | step taken' _ =>
        cases behind
        exact takes.apart (step?_eq_some_iff.mp taken')
    · intro body member
      rcases List.mem_cons.mp member with own | later
      · exact ⟨rfl, takes.closed own.symm⟩
      · exact ih.action body later
    · intro front raw place back split
      cases front with
      | nil =>
        obtain ⟨own, rfl⟩ := List.cons.inj split
        obtain ⟨rfl, here, shape⟩ := takes.endless own
        exact ⟨more.nil, here, shape⟩
      | cons q front =>
        obtain ⟨rfl, later⟩ := List.cons.inj split
        obtain ⟨last, offset, shape⟩ := ih.unclosed front raw place back later
        refine ⟨last, ?_, shape⟩
        rw [offset, List.flatMap_cons, ← byteSize_eq, ← byteSize_eq, byteSize_append]
        omega

end Scans

theorem scans_piecesFrom (offset : Nat) (cs : List Char) :
    Scans offset cs (piecesFrom offset cs) := by
  fun_induction piecesFrom offset cs with
  | case1 offset cs missing =>
    cases cs with
    | nil => exact .done rfl
    | cons c cs =>
      have unmarked := Text.cut?_eq_none_iff.mp missing
      exact .step (step?_eq_some_iff.mpr (.last (List.cons_ne_nil c cs) unmarked)) (.done rfl)
  | case2 offset cs before after found missing =>
    obtain ⟨rfl, first⟩ := (Text.cut?_eq_some_iff opening_ne_nil).mp found
    exact .behind first (.step (step?_eq_some_iff.mpr (.unclosed (Text.cut?_eq_none_iff.mp missing)))
      (.done rfl))
  | case3 offset cs before after found body rest closed ih =>
    obtain ⟨rfl, first⟩ := (Text.cut?_eq_some_iff opening_ne_nil).mp found
    obtain ⟨rfl, next⟩ := (Text.cut?_eq_some_iff closing_ne_nil).mp closed
    refine .behind first (.step (step?_eq_some_iff.mpr (.action next)) ?_)
    rw [byteSize_action, ← Nat.add_assoc]
    exact ih

theorem pieces_tile (text : String) :
    (∀ ps, Scans 0 text.toList ps ↔ ps = pieces text) ∧ Tiles 0 text.toList (pieces text) := by
  have scans : Scans 0 text.toList (pieces text) := scans_piecesFrom 0 text.toList
  refine ⟨fun ps => ⟨fun other => other.unique scans, ?_⟩, scans.tiles⟩
  rintro rfl
  exact scans

end Steward.Template
