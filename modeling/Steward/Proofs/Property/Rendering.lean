import Steward.Proofs.Property.Parts

set_option autoImplicit false

namespace Steward

namespace Text

variable {sep cs before after rest : List Char}

theorem stripPrefix?_eq_some_iff : stripPrefix? sep cs = some rest ↔ cs = sep ++ rest := by
  constructor
  · exact stripPrefix?_eq_some
  · rintro rfl
    exact stripPrefix?_append sep rest

theorem stripPrefix?_eq_none_iff : stripPrefix? sep cs = none ↔ ¬ sep <+: cs := by
  rw [Option.eq_none_iff_forall_not_mem]
  constructor
  · rintro none ⟨rest, rfl⟩
    exact none rest (stripPrefix?_append sep rest)
  · intro apart rest found
    exact apart ⟨rest, (stripPrefix?_eq_some found).symm⟩

theorem cut?_eq_none_iff : cut? sep cs = none ↔ ¬ sep <:+: cs := by
  induction cs with
  | nil => simp [cut?, stripPrefix?_eq_none_iff]
  | cons c cs ih =>
    rw [List.infix_cons_iff, not_or, ← ih, ← stripPrefix?_eq_none_iff, cut?]
    cases stripPrefix? sep (c :: cs) <;> simp

theorem contains_iff : contains sep cs = true ↔ sep <:+: cs := by
  rw [contains, Option.isSome_iff_ne_none, ne_eq, cut?_eq_none_iff, not_not]

def Precedes (before sep : List Char) : Prop := ¬ sep <:+: before ++ sep.dropLast

theorem precedes_nil (filled : sep ≠ []) : Precedes [] sep := by
  intro within
  have shorter := within.length_le
  have longer := List.length_pos_iff.mpr filled
  simp only [List.nil_append, List.length_dropLast] at shorter
  omega

theorem precedes_cons {c : Char} (after : List Char) :
    Precedes (c :: before) sep ↔
      ¬ sep <+: c :: (before ++ sep ++ after) ∧ Precedes before sep := by
  have longer : sep.length ≤ (c :: (before ++ sep.dropLast)).length := by
    simp only [List.length_cons, List.length_append, List.length_dropLast]
    omega
  have front : c :: (before ++ sep.dropLast) <+: c :: (before ++ sep ++ after) := by
    rw [List.cons_prefix_cons, List.append_assoc, List.prefix_append_right_inj]
    exact ⟨rfl, (List.dropLast_prefix sep).trans (List.prefix_append sep after)⟩
  rw [Precedes, List.cons_append, List.infix_cons_iff, not_or]
  refine and_congr_left' (not_congr ⟨fun here => here.trans front, fun here => ?_⟩)
  exact List.prefix_of_prefix_length_le here front longer

theorem cut?_eq_some_iff (filled : sep ≠ []) :
    cut? sep cs = some (before, after) ↔ cs = before ++ sep ++ after ∧ Precedes before sep := by
  induction before generalizing cs with
  | nil =>
    simp only [precedes_nil filled, and_true, List.nil_append, ← stripPrefix?_eq_some_iff]
    cases cs with
    | nil => simp [cut?]
    | cons c cs =>
      rw [cut?]
      cases stripPrefix? sep (c :: cs) <;> simp
  | cons d before ih =>
    cases cs with
    | nil => simp [cut?]
    | cons c cs =>
      rw [cut?, List.cons_append, List.cons_append, List.cons.injEq, precedes_cons after]
      cases found : stripPrefix? sep (c :: cs) with
      | some rest =>
        have here : sep <+: c :: cs := ⟨rest, (stripPrefix?_eq_some found).symm⟩
        simp only [Option.some.injEq, Prod.mk.injEq, reduceCtorEq, false_and, false_iff]
        rintro ⟨⟨rfl, rfl⟩, apart, -⟩
        exact apart here
      | none =>
        have apart := stripPrefix?_eq_none_iff.mp found
        simp only [Option.map_eq_some_iff, Prod.exists, Prod.mk.injEq, List.cons.injEq]
        constructor
        · rintro ⟨_, _, later, ⟨rfl, rfl⟩, rfl⟩
          obtain ⟨rfl, first⟩ := ih.mp later
          exact ⟨⟨rfl, rfl⟩, apart, first⟩
        · rintro ⟨⟨rfl, rfl⟩, -, first⟩
          exact ⟨before, after, ih.mpr ⟨rfl, first⟩, ⟨rfl, rfl⟩, rfl⟩

theorem Precedes.cut? (first : Precedes before sep) (filled : sep ≠ []) (after : List Char) :
    Text.cut? sep (before ++ sep ++ after) = some (before, after) :=
  (cut?_eq_some_iff filled).mpr ⟨rfl, first⟩

end Text

namespace Template

open Text (Precedes)

variable {props : PropertyTable} {cs out : List Char}

/-- What a text becomes where each span counts for itself. -/
inductive Rendered (props : PropertyTable) : List Char → List Char → Prop
  | plain {cs : List Char} (unmarked : ¬ opening <:+: cs) : Rendered props cs cs
  | unclosed {lead after : List Char} (first : Precedes lead opening)
      (endless : ¬ closing <:+: after) :
      Rendered props (lead ++ opening ++ after) (lead ++ opening ++ after)
  | resolved {lead body rest out : List Char} {value : String} (first : Precedes lead opening)
      (next : Precedes body closing) (means : valueOf props body = .ok value)
      (later : Rendered props rest out) :
      Rendered props (lead ++ opening ++ (body ++ closing ++ rest)) (lead ++ value.toList ++ out)
  | kept {lead body rest out : List Char} {fault : TemplateFault}
      (first : Precedes lead opening) (next : Precedes body closing)
      (unresolved : valueOf props body = .error fault) (later : Rendered props rest out) :
      Rendered props (lead ++ opening ++ (body ++ closing ++ rest))
        (lead ++ opening ++ (body ++ closing ++ out))

theorem opening_ne_nil : opening ≠ [] := nofun

theorem closing_ne_nil : closing ≠ [] := nofun

def carefulChars (props : PropertyTable) (pieces : List Piece) : List Char :=
  pieces.flatMap fun p => (p.careful props).toList

theorem toList_careful (props : PropertyTable) (s : String) :
    (careful props s).toList = carefulChars props (pieces s) := by
  simp [careful, carefulChars, String.toList_join, List.flatMap_map]

theorem carefulChars_append (front back : List Piece) :
    carefulChars props (front ++ back) = carefulChars props front ++ carefulChars props back :=
  List.flatMap_append

theorem carefulChars_text (cs : List Char) : carefulChars props (textPiece cs) = cs := by
  cases cs <;> simp [carefulChars, textPiece, Piece.careful, Piece.strict]

theorem carefulChars_unclosed (cs : List Char) (offset : Nat) :
    carefulChars props [.unclosed cs offset] = cs := by
  simp [carefulChars, Piece.careful, Piece.strict, Piece.raw]

theorem carefulChars_resolved {body : List Char} {value : String}
    (means : valueOf props body = .ok value) (rest : List Piece) :
    carefulChars props (.action body :: rest) = value.toList ++ carefulChars props rest := by
  simp [carefulChars, Piece.careful, Piece.strict, means]

theorem carefulChars_kept {body : List Char} {fault : TemplateFault}
    (unresolved : valueOf props body = .error fault) (rest : List Piece) :
    carefulChars props (.action body :: rest) =
      opening ++ (body ++ closing ++ carefulChars props rest) := by
  simp [carefulChars, Piece.careful, Piece.strict, Piece.raw, unresolved]

theorem rendered_pieces (props : PropertyTable) (offset : Nat) (cs : List Char) :
    Rendered props cs (carefulChars props (piecesFrom offset cs)) := by
  fun_induction piecesFrom offset cs with
  | case1 _ cs missing =>
    rw [carefulChars_text]
    exact .plain (Text.cut?_eq_none_iff.mp missing)
  | case2 _ cs before after found missing =>
    obtain ⟨rfl, first⟩ := (Text.cut?_eq_some_iff opening_ne_nil).mp found
    rw [carefulChars_append, carefulChars_text, carefulChars_unclosed, ← List.append_assoc]
    exact .unclosed first (Text.cut?_eq_none_iff.mp missing)
  | case3 _ cs before after found body rest closed ih =>
    obtain ⟨rfl, first⟩ := (Text.cut?_eq_some_iff opening_ne_nil).mp found
    obtain ⟨rfl, next⟩ := (Text.cut?_eq_some_iff closing_ne_nil).mp closed
    rw [carefulChars_append, carefulChars_text]
    cases value : valueOf props body with
    | ok value =>
      rw [carefulChars_resolved value, ← List.append_assoc before]
      exact .resolved first next value ih
    | error fault =>
      rw [carefulChars_kept value, ← List.append_assoc before]
      exact .kept first next value ih

theorem Rendered.eq_pieces (rendered : Rendered props cs out) (offset : Nat) :
    out = carefulChars props (piecesFrom offset cs) := by
  induction rendered generalizing offset with
  | plain unmarked =>
    rw [piecesFrom_of_none offset (Text.cut?_eq_none_iff.mpr unmarked), carefulChars_text]
  | unclosed first endless =>
    have unended := Text.cut?_eq_none_iff.mpr endless
    rw [piecesFrom_of_unclosed offset (first.cut? opening_ne_nil _) unended, carefulChars_append,
      carefulChars_text, carefulChars_unclosed, List.append_assoc]
  | resolved first next means _ ih =>
    rw [piecesFrom_of_action offset (first.cut? opening_ne_nil _) (next.cut? closing_ne_nil _),
      carefulChars_append, carefulChars_text, carefulChars_resolved means, ← ih, List.append_assoc]
  | kept first next unresolved _ ih =>
    rw [piecesFrom_of_action offset (first.cut? opening_ne_nil _) (next.cut? closing_ne_nil _),
      carefulChars_append, carefulChars_text, carefulChars_kept unresolved, ← ih, List.append_assoc]

theorem rendered_iff {text : String} :
    Rendered props text.toList out ↔ out = (careful props text).toList := by
  rw [toList_careful, pieces]
  constructor
  · intro rendered
    exact rendered.eq_pieces 0
  · rintro rfl
    exact rendered_pieces props 0 text.toList

theorem careful_of_unmarked {text : String} (unmarked : ¬ opening <:+: text.toList) :
    careful props text = text :=
  String.toList_inj.mp (rendered_iff.mp (.plain unmarked)).symm

theorem map_careful_of_mapM_strict {pieces : List Piece} {outs : List String}
    (values : pieces.mapM (Piece.strict props) = .ok outs) :
    pieces.map (Piece.careful props) = outs := by
  induction pieces generalizing outs with
  | nil =>
    cases values
    rfl
  | cons piece pieces ih =>
    rw [List.mapM_cons] at values
    cases value : piece.strict props with
    | error fault =>
      rw [value] at values
      cases values
    | ok value' =>
      rw [value] at values
      cases later : pieces.mapM (Piece.strict props) with
      | error fault =>
        rw [later] at values
        cases values
      | ok outs' =>
        rw [later] at values
        cases values
        rw [List.map_cons, careful_of_strict value, ih later]

theorem careful_eq_of_strict {text out : String} (rendered : strict props text = .ok out) :
    careful props text = out := by
  unfold strict at rendered
  cases values : (pieces text).mapM (Piece.strict props) with
  | error fault =>
    rw [values] at rendered
    cases rendered
  | ok outs =>
    rw [values] at rendered
    cases rendered
    rw [careful, map_careful_of_mapM_strict values]

theorem occursIn_iff {s : String} : occursIn s = true ↔ opening <:+: s.toList :=
  Text.contains_iff

end Template

namespace Variable

theorem occursIn_iff {s : String} : occursIn s = true ↔ opening <:+: s.toList :=
  Text.contains_iff

theorem opening_prefix_of_reference? {cs name after : List Char}
    (found : reference? cs = some (name, after)) : opening <+: cs := by
  unfold reference? at found
  split at found
  · next c rest => exact ⟨c :: rest, rfl⟩
  · cases found

theorem substitute_of_unmarked (env : String → Option String) {cs : List Char}
    (unmarked : ¬ opening <:+: cs) : substitute env cs = cs := by
  fun_induction substitute env cs with
  | case1 => rfl
  | case2 c rest missing ih =>
    rw [ih fun later => unmarked (List.infix_cons later)]
  | case3 c rest name after found =>
    exact absurd (opening_prefix_of_reference? found).isInfix unmarked
  | case4 c rest name after found =>
    exact absurd (opening_prefix_of_reference? found).isInfix unmarked

end Variable

namespace PropertyTable

theorem render_eq_careful (t : PropertyTable) (text : String) :
    t.render text = Template.careful t text := by
  unfold render
  split
  · next rendered => rw [Template.careful_eq_of_strict rendered]
  · rfl

theorem withVariables_eq (env : String → Option String) (raw : String) :
    withVariables env raw = String.ofList (Variable.substitute env raw.toList) := by
  unfold withVariables
  split
  · rfl
  · next unmarked =>
    rw [Variable.substitute_of_unmarked env (mt Variable.occursIn_iff.mpr unmarked),
      String.ofList_toList]

theorem expand_careful (t : PropertyTable) (env : String → Option String) (raw : String) :
    (¬ Variable.opening <:+: raw.toList → ¬ Template.opening <:+: raw.toList →
      t.expand env raw = raw) ∧
    (Variable.opening <:+: raw.toList ∨ Template.opening <:+: raw.toList →
      t.expand env raw = Text.trimmed
        (Template.careful t (String.ofList (Variable.substitute env raw.toList)))) ∧
    (∀ text out, Template.strict t text = .ok out → Template.careful t text = out) ∧
    ∀ text out, Template.Rendered t text.toList out ↔ out = (Template.careful t text).toList := by
  refine ⟨fun unset unmarked => ?_, fun marked => ?_,
    fun text out rendered => Template.careful_eq_of_strict rendered,
    fun text out => Template.rendered_iff⟩
  · rw [← Variable.occursIn_iff, Bool.not_eq_true] at unset
    rw [← Template.occursIn_iff, Bool.not_eq_true] at unmarked
    exact expand_of_plain unset unmarked
  · rw [← Variable.occursIn_iff, ← Template.occursIn_iff] at marked
    have open_ : (!Variable.occursIn raw && !Template.occursIn raw) = false := by
      rcases marked with marked | marked <;> simp [marked]
    unfold expand
    rw [open_, withVariables_eq]
    simp only [Bool.false_eq_true, if_false, render_eq_careful]
    split
    · rfl
    · next unmarked =>
      rw [Template.careful_of_unmarked (mt Template.occursIn_iff.mpr unmarked)]

end PropertyTable

end Steward
