import Mathlib.Data.List.Basic
import Steward.Proofs.Property.Rendering
import Steward.Proofs.Typed.Literals

set_option autoImplicit false

namespace Steward

theorem Text.stripSuffix?_isSome_iff {tail cs : List Char} :
    (Text.stripSuffix? tail cs).isSome = true ↔ tail <:+ cs := by
  rw [Text.stripSuffix?, Option.isSome_map, ← List.reverse_prefix, Option.isSome_iff_ne_none, ne_eq,
    Text.stripPrefix?_eq_none_iff, not_not]

namespace Integer

def ScaledBy (suffix : String × Nat) (text head : List Char) : Prop :=
  ∃ letters, text = head ++ letters ∧ letters.map Char.toLower = suffix.1.toList ∧
    head ≠ [] ∧ hasRadixPrefix head = false

def Scaled (text : List Char) : Prop := ∃ suffix ∈ suffixes, ∃ head, ScaledBy suffix text head

variable {suffix : String × Nat} {text head : List Char}

theorem ScaledBy.head_eq (scaled : ScaledBy suffix text head) :
    head = text.take (text.length - suffix.1.length) := by
  obtain ⟨letters, rfl, same, -, -⟩ := scaled
  have long : letters.length = suffix.1.length := by
    rw [← String.length_toList, ← same, List.length_map]
  simp [long]

theorem scaledBy_iff :
    ScaledBy suffix text (text.take (text.length - suffix.1.length)) ↔
      ((Text.stripSuffix? suffix.1.toList (text.map Char.toLower)).isSome &&
        !(text.take (text.length - suffix.1.length)).isEmpty &&
        !hasRadixPrefix (text.take (text.length - suffix.1.length))) = true := by
  rw [Bool.and_eq_true, Bool.and_eq_true, Text.stripSuffix?_isSome_iff, Bool.not_eq_true',
    Bool.not_eq_true', List.isEmpty_eq_false_iff, and_assoc]
  constructor
  · rintro ⟨letters, same, lower, filled, unmarked⟩
    refine ⟨⟨(text.take (text.length - suffix.1.length)).map Char.toLower, ?_⟩, filled, unmarked⟩
    rw [← lower, ← List.map_append, ← same]
  · rintro ⟨⟨front, behind⟩, filled, unmarked⟩
    refine ⟨text.drop (text.length - suffix.1.length), (List.take_append_drop _ _).symm, ?_,
      filled, unmarked⟩
    have long := congrArg List.length behind
    rw [List.length_append, List.length_map, String.length_toList] at long
    have short : front.length = text.length - suffix.1.length := by omega
    rw [List.map_drop, ← behind, List.drop_left' short]

theorem splitSuffix_of_unscaled (unscaled : ¬ Scaled text) : splitSuffix text = (text, 1) := by
  unfold splitSuffix
  dsimp only
  split
  · next suffix factor found =>
    have member := List.mem_of_find?_eq_some found
    have fits := List.find?_some found
    exact absurd ⟨_, member, _, scaledBy_iff.mpr fits⟩ unscaled
  · rfl

theorem read_of_unscaled {s : String} (unscaled : ¬ Scaled (Text.trim s.toList)) :
    read s =
      if Text.trim s.toList = [] then .error .emptyInteger
      else readLiteral (Text.trim s.toList) := by
  simp [read, splitSuffix_of_unscaled unscaled]

theorem suffix_unique {s t : String × Nat} {cs : List Char} (first : s ∈ suffixes)
    (second : t ∈ suffixes) (one : s.1.toList <:+ cs) (other : t.1.toList <:+ cs) : s = t := by
  have table : ∀ s ∈ suffixes, ∀ t ∈ suffixes, s.1.toList.isSuffixOf t.1.toList → s = t := by
    decide +kernel
  rcases List.suffix_or_suffix_of_suffix one other with within | within
  · exact table s first t second (List.isSuffixOf_iff_suffix.mpr within)
  · exact (table t second s first (List.isSuffixOf_iff_suffix.mpr within)).symm

theorem ScaledBy.isSuffix (scaled : ScaledBy suffix text head) :
    suffix.1.toList <:+ text.map Char.toLower := by
  obtain ⟨letters, rfl, same, -, -⟩ := scaled
  exact ⟨head.map Char.toLower, by rw [← same, List.map_append]⟩

theorem splitSuffix_of_scaledBy (scaled : ScaledBy suffix text head) (member : suffix ∈ suffixes) :
    splitSuffix text = (head, suffix.2) := by
  unfold splitSuffix
  dsimp only
  split
  · next other factor found =>
    have fits := List.find?_some found
    rw [← scaledBy_iff] at fits
    have listed := List.mem_of_find?_eq_some found
    have same : (other, factor) = suffix :=
      suffix_unique listed member fits.isSuffix scaled.isSuffix
    rw [← same] at scaled
    rw [scaled.head_eq, ← same]
  · next none =>
    have fits := scaledBy_iff.mp (scaled.head_eq ▸ scaled)
    have unfit := List.find?_eq_none.mp none suffix member
    exact absurd fits unfit

theorem unscaled_iff : ¬ Scaled text ↔ splitSuffix text = (text, 1) := by
  refine ⟨splitSuffix_of_unscaled, ?_⟩
  rintro whole ⟨suffix, member, head, scaled⟩
  have table : ∀ suffix ∈ suffixes, suffix.2 ≠ 1 := by decide +kernel
  rw [splitSuffix_of_scaledBy scaled member] at whole
  exact table suffix member (congrArg Prod.snd whole)

section Literals

variable {n : Int} {k : Nat}

theorem hasRadixPrefix_marked {letter : Char} {radix : Nat} {front cs : List Char}
    (signs : ∀ c ∈ front, isSign c = true) (mark : (letter.toLower, radix) ∈ marks) :
    hasRadixPrefix (front ++ '0' :: letter :: cs) = true := by
  have dropped : (front ++ '0' :: letter :: cs).dropWhile (fun c => c == '+' || c == '-') =
      '0' :: letter :: cs := by
    change (front ++ _).dropWhile isSign = _
    rw [List.dropWhile_append_of_pos signs]
    rfl
  have member := (radix_of_marks mark).1
  rw [hasRadixPrefix, dropped]
  simp only [List.mem_cons, List.not_mem_nil, or_false] at member
  rcases member with same | same | same <;> simp [same]

theorem Magnitude.last (magnitude : Magnitude text k) : ∃ radix front c d,
    text = front ++ [c] ∧ Stands radix c d ∧ radix ≤ 16 ∧
      (10 < radix →
        ∃ letter cs, front = '0' :: letter :: cs ∧ (letter.toLower, radix) ∈ marks) := by
  obtain ⟨radix, front, ds, said, rfl, some, digits⟩ := magnitude.parts
  obtain ⟨before, c, d, rfl, stands⟩ := digits.last some
  refine ⟨radix, front ++ before, c, d, by simp, stands, said.radix.2, fun wide => ?_⟩
  cases said with
  | decimal => exact absurd wide (by decide)
  | legacy => exact absurd wide (by decide)
  | @marked letter radix mark => exact ⟨letter, before, rfl, mark⟩

theorem suffix_of_digit {radix d : Nat} {c : Char} {letters : List Char}
    (member : suffix ∈ suffixes) (same : (letters ++ [c]).map Char.toLower = suffix.1.toList)
    (stands : Stands radix c d) (small : radix ≤ 16) : letters = [] ∧ 10 < radix := by
  have table : ∀ suffix ∈ suffixes, ∀ d < 16, suffix.1.toList.getLast? = some d.digitChar →
      suffix.1.toList.length = 1 ∧ 10 ≤ d := by
    decide +kernel
  have within := stands.1
  have last : suffix.1.toList.getLast? = some d.digitChar := by
    rw [← same, ← stands.2, List.map_append, List.map_singleton, List.getLast?_concat]
  obtain ⟨single, ten⟩ := table suffix member d (by omega) last
  rw [← same, List.length_map, List.length_append, List.length_singleton] at single
  exact ⟨List.eq_nil_of_length_eq_zero (by omega), by omega⟩

theorem letters_written {letters : List Char} (listed : suffix ∈ suffixes)
    (lower : letters.map Char.toLower = suffix.1.toList) :
    letters ≠ [] ∧ ∀ c ∈ letters, c.isAlphanum = true := by
  have table : ∀ suffix ∈ suffixes,
      suffix.1.toList ≠ [] ∧ suffix.1.toList.all Char.isAlphanum = true := by
    decide +kernel
  obtain ⟨filled, written⟩ := table suffix listed
  constructor
  · rintro rfl
    exact filled lower.symm
  · intro c member
    rw [← Text.isAlphanum_toLower]
    exact List.all_eq_true.mp written c.toLower (lower ▸ List.mem_map_of_mem member)

theorem Literal.unscaled (literal : Literal text n) : ¬ Scaled text := by
  obtain ⟨sign, body, k, rfl, signs, magnitude, -⟩ := literal.parts
  obtain ⟨radix, front, c, d, rfl, stands, small, marked⟩ := magnitude.last
  rintro ⟨suffix, member, head, letters, same, lower, -, unmarked⟩
  have filled := (letters_written member lower).1
  obtain ⟨before, c', rfl⟩ := List.eq_nil_or_concat' letters |>.resolve_left filled
  rw [← List.append_assoc, ← List.append_assoc] at same
  obtain ⟨fronts, ends⟩ := List.append_inj' same rfl
  cases ends
  obtain ⟨rfl, wide⟩ := suffix_of_digit member lower stands small
  obtain ⟨letter, cs, rfl, mark⟩ := marked wide
  rw [List.append_nil] at fronts
  rw [← fronts, hasRadixPrefix_marked signs mark] at unmarked
  cases unmarked

theorem read_literal {s : String} (literal : Literal (Text.trim s.toList) n) :
    read s =
      if n.natAbs ≤ signedLimit - 1 then .ok n
      else .error (.digits (String.ofList (Text.trim s.toList)) .tooLarge) := by
  rw [read_of_unscaled literal.unscaled, if_neg literal.ne_nil, readLiteral_loose literal.loose]

end Literals

end Integer

end Steward
