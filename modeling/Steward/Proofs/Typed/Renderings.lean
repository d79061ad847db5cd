import Steward.Proofs.Typed.Suffixes

set_option autoImplicit false

namespace Steward

namespace Text

theorem isBlank_of_isAlphanum {c : Char} (filled : c.isAlphanum = true) : isBlank c = false := by
  rw [isAlphanum_iff] at filled
  simp only [isBlank, Bool.or_eq_false_iff, Bool.and_eq_false_iff, decide_eq_false_iff_not,
    beq_eq_false_iff_ne]
  omega

theorem trim_padded {before cs after : List Char} (blank : ∀ c ∈ before ++ after, isBlank c = true)
    (unblank : ∀ c ∈ cs, isBlank c = false) (filled : cs ≠ []) :
    trim (before ++ cs ++ after) = cs := by
  obtain ⟨front, back⟩ := List.forall_mem_append.mp blank
  have start : trimStart (before ++ cs ++ after) = cs ++ after := by
    obtain ⟨c, tail, rfl⟩ := List.exists_cons_of_ne_nil filled
    have head : isBlank c = false := unblank c List.mem_cons_self
    rw [trimStart, List.append_assoc, List.dropWhile_append_of_pos front, List.cons_append,
      List.dropWhile_cons_of_neg (by simp [head])]
  have whole := trim_of_unblank unblank
  rw [trim, trimStart, List.dropWhile_eq_self_iff.mpr fun _ => by
    simpa using unblank _ (List.getElem_mem _)] at whole
  rw [trim, start, trimEnd, dropEndWhile_append_of_all _ _ (List.all_eq_true.mpr back)]
  exact whole

end Text

namespace Integer

inductive Form
  | decimal
  | legacy
  | octal
  | hexadecimal
  | binary

namespace Form

def mark : Form → List Char
  | .decimal | .legacy => []
  | .octal => ['0', 'o']
  | .hexadecimal => ['0', 'x']
  | .binary => ['0', 'b']

def digits : Form → Nat → List Char
  | .decimal, n => Nat.toDigits 10 n
  | .legacy, n => '0' :: Nat.toDigits 8 n
  | .octal, n => Nat.toDigits 8 n
  | .hexadecimal, n => Nat.toDigits 16 n
  | .binary, n => Nat.toDigits 2 n

inductive Renders (form : Form) : List Char → Nat → Prop
  | intro {mark digits : List Char} {n : Nat} (marked : mark.map Char.toLower = form.mark)
      (spelled : (strip digits).map Char.toLower = form.digits n)
      (head : digits.head? ≠ some '_') (last : digits.getLast? ≠ some '_') :
      Renders form (mark ++ digits) n

end Form

variable {n : Nat} {cs : List Char}

theorem stands_digitChar {radix d : Nat} (within : d < radix) (small : radix ≤ 16) :
    Stands radix d.digitChar d := by
  have table : ∀ d < 16, d.digitChar.toLower = d.digitChar := by decide
  exact ⟨within, table d (by omega)⟩

theorem digits_toDigits {radix : Nat} (two : 2 ≤ radix) (small : radix ≤ 16) (n : Nat) :
    Digits radix 0 (Nat.toDigits radix n) n := by
  induction n using Nat.strongRecOn with
  | ind n ih =>
    by_cases single : n < radix
    · rw [Nat.toDigits_of_lt_base single]
      exact .digit (stands_digitChar single small) (by simpa using .done)
    · have before := ih (n / radix) (Nat.div_lt_self (by omega) (by omega))
      have within := Nat.mod_lt n (show 0 < radix by omega)
      rw [Nat.toDigits_of_base_le (by omega) (by omega)]
      refine before.append (.digit (stands_digitChar within small) ?_)
      rw [Nat.div_add_mod']
      exact .done

theorem eq_zero_of_toDigits {radix : Nat} (two : 2 ≤ radix)
    (zero : (Nat.toDigits radix n).head? = some '0') : n = 0 := by
  induction n using Nat.strongRecOn with
  | ind n ih =>
    by_cases single : n < radix
    · rw [Nat.toDigits_of_lt_base single] at zero
      simpa using zero
    · rw [Nat.toDigits_of_base_le (by omega) (by omega),
        List.head?_append_of_ne_nil _ Nat.toDigits_ne_nil] at zero
      have none := ih (n / radix) (Nat.div_lt_self (by omega) (by omega)) zero
      have := Nat.div_pos (show radix ≤ n by omega) (by omega)
      omega

theorem digits_of_spelled {radix : Nat} (two : 2 ≤ radix) (small : radix ≤ 16)
    (spelled : (strip cs).map Char.toLower = Nat.toDigits radix n) (last : cs.getLast? ≠ some '_') :
    cs ≠ [] ∧ Digits radix 0 cs n := by
  have filled : cs ≠ [] := by
    rintro rfl
    exact Nat.toDigits_ne_nil spelled.symm
  have plain : '_' ∉ strip cs := fun member => (mem_strip.mp member).2 rfl
  have digits := digits_toDigits two small n
  rw [← spelled, Digits.toLower_iff plain] at digits
  exact ⟨filled, digits.of_strip last⟩

theorem magnitude_of_marked {radix : Nat} {letter : Char} {mark digits : List Char}
    (listed : (letter, radix) ∈ marks) (marked : mark.map Char.toLower = ['0', letter])
    (spelled : (strip digits).map Char.toLower = Nat.toDigits radix n)
    (head : digits.head? ≠ some '_') (last : digits.getLast? ≠ some '_') :
    Magnitude (mark ++ digits) n := by
  obtain ⟨-, two, small⟩ := radix_of_marks listed
  obtain ⟨zero, rest, rfl, same, behind⟩ := List.map_eq_cons_iff.mp marked
  obtain ⟨letter', none, rfl, rfl, nil⟩ := List.map_eq_cons_iff.mp behind
  obtain rfl := List.map_eq_nil_iff.mp nil
  obtain rfl := Text.toLower_eq_zero same
  obtain ⟨filled, counted⟩ := digits_of_spelled two small spelled last
  obtain ⟨c, d, tail, rfl, stands, digits⟩ := counted.first filled head
  exact .marked listed stands digits

theorem magnitude_of_decimal (spelled : (strip cs).map Char.toLower = Nat.toDigits 10 n)
    (head : cs.head? ≠ some '_') (last : cs.getLast? ≠ some '_') : Magnitude cs n := by
  obtain ⟨filled, counted⟩ := digits_of_spelled (by decide) (by decide) spelled last
  obtain ⟨c, d, tail, rfl, stands, rest⟩ := counted.first filled head
  by_cases positive : 0 < d
  · exact .decimal stands positive rest
  · obtain rfl : d = 0 := by omega
    have zero : c.toLower = '0' := stands.2
    rw [strip_cons_of_ne (stands.ne_underscore (by decide)), List.map_cons, zero] at spelled
    obtain rfl : n = 0 := eq_zero_of_toDigits (by decide : 2 ≤ 10) (by rw [← spelled]; rfl)
    have alone : tail = [] := by
      by_contra more
      have some := rest.strip_ne_nil (by decide) more
      exact some (List.map_eq_nil_iff.mp (List.cons.inj spelled).2)
    rw [alone, Text.toLower_eq_zero zero]
    exact .zero

theorem magnitude_of_legacy (spelled : (strip cs).map Char.toLower = '0' :: Nat.toDigits 8 n)
    (head : cs.head? ≠ some '_') (last : cs.getLast? ≠ some '_') : Magnitude cs n := by
  cases cs with
  | nil => cases spelled
  | cons c tail =>
    have other : c ≠ '_' := fun underscore => head (by rw [underscore]; rfl)
    rw [strip_cons_of_ne other, List.map_cons, List.cons.injEq] at spelled
    obtain ⟨zero, spelled⟩ := spelled
    have more : tail ≠ [] := by
      rintro rfl
      exact Nat.toDigits_ne_nil spelled.symm
    rw [List.getLast?_cons_of_ne_nil more] at last
    rw [Text.toLower_eq_zero zero]
    exact .legacy more (digits_of_spelled (by decide) (by decide) spelled last).2

theorem Form.Renders.magnitude {form : Form} (renders : form.Renders cs n) : Magnitude cs n := by
  obtain ⟨marked, spelled, head, last⟩ := renders
  cases form with
  | decimal =>
    obtain rfl := List.map_eq_nil_iff.mp marked
    exact magnitude_of_decimal spelled head last
  | legacy =>
    obtain rfl := List.map_eq_nil_iff.mp marked
    exact magnitude_of_legacy spelled head last
  | octal => exact magnitude_of_marked (by decide) marked spelled head last
  | hexadecimal => exact magnitude_of_marked (by decide) marked spelled head last
  | binary => exact magnitude_of_marked (by decide) marked spelled head last

theorem Literal.unblank {z : Int} (literal : Literal cs z) : ∀ c ∈ cs, Text.isBlank c = false := by
  intro c member
  rcases literal.written c member with sign | rfl | letter
  · simp only [isSign, Bool.or_eq_true, beq_iff_eq] at sign
    rcases sign with rfl | rfl <;> decide
  · decide
  · exact Text.isBlank_of_isAlphanum letter

theorem read_rendered {form : Form} {z : Int} {text before after : List Char}
    (renders : Signed form.Renders text z) (fits : -maximum ≤ z ∧ z ≤ maximum)
    (blank : ∀ c ∈ before ++ after, Text.isBlank c = true) :
    splitSuffix text = (text, 1) ∧ read (String.ofList (before ++ text ++ after)) = .ok z := by
  have literal : Literal text z := renders.imp Form.Renders.magnitude
  have trimmed : Text.trim (String.ofList (before ++ text ++ after)).toList = text := by
    rw [String.toList_ofList, Text.trim_padded blank literal.unblank literal.ne_nil]
  refine ⟨splitSuffix_of_unscaled literal.unscaled, ?_⟩
  rw [← trimmed] at literal
  rw [read_literal literal, if_pos (natAbs_le_iff.mpr fits)]

theorem sample_rendered :
    Signed (Form.Renders .hexadecimal) "-0X1_e".toList (-30) ∧
      splitSuffix "-0X1_e".toList = ("-0X1_e".toList, 1) ∧ read "\t-0X1_e  " = .ok (-30) := by
  have renders : Form.Renders .hexadecimal ("0X".toList ++ "1_e".toList) 30 :=
    .intro (by decide +kernel) (by decide +kernel) (by decide +kernel) (by decide +kernel)
  have blank : ∀ c ∈ ['\t'] ++ [' ', ' '], Text.isBlank c = true :=
    List.all_eq_true.mp (by decide)
  have both := read_rendered (.minus renders) (by decide) blank
  exact ⟨.minus renders, both⟩

end Integer

end Steward
