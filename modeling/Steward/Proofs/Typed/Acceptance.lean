import Steward.Proofs.Typed.Suffixes

set_option autoImplicit false

namespace Steward.Integer

variable {n : Int} {text cs : List Char}

def SignInFront (text : List Char) : Prop := ∀ c ∈ text.tail, isSign c = false

def Follows (front : Nat) (cs : List Char) : Prop :=
  ∀ left right, cs = left ++ '_' :: right → front ≤ (strip left).length ∧ strip right ≠ []

/-- The number of characters in front of the first place for an underscore: the mark of the radix,
if there is one, and a digit. -/
def lead : List Char → Nat
  | '0' :: letter :: _ => if letter.toLower ∈ ['x', 'o', 'b'] then 3 else 1
  | _ => 1

def Separates (text : List Char) : Prop :=
  let body := (Decimal.takeSign text).2
  Follows (lead (strip body)) body

theorem radixOf_eq {radix : Nat} {body : List Char} (found : radixOf cs = (radix, body)) :
    (∃ letter, cs = '0' :: letter :: body ∧ (letter, radix) ∈ marks) ∨
      (radix = 8 ∧ cs = '0' :: body ∧ body ≠ []) ∨
      (radix = 10 ∧ cs = body ∧ (body.head? = some '0' → body = ['0'])) := by
  unfold radixOf at found
  split at found
  · cases found
    exact .inl ⟨'x', rfl, by decide⟩
  · cases found
    exact .inl ⟨'o', rfl, by decide⟩
  · cases found
    exact .inl ⟨'b', rfl, by decide⟩
  · cases found
    exact .inr (.inl ⟨rfl, rfl, by simp⟩)
  · next unmarked =>
    cases found
    refine .inr (.inr ⟨rfl, rfl, fun zero => ?_⟩)
    obtain ⟨tail, rfl⟩ := List.head?_eq_some_iff.mp zero
    cases tail with
    | nil => rfl
    | cons c tail => exact absurd rfl (unmarked c tail)

theorem magnitude_of_read {radix limit k : Nat} {fault : DigitFault} {body : List Char}
    (plain : '_' ∉ cs) (found : radixOf (cs.map Char.toLower) = (radix, body)) (filled : body ≠ [])
    (read : readNat radix limit fault 0 body = .ok k) : Magnitude cs k := by
  have counted {radix : Nat} {ds : List Char} (small : radix ≤ 16)
      (same : ds.map Char.toLower = body) (plain : '_' ∉ ds)
      (read : readNat radix limit fault 0 body = .ok k) :
      ds ≠ [] ∧ Digits radix 0 ds k := by
    subst same
    exact ⟨by simpa using filled, (Digits.toLower_iff plain).mp (digits_of_readNat small read)⟩
  rcases radixOf_eq found with ⟨letter, same, mark⟩ | ⟨rfl, same, -⟩ | ⟨rfl, same, single⟩
  · obtain ⟨zero, rest, rfl, front, behind⟩ := List.map_eq_cons_iff.mp same
    obtain ⟨letter, ds, rfl, rfl, alike⟩ := List.map_eq_cons_iff.mp behind
    simp only [List.mem_cons, not_or] at plain
    obtain ⟨some, digits⟩ := counted (radix_of_marks mark).2.2 alike plain.2.2 read
    obtain ⟨c, d, tail, rfl, stands, rest⟩ := digits.first some (head_ne_underscore plain.2.2)
    rw [Text.toLower_eq_zero front]
    exact .marked mark stands rest
  · obtain ⟨zero, ds, rfl, front, alike⟩ := List.map_eq_cons_iff.mp same
    simp only [List.mem_cons, not_or] at plain
    obtain ⟨some, digits⟩ := counted (by decide) alike plain.2 read
    rw [Text.toLower_eq_zero front]
    exact .legacy some digits
  · obtain ⟨some, digits⟩ := counted (by decide) same plain read
    obtain ⟨c, d, tail, rfl, stands, rest⟩ := digits.first some (head_ne_underscore plain)
    by_cases positive : 0 < d
    · exact .decimal stands positive rest
    · obtain rfl : d = 0 := by omega
      have zero : c.toLower = '0' := stands.2
      subst same
      have alone := single (by simp [zero])
      rw [List.map_cons, List.cons.injEq, List.map_eq_nil_iff] at alone
      obtain ⟨-, rfl⟩ := alone
      cases rest
      rw [Text.toLower_eq_zero zero]
      exact .zero

theorem radixOf_isSuffix {radix : Nat} {body : List Char} (found : radixOf cs = (radix, body)) :
    body <:+ cs := by
  rcases radixOf_eq found with ⟨letter, rfl, -⟩ | ⟨-, rfl, -⟩ | ⟨-, rfl, -⟩
  · exact ⟨['0', letter], rfl⟩
  · exact ⟨['0'], rfl⟩
  · exact List.suffix_refl _

theorem readLiteral_unsigned {negative : Bool} (sign : Decimal.takeSign text = (negative, cs))
    (unsigned : ∀ c ∈ cs, isSign c = false) (read : readLiteral text = .ok n) :
    ∃ k : Nat, Magnitude (strip cs) k ∧ n = if negative then -(k : Int) else k := by
  obtain ⟨⟨radix, body⟩, found⟩ : ∃ r, radixOf ((strip cs).map Char.toLower) = r := ⟨_, rfl⟩
  rw [readLiteral_eq sign found] at read
  have plain : '_' ∉ strip cs := fun member => (mem_strip.mp member).2 rfl
  have front : ∀ c ∈ body.head?, isSign c = false := by
    intro c member
    have inside := (radixOf_isSuffix found).subset (List.mem_of_mem_head? member)
    obtain ⟨c', member', rfl⟩ := List.mem_map.mp inside
    rw [isSign_toLower]
    exact unsigned c' (mem_strip.mp member').1
  split at read
  · cases read
  · next filled =>
    rw [readDigits_of_unsigned front] at read
    cases counted : readNat radix (signedLimit - 1) .tooLarge 0 body with
    | error fault =>
      rw [counted] at read
      cases read
    | ok k =>
      rw [counted] at read
      cases read
      exact ⟨k, magnitude_of_read plain found filled counted, rfl⟩

theorem loose_of_read (front : SignInFront text) (read : readLiteral text = .ok n) :
    Loose text n := by
  cases text with
  | nil => cases read
  | cons c cs =>
    by_cases minus : c = '-'
    · subst minus
      have sign : Decimal.takeSign ('-' :: cs) = (true, cs) := rfl
      obtain ⟨k, magnitude, rfl⟩ := readLiteral_unsigned sign front read
      exact .minus magnitude
    by_cases plus : c = '+'
    · subst plus
      have sign : Decimal.takeSign ('+' :: cs) = (false, cs) := rfl
      obtain ⟨k, magnitude, rfl⟩ := readLiteral_unsigned sign front read
      exact .plus magnitude
    have unsigned : isSign c = false := by
      simp [isSign, minus, plus]
    have sign : Decimal.takeSign (c :: cs) = (false, c :: cs) :=
      takeSign_of_unsigned (by simpa using unsigned)
    obtain ⟨k, magnitude, rfl⟩ :=
      readLiteral_unsigned sign (List.forall_mem_cons.mpr ⟨unsigned, front⟩) read
    exact .bare magnitude

theorem follows_cons {front : Nat} {c : Char} (other : c ≠ '_') :
    Follows (front + 1) (c :: cs) ↔ Follows front cs := by
  constructor
  · intro follows left right same
    have ⟨long, behind⟩ := follows (c :: left) right (by rw [same, List.cons_append])
    rw [strip_cons_of_ne other, List.length_cons] at long
    exact ⟨by omega, behind⟩
  · intro follows left right same
    cases left with
    | nil => exact absurd (List.cons.inj same).1 other
    | cons first left =>
      obtain ⟨rfl, tail⟩ := List.cons.inj same
      have ⟨long, behind⟩ := follows left right tail
      rw [strip_cons_of_ne other, List.length_cons]
      exact ⟨by omega, behind⟩

theorem strip_eq_nil_iff : strip cs = [] ↔ ∀ c ∈ cs, c = '_' := by
  simp [strip, List.filter_eq_nil_iff]

theorem follows_zero_iff : Follows 0 cs ↔ cs.getLast? ≠ some '_' := by
  constructor
  · intro follows last
    obtain ⟨front, rfl⟩ := List.getLast?_eq_some_iff.mp last
    exact (follows front [] rfl).2 rfl
  · rintro last left right rfl
    refine ⟨Nat.zero_le _, fun none => last ?_⟩
    rw [strip_eq_nil_iff] at none
    rw [List.getLast?_append_of_ne_nil _ (by simp)]
    obtain rfl | ⟨right, c, rfl⟩ := List.eq_nil_or_concat' right
    · rfl
    · rw [none c (by simp), ← List.cons_append, List.getLast?_concat]

theorem Follows.first {front : Nat} {c : Char} {ds : List Char} (follows : Follows (front + 1) cs)
    (same : strip cs = c :: ds) :
    ∃ tail, cs = c :: tail ∧ strip tail = ds ∧ Follows front tail := by
  cases cs with
  | nil => cases same
  | cons c' tail =>
    have other : c' ≠ '_' := by
      rintro rfl
      exact absurd (follows [] tail rfl).1 (by simp)
    rw [strip_cons_of_ne other, List.cons.injEq] at same
    obtain ⟨rfl, rest⟩ := same
    exact ⟨tail, rfl, rest, (follows_cons other).mp follows⟩

theorem Follows.eq_nil (follows : Follows 0 cs) (none : strip cs = []) : cs = [] := by
  cases cs with
  | nil => rfl
  | cons c tail =>
    obtain rfl := strip_eq_nil_iff.mp none c List.mem_cons_self
    exact absurd none (follows [] tail rfl).2

theorem lead_of_ne {c : Char} (other : c ≠ '0') : lead (c :: cs) = 1 := by
  unfold lead
  split
  · next same => exact absurd (List.cons.inj same).1 other
  · rfl

theorem lead_legacy {radix d : Nat} {c : Char} (stands : Stands radix c d) (octal : radix ≤ 8) :
    lead ('0' :: c :: cs) = 1 := by
  rw [lead, if_neg (stands.not_mark octal)]

theorem lead_marked {radix : Nat} {letter : Char} (mark : (letter.toLower, radix) ∈ marks) :
    lead ('0' :: letter :: cs) = 3 := by
  rw [lead, if_pos (radix_of_marks mark).1]

theorem Stands.ne_zero {d : Nat} {c : Char} (stands : Stands 10 c d) (positive : 0 < d) :
    c ≠ '0' := by
  rintro rfl
  have zero := Nat.zero_eq_digitChar.mp stands.2
  omega

theorem Digits.follows {radix acc k : Nat} (digits : Digits radix acc cs k) (small : radix ≤ 16) :
    Follows 0 cs := by
  rw [follows_zero_iff]
  intro last
  have some : cs ≠ [] := by
    rintro rfl
    cases last
  obtain ⟨front, c, d, rfl, stands⟩ := digits.last some
  rw [List.getLast?_concat, Option.some.injEq] at last
  exact stands.ne_underscore small last

theorem Magnitude.follows {k : Nat} (magnitude : Magnitude cs k) :
    Follows (lead (Integer.strip cs)) cs := by
  cases magnitude with
  | zero => exact (follows_cons (by decide)).mpr (follows_zero_iff.mpr (by simp))
  | decimal first positive rest =>
    have other := first.ne_underscore (by decide)
    rw [strip_cons_of_ne other, lead_of_ne (first.ne_zero positive), follows_cons other]
    exact rest.follows (by decide)
  | legacy more rest =>
    obtain ⟨c, d, tail, same, stands⟩ := rest.strip_first (by decide) more
    rw [strip_cons_of_ne (by decide), same, lead_legacy stands (by decide),
      follows_cons (by decide)]
    exact rest.follows (by decide)
  | marked mark first rest =>
    obtain ⟨-, -, small⟩ := radix_of_marks mark
    have letter := ne_underscore_of_mark mark
    rw [strip_cons_of_ne (by decide), strip_cons_of_ne letter, lead_marked mark,
      follows_cons (by decide), follows_cons letter, follows_cons (first.ne_underscore small)]
    exact rest.follows small

theorem magnitude_of_strip {k : Nat} (magnitude : Magnitude (strip cs) k)
    (follows : Follows (lead (strip cs)) cs) : Magnitude cs k := by
  generalize same : strip cs = plain at magnitude follows
  cases magnitude with
  | zero =>
    obtain ⟨tail, rfl, none, behind⟩ := follows.first same
    rw [behind.eq_nil none]
    exact .zero
  | decimal first positive rest =>
    rw [lead_of_ne (first.ne_zero positive)] at follows
    obtain ⟨tail, rfl, rfl, behind⟩ := follows.first same
    exact .decimal first positive (rest.of_strip (follows_zero_iff.mp behind))
  | @legacy k ds more rest =>
    obtain ⟨c, d, digits, first, stands⟩ := rest.strip_first (by decide) more
    have alone : strip ds = ds := by
      have whole := congrArg strip same
      rw [strip_strip, same, strip_cons_of_ne (by decide), List.cons.injEq] at whole
      exact whole.2.symm
    rw [← alone, first, lead_legacy stands (by decide)] at follows
    obtain ⟨tail, rfl, rfl, behind⟩ := follows.first same
    refine .legacy ?_ (rest.of_strip (follows_zero_iff.mp behind))
    rintro rfl
    exact more rfl
  | marked mark first rest =>
    rw [lead_marked mark] at follows
    obtain ⟨tail, rfl, same, behind⟩ := follows.first same
    obtain ⟨tail, rfl, same, behind⟩ := behind.first same
    obtain ⟨tail, rfl, rfl, behind⟩ := behind.first same
    exact .marked mark first (rest.of_strip (follows_zero_iff.mp behind))

theorem literal_iff : Literal text n ↔ Loose text n ∧ Separates text := by
  constructor
  · intro literal
    refine ⟨literal.loose, ?_⟩
    cases literal with
    | bare magnitude =>
      rw [Separates, magnitude.strip.takeSign]
      exact magnitude.follows
    | plus magnitude => exact magnitude.follows
    | minus magnitude => exact magnitude.follows
  · rintro ⟨loose, separates⟩
    cases loose with
    | bare magnitude =>
      rw [Separates, magnitude.takeSign] at separates
      exact .bare (magnitude_of_strip magnitude separates)
    | plus magnitude => exact .plus (magnitude_of_strip magnitude separates)
    | minus magnitude => exact .minus (magnitude_of_strip magnitude separates)

theorem read_unscaled {s : String} (unscaled : ¬ Scaled (Text.trim s.toList)) (n : Int) :
    let text := Text.trim s.toList
    (SignInFront text →
        (read s = .ok n ↔ Loose text n ∧ -maximum ≤ n ∧ n ≤ maximum)) ∧
      (read s = .ok n →
        (Loose text n ↔ SignInFront text) ∧
          (Literal text n ↔ SignInFront text ∧ Separates text)) := by
  intro text
  have taken : read s = .ok n ↔ readLiteral text = .ok n := by
    rw [read_of_unscaled unscaled]
    split
    · next none =>
      have empty : readLiteral text = .error (.noDigits "") := by
        rw [show text = [] from none]
        rfl
      simp [empty]
    · rfl
  rw [taken]
  refine ⟨fun front => ⟨fun done => ?_, fun ⟨loose, within⟩ => ?_⟩, fun done => ?_⟩
  · have loose := loose_of_read front done
    rw [readLiteral_loose loose] at done
    split at done
    · next within => exact ⟨loose, natAbs_le_iff.mp within⟩
    · cases done
  · rw [readLiteral_loose loose, if_pos (natAbs_le_iff.mpr within)]
  · have alike : Loose text n ↔ SignInFront text :=
      ⟨fun loose => loose.isSign, fun front => loose_of_read front done⟩
    exact ⟨alike, by rw [literal_iff, alike]⟩

def spacedText : String := " -0x1_F_ "

theorem sample_unscaled :
    let text := Text.trim spacedText.toList
    ¬ Scaled text ∧ read spacedText = .ok (-31) ∧ Loose text (-31) ∧ ¬ Literal text (-31) := by
  intro text
  have spelled : text = "-0x1_F_".toList := by decide +kernel
  have unscaled : ¬ Scaled text := unscaled_iff.mpr (by decide +kernel)
  have taken : read spacedText = .ok (-31) := by decide +kernel
  have front : SignInFront text := by
    have plain : ("-0x1_F_".toList.tail.all fun c => !isSign c) = true := by decide +kernel
    rw [SignInFront, spelled]
    simpa using plain
  have both := read_unscaled unscaled (-31)
  refine ⟨unscaled, taken, ((both.1 front).mp taken).1, fun literal => ?_⟩
  have separates := ((both.2 taken).2.mp literal).2
  exact (separates "0x1_F".toList [] (by decide +kernel)).2 rfl

theorem second_sign_taken :
    let text := "--5".toList
    ¬ Scaled text ∧ read "--5" = .ok 5 ∧ ∀ n, ¬ Loose text n := by
  intro text
  refine ⟨unscaled_iff.mpr (by decide +kernel), by decide +kernel, fun n loose => ?_⟩
  have front := loose.isSign '-' (by decide +kernel)
  cases front

end Steward.Integer
