import Mathlib.Data.Nat.Basic
import Steward.Typed.Integer

set_option autoImplicit false

namespace Steward

namespace Text

theorem toNat_toLower (c : Char) :
    c.toLower.toNat = if 65 ≤ c.toNat ∧ c.toNat ≤ 90 then c.toNat + 32 else c.toNat := by
  have bounds : (c.val ≥ 'A'.val ∧ c.val ≤ 'Z'.val) ↔ (65 ≤ c.toNat ∧ c.toNat ≤ 90) := Iff.rfl
  unfold Char.toLower
  by_cases capital : c.val ≥ 'A'.val ∧ c.val ≤ 'Z'.val
  · have within := bounds.mp capital
    rw [dif_pos capital, if_pos within]
    change (c.val + 32).toNat = _
    rw [UInt32.toNat_add]
    change (c.toNat + 32) % 2 ^ 32 = c.toNat + 32
    omega
  · rw [dif_neg capital, if_neg (mt bounds.mpr capital)]

theorem toLower_eq_iff {c d : Char} (other : d.toNat < 65 ∨ d.toNat = 95) :
    c.toLower = d ↔ c = d := by
  have lower := toNat_toLower c
  rw [← Char.toNat_inj, ← Char.toNat_inj, lower]
  split <;> omega

theorem toLower_eq_zero {c : Char} (same : c.toLower = '0') : c = '0' :=
  (toLower_eq_iff (.inl (by decide))).mp same

theorem isDigit_iff (c : Char) : c.isDigit = true ↔ 48 ≤ c.toNat ∧ c.toNat ≤ 57 := by
  change (decide _ && decide _) = true ↔ _
  rw [Bool.and_eq_true, decide_eq_true_iff, decide_eq_true_iff]
  rfl

theorem isAlphanum_iff (c : Char) : c.isAlphanum = true ↔
    48 ≤ c.toNat ∧ c.toNat ≤ 57 ∨ 65 ≤ c.toNat ∧ c.toNat ≤ 90 ∨ 97 ≤ c.toNat ∧ c.toNat ≤ 122 := by
  have isUpper : c.isUpper = true ↔ 65 ≤ c.toNat ∧ c.toNat ≤ 90 := decide_eq_true_iff
  have isLower : c.isLower = true ↔ 97 ≤ c.toNat ∧ c.toNat ≤ 122 := by
    change (decide _ && decide _) = true ↔ _
    rw [Bool.and_eq_true, decide_eq_true_iff, decide_eq_true_iff]
    rfl
  change ((c.isUpper || c.isLower) || c.isDigit) = true ↔ _
  rw [Bool.or_eq_true, Bool.or_eq_true, isUpper, isLower, isDigit_iff]
  omega

theorem isAlphanum_toLower (c : Char) : c.toLower.isAlphanum = c.isAlphanum := by
  rw [Bool.eq_iff_iff, isAlphanum_iff, isAlphanum_iff, toNat_toLower]
  split <;> omega

theorem toLower_toLower (c : Char) : c.toLower.toLower = c.toLower := by
  rw [← Char.toNat_inj, toNat_toLower c.toLower, toNat_toLower c]
  by_cases capital : 65 ≤ c.toNat ∧ c.toNat ≤ 90
  · rw [if_pos capital, if_neg (by omega)]
  · rw [if_neg capital, if_neg capital]

end Text

namespace Integer

def isSign (c : Char) : Bool := c == '+' || c == '-'

def strip (cs : List Char) : List Char := cs.filter (· != '_')

def Stands (radix : Nat) (c : Char) (d : Nat) : Prop := d < radix ∧ c.toLower = d.digitChar

instance (radix : Nat) (c : Char) (d : Nat) : Decidable (Stands radix c d) :=
  inferInstanceAs (Decidable (_ ∧ _))

inductive Digits (radix : Nat) : Nat → List Char → Nat → Prop
  | done {acc : Nat} : Digits radix acc [] acc
  | gap {acc n : Nat} {cs : List Char} (more : cs ≠ []) (rest : Digits radix acc cs n) :
      Digits radix acc ('_' :: cs) n
  | digit {acc d n : Nat} {c : Char} {cs : List Char} (stands : Stands radix c d)
      (rest : Digits radix (acc * radix + d) cs n) : Digits radix acc (c :: cs) n

def marks : List (Char × Nat) := [('x', 16), ('o', 8), ('b', 2)]

/-- A literal without sign: zero, a decimal one, an octal one by its leading zero, or one with a
mark of its radix. -/
inductive Magnitude : List Char → Nat → Prop
  | zero : Magnitude ['0'] 0
  | decimal {c : Char} {d n : Nat} {cs : List Char} (first : Stands 10 c d) (positive : 0 < d)
      (rest : Digits 10 d cs n) : Magnitude (c :: cs) n
  | legacy {n : Nat} {cs : List Char} (more : cs ≠ []) (rest : Digits 8 0 cs n) :
      Magnitude ('0' :: cs) n
  | marked {letter c : Char} {radix d n : Nat} {cs : List Char}
      (mark : (letter.toLower, radix) ∈ marks) (first : Stands radix c d)
      (rest : Digits radix d cs n) : Magnitude ('0' :: letter :: c :: cs) n

inductive Signed (written : List Char → Nat → Prop) : List Char → Int → Prop
  | bare {cs : List Char} {n : Nat} (magnitude : written cs n) : Signed written cs n
  | plus {cs : List Char} {n : Nat} (magnitude : written cs n) : Signed written ('+' :: cs) n
  | minus {cs : List Char} {n : Nat} (magnitude : written cs n) : Signed written ('-' :: cs) (-n)

def Literal : List Char → Int → Prop := Signed Magnitude

def Loose : List Char → Int → Prop := Signed fun cs => Magnitude (strip cs)

section Characters

variable {radix d : Nat} {c : Char} {cs : List Char}

theorem toNat_digitChar (small : d < 16) :
    d.digitChar.toNat = if d < 10 then 48 + d else 87 + d := by
  revert d
  decide

theorem digit?_eq_some_iff (small : radix ≤ 16) : digit? radix c = some d ↔ Stands radix c d := by
  have lower := Text.toNat_toLower c
  have same (within : d < radix) :
      c.toLower = d.digitChar ↔ c.toLower.toNat = if d < 10 then 48 + d else 87 + d := by
    rw [← toNat_digitChar (by omega), Char.toNat_inj]
  have isSmall : ('a' ≤ c ∧ c ≤ 'z') ↔ 97 ≤ c.toNat ∧ c.toNat ≤ 122 := Iff.rfl
  have isCapital : ('A' ≤ c ∧ c ≤ 'Z') ↔ 65 ≤ c.toNat ∧ c.toNat ≤ 90 := Iff.rfl
  unfold digit? Stands
  simp only [Bool.and_eq_true, decide_eq_true_eq, Text.isDigit_iff, isSmall, isCapital]
  grind

theorem stands_toLower : Stands radix c.toLower d ↔ Stands radix c d := by
  rw [Stands, Text.toLower_toLower, Stands]

theorem isAlphanum_digitChar (small : d < 16) : d.digitChar.isAlphanum = true := by
  revert d
  decide

theorem Stands.isAlphanum (stands : Stands radix c d) (small : radix ≤ 16) :
    c.isAlphanum = true := by
  have within := stands.1
  rw [← Text.isAlphanum_toLower, stands.2, isAlphanum_digitChar (by omega)]

theorem Stands.ne_underscore (stands : Stands radix c d) (small : radix ≤ 16) : c ≠ '_' := by
  have filled := stands.isAlphanum small
  rintro rfl
  cases filled

theorem isSign_toLower : isSign c.toLower = isSign c := by
  have plus := Text.toLower_eq_iff (c := c) (d := '+') (.inl (by decide))
  have minus := Text.toLower_eq_iff (c := c) (d := '-') (.inl (by decide))
  simp [isSign, Bool.beq_eq_decide_eq, plus, minus]

theorem radix_of_marks {letter : Char} (mark : (letter, radix) ∈ marks) :
    letter ∈ ['x', 'o', 'b'] ∧ 2 ≤ radix ∧ radix ≤ 16 := by
  simp only [marks, List.mem_cons, Prod.mk.injEq, List.not_mem_nil, or_false] at mark
  rcases mark with ⟨rfl, rfl⟩ | ⟨rfl, rfl⟩ | ⟨rfl, rfl⟩ <;> decide

theorem Stands.not_mark (stands : Stands radix c d) (octal : radix ≤ 8) :
    c.toLower ∉ ['x', 'o', 'b'] := by
  have table : ∀ d < 8, d.digitChar ∉ ['x', 'o', 'b'] := by decide
  have within := stands.1
  rw [stands.2]
  exact table d (by omega)

theorem isSign_of_written (written : c = '_' ∨ c.isAlphanum = true) : isSign c = false := by
  rcases written with rfl | letter
  · rfl
  · rw [Bool.eq_false_iff]
    intro sign
    simp only [isSign, Bool.or_eq_true, beq_iff_eq] at sign
    rcases sign with rfl | rfl <;> cases letter

theorem isAlphanum_of_mark {letter : Char} (mark : (letter.toLower, radix) ∈ marks) :
    letter.isAlphanum = true := by
  have member := (radix_of_marks mark).1
  rw [← Text.isAlphanum_toLower]
  revert member
  generalize letter.toLower = lower
  simp only [List.mem_cons, List.not_mem_nil, or_false]
  rintro (rfl | rfl | rfl) <;> decide

theorem ne_underscore_of_mark {letter : Char} (mark : (letter.toLower, radix) ∈ marks) :
    letter ≠ '_' := by
  have filled := isAlphanum_of_mark mark
  rintro rfl
  cases filled

@[simp] theorem strip_nil : strip [] = [] := rfl

theorem strip_cons_of_ne (other : c ≠ '_') : strip (c :: cs) = c :: strip cs := by
  simp [strip, other]

theorem strip_strip (cs : List Char) : strip (strip cs) = strip cs := by
  simp [strip]

theorem head_ne_underscore (plain : '_' ∉ cs) : cs.head? ≠ some '_' := fun head =>
  plain (List.mem_of_mem_head? head)

theorem mem_strip : c ∈ strip cs ↔ c ∈ cs ∧ c ≠ '_' := by
  simp [strip]

end Characters

namespace Digits

variable {radix acc n : Nat} {cs ds : List Char}

theorem le (digits : Digits radix acc cs n) (positive : 0 < radix) : acc ≤ n := by
  induction digits with
  | done => exact Nat.le_refl _
  | gap _ _ ih => exact ih
  | @digit acc d n c cs _ _ ih =>
    have grown := Nat.le_mul_of_pos_right acc positive
    omega

theorem strip (digits : Digits radix acc cs n) (small : radix ≤ 16) :
    Digits radix acc (strip cs) n := by
  induction digits with
  | done => exact .done
  | gap _ _ ih => exact ih
  | digit stands _ ih =>
    rw [strip_cons_of_ne (stands.ne_underscore small)]
    exact .digit stands ih

theorem append {m : Nat} (digits : Digits radix acc cs n) (more : Digits radix n ds m) :
    Digits radix acc (cs ++ ds) m := by
  induction digits with
  | done => exact more
  | gap some _ ih => exact .gap (by simp [some]) (ih more)
  | digit stands _ ih => exact .digit stands (ih more)

theorem isAlphanum (digits : Digits radix acc cs n) (small : radix ≤ 16) :
    ∀ c ∈ cs, c = '_' ∨ c.isAlphanum = true := by
  induction digits with
  | done => simp
  | gap _ _ ih => exact List.forall_mem_cons.mpr ⟨.inl rfl, ih⟩
  | digit stands _ ih => exact List.forall_mem_cons.mpr ⟨.inr (stands.isAlphanum small), ih⟩

theorem last (digits : Digits radix acc cs n) (some : cs ≠ []) :
    ∃ front c d, cs = front ++ [c] ∧ Stands radix c d := by
  induction digits with
  | done => exact absurd rfl some
  | gap more _ ih =>
    obtain ⟨front, c, d, rfl, stands⟩ := ih more
    exact ⟨'_' :: front, c, d, rfl, stands⟩
  | @digit acc d n c cs stands _ ih =>
    by_cases more : cs = []
    · exact ⟨[], c, d, by simp [more], stands⟩
    · obtain ⟨front, c', d', rfl, stands'⟩ := ih more
      exact ⟨c :: front, c', d', rfl, stands'⟩

theorem strip_first (digits : Digits radix acc cs n) (small : radix ≤ 16) (some : cs ≠ []) :
    ∃ c d tail, Integer.strip cs = c :: tail ∧ Stands radix c d := by
  induction digits with
  | done => exact absurd rfl some
  | gap more _ ih => exact ih more
  | @digit acc d n c cs stands _ _ =>
    exact ⟨c, d, Integer.strip cs, strip_cons_of_ne (stands.ne_underscore small), stands⟩

theorem first (digits : Digits radix 0 cs n) (filled : cs ≠ []) (head : cs.head? ≠ some '_') :
    ∃ c d tail, cs = c :: tail ∧ Stands radix c d ∧ Digits radix d tail n := by
  cases digits with
  | done => exact absurd rfl filled
  | gap => exact absurd rfl head
  | @digit _ d _ c tail stands rest => exact ⟨c, d, tail, rfl, stands, by simpa using rest⟩

theorem strip_ne_nil (digits : Digits radix acc cs n) (small : radix ≤ 16) (some : cs ≠ []) :
    Integer.strip cs ≠ [] := by
  obtain ⟨c, d, tail, same, -⟩ := digits.strip_first small some
  simp [same]

theorem of_strip (digits : Digits radix acc (Integer.strip cs) n) (last : cs.getLast? ≠ some '_') :
    Digits radix acc cs n := by
  induction cs generalizing acc with
  | nil => exact digits
  | cons c cs ih =>
    have behind : cs ≠ [] → cs.getLast? ≠ some '_' := by
      intro more
      rwa [List.getLast?_cons_of_ne_nil more] at last
    have rest {acc : Nat} (digits : Digits radix acc (Integer.strip cs) n) :
        Digits radix acc cs n := by
      by_cases more : cs = []
      · rwa [more] at digits ⊢
      · exact ih digits (behind more)
    by_cases underscore : c = '_'
    · subst underscore
      have more : cs ≠ [] := by
        rintro rfl
        exact last rfl
      exact .gap more (rest digits)
    · rw [strip_cons_of_ne underscore] at digits
      cases digits with
      | gap => exact absurd rfl underscore
      | digit stands tail => exact .digit stands (rest tail)

theorem toLower_iff (plain : '_' ∉ cs) :
    Digits radix acc (cs.map Char.toLower) n ↔ Digits radix acc cs n := by
  induction cs generalizing acc with
  | nil => rfl
  | cons c cs ih =>
    simp only [List.mem_cons, not_or] at plain
    have apart := plain.1
    constructor
    · intro digits
      generalize same : (c :: cs).map Char.toLower = lower at digits
      cases digits with
      | done => cases same
      | gap =>
        rw [List.map_cons, List.cons.injEq] at same
        have := (Text.toLower_eq_iff (.inr rfl)).mp same.1
        exact absurd this.symm apart
      | digit stands rest =>
        rw [List.map_cons, List.cons.injEq] at same
        obtain ⟨rfl, rfl⟩ := same
        exact .digit (stands_toLower.mp stands) ((ih plain.2).mp rest)
    · intro digits
      cases digits with
      | gap => exact absurd rfl apart
      | digit stands rest =>
        exact .digit (stands_toLower.mpr stands) ((ih plain.2).mpr rest)

end Digits

section Reading

variable {radix limit acc n : Nat} {fault : DigitFault} {cs : List Char}

theorem readNat_digits (digits : Digits radix acc cs n) (two : 2 ≤ radix) (small : radix ≤ 16)
    (within : acc ≤ limit) :
    readNat radix limit fault acc ((strip cs).map Char.toLower) =
      if n ≤ limit then .ok n else .error fault := by
  induction digits with
  | done => rw [if_pos within]; rfl
  | gap _ _ ih => exact ih within
  | @digit acc d n c cs stands rest ih =>
    have read : digit? radix c.toLower = some d :=
      (digit?_eq_some_iff small).mpr (stands_toLower.mpr stands)
    rw [strip_cons_of_ne (stands.ne_underscore small), List.map_cons, readNat, read]
    dsimp only
    by_cases fits : acc * radix + d ≤ limit
    · rw [if_pos fits, ih fits]
    · have beyond := rest.le (by omega)
      rw [if_neg fits, if_neg (by omega)]

theorem digits_of_readNat (small : radix ≤ 16)
    (read : readNat radix limit fault acc cs = .ok n) : Digits radix acc cs n := by
  induction cs generalizing acc with
  | nil =>
    cases read
    exact .done
  | cons c cs ih =>
    rw [readNat] at read
    split at read
    · cases read
    · next d found =>
      split at read
      · exact .digit ((digit?_eq_some_iff small).mp found) (ih read)
      · cases read

theorem readDigits_of_unsigned (unsigned : ∀ c ∈ cs.head?, isSign c = false) :
    readDigits radix cs = (readNat radix (signedLimit - 1) .tooLarge 0 cs).map Int.ofNat := by
  unfold readDigits
  split
  · simp [isSign] at unsigned
  · simp [isSign] at unsigned
  · simp [isSign] at unsigned
  · simp [isSign] at unsigned
  · rfl

theorem takeSign_of_unsigned (unsigned : ∀ c ∈ cs.head?, isSign c = false) :
    Decimal.takeSign cs = (false, cs) := by
  unfold Decimal.takeSign
  split
  · simp [isSign] at unsigned
  · simp [isSign] at unsigned
  · rfl

theorem radixOf_of_ne {c : Char} (other : c ≠ '0') : radixOf (c :: cs) = (10, c :: cs) := by
  unfold radixOf
  split <;> simp_all

theorem radixOf_legacy {c : Char} (other : c ∉ ['x', 'o', 'b']) :
    radixOf ('0' :: c :: cs) = (8, c :: cs) := by
  unfold radixOf
  split <;> simp_all

theorem radixOf_marked {letter : Char} (mark : (letter, radix) ∈ marks) :
    radixOf ('0' :: letter :: cs) = (radix, cs) := by
  simp only [marks, List.mem_cons, Prod.mk.injEq, List.not_mem_nil, or_false] at mark
  rcases mark with ⟨rfl, rfl⟩ | ⟨rfl, rfl⟩ | ⟨rfl, rfl⟩ <;> rfl

end Reading

inductive Front : Nat → List Char → Prop
  | decimal : Front 10 []
  | legacy : Front 8 ['0']
  | marked {letter : Char} {radix : Nat} (mark : (letter.toLower, radix) ∈ marks) :
      Front radix ['0', letter]

theorem Front.radix {radix : Nat} {front : List Char} (said : Front radix front) :
    2 ≤ radix ∧ radix ≤ 16 := by
  cases said with
  | decimal => decide
  | legacy => decide
  | marked mark => exact (radix_of_marks mark).2

namespace Magnitude

variable {n : Nat} {cs : List Char}

theorem parts (magnitude : Magnitude cs n) :
    ∃ radix front ds, Front radix front ∧ cs = front ++ ds ∧ ds ≠ [] ∧ Digits radix 0 ds n := by
  cases magnitude with
  | zero => exact ⟨10, [], ['0'], .decimal, rfl, by simp, .digit (d := 0) (by decide) .done⟩
  | @decimal c d n cs first positive rest =>
    exact ⟨10, [], c :: cs, .decimal, rfl, by simp, .digit first (by simpa using rest)⟩
  | @legacy n cs more rest => exact ⟨8, ['0'], cs, .legacy, rfl, more, rest⟩
  | @marked letter c radix d n cs mark first rest =>
    exact ⟨radix, ['0', letter], c :: cs, .marked mark, rfl, by simp,
      .digit first (by simpa using rest)⟩

theorem isAlphanum (magnitude : Magnitude cs n) : ∀ c ∈ cs, c = '_' ∨ c.isAlphanum = true := by
  obtain ⟨radix, front, ds, said, rfl, -, digits⟩ := magnitude.parts
  intro c member
  rcases List.mem_append.mp member with inFront | inDigits
  · cases said with
    | decimal => cases inFront
    | legacy =>
      rw [List.mem_singleton.mp inFront]
      exact .inr (by decide)
    | @marked letter radix mark =>
      simp only [List.mem_cons, List.not_mem_nil, or_false] at inFront
      rcases inFront with rfl | rfl
      · exact .inr (by decide)
      · exact .inr (isAlphanum_of_mark mark)
  · exact digits.isAlphanum said.radix.2 c inDigits

theorem isSign (magnitude : Magnitude cs n) : ∀ c ∈ cs, Integer.isSign c = false := fun c member =>
  isSign_of_written (magnitude.isAlphanum c member)

theorem unsigned_of_strip (magnitude : Magnitude (Integer.strip cs) n) :
    ∀ c ∈ cs, Integer.isSign c = false := by
  intro c member
  by_cases underscore : c = '_'
  · exact isSign_of_written (.inl underscore)
  · exact magnitude.isSign c (mem_strip.mpr ⟨member, underscore⟩)

theorem takeSign (magnitude : Magnitude (Integer.strip cs) n) :
    Decimal.takeSign cs = (false, cs) :=
  takeSign_of_unsigned fun c member =>
    magnitude.unsigned_of_strip c (List.mem_of_mem_head? member)

theorem strip (magnitude : Magnitude cs n) : Magnitude (Integer.strip cs) n := by
  cases magnitude with
  | zero => exact .zero
  | decimal first positive rest =>
    rw [strip_cons_of_ne (first.ne_underscore (by decide))]
    exact .decimal first positive (rest.strip (by decide))
  | legacy more rest =>
    rw [strip_cons_of_ne (by decide)]
    exact .legacy (rest.strip_ne_nil (by decide) more) (rest.strip (by decide))
  | marked mark first rest =>
    obtain ⟨-, -, small⟩ := radix_of_marks mark
    rw [strip_cons_of_ne (by decide), strip_cons_of_ne (ne_underscore_of_mark mark),
      strip_cons_of_ne (first.ne_underscore small)]
    exact .marked mark first (rest.strip small)

theorem radixOf (magnitude : Magnitude cs n) : ∃ radix ds,
    Integer.radixOf ((Integer.strip cs).map Char.toLower) =
        (radix, (Integer.strip ds).map Char.toLower) ∧
      ds ≠ [] ∧ Digits radix 0 ds n ∧ 2 ≤ radix ∧ radix ≤ 16 := by
  cases magnitude with
  | zero => exact ⟨10, ['0'], rfl, by simp, .digit (d := 0) (by decide) .done, by decide, by decide⟩
  | @decimal c d n cs first positive rest =>
    refine ⟨10, c :: cs, ?_, by simp, .digit first (by simpa using rest), by decide, by decide⟩
    have other : c.toLower ≠ '0' := by
      rw [first.2]
      simp [Nat.pos_iff_ne_zero.mp positive]
    rw [strip_cons_of_ne (first.ne_underscore (by decide)), List.map_cons, radixOf_of_ne other]
  | @legacy n cs more rest =>
    refine ⟨8, cs, ?_, more, rest, by decide, by decide⟩
    obtain ⟨c, d, tail, same, stands⟩ := rest.strip_first (by decide) more
    rw [strip_cons_of_ne (by decide), same]
    exact radixOf_legacy (stands.not_mark (by decide))
  | @marked letter c radix d n cs mark first rest =>
    obtain ⟨-, two, small⟩ := radix_of_marks mark
    refine ⟨radix, c :: cs, ?_, by simp, .digit first (by simpa using rest), two, small⟩
    rw [strip_cons_of_ne (by decide), strip_cons_of_ne (ne_underscore_of_mark mark)]
    exact radixOf_marked mark

end Magnitude

section Literals

variable {n : Int} {text : List Char}

theorem Signed.parts {written : List Char → Nat → Prop} (signed : Signed written text n) :
    ∃ sign body k, text = sign ++ body ∧ (∀ c ∈ sign, isSign c = true) ∧ written body k ∧
      n.natAbs = k := by
  cases signed with
  | @bare cs k magnitude => exact ⟨[], text, k, rfl, by simp, magnitude, rfl⟩
  | @plus cs k magnitude => exact ⟨['+'], cs, k, rfl, by simp [isSign], magnitude, rfl⟩
  | @minus cs k magnitude =>
    exact ⟨['-'], cs, k, rfl, by simp [isSign], magnitude, Int.natAbs_neg k⟩

theorem Signed.imp {one other : List Char → Nat → Prop} (signed : Signed one text n)
    (implied : ∀ {cs k}, one cs k → other cs k) : Signed other text n := by
  cases signed with
  | bare magnitude => exact .bare (implied magnitude)
  | plus magnitude => exact .plus (implied magnitude)
  | minus magnitude => exact .minus (implied magnitude)

theorem Literal.loose (literal : Literal text n) : Loose text n := literal.imp Magnitude.strip

theorem Literal.ne_nil (literal : Literal text n) : text ≠ [] := by
  obtain ⟨sign, body, k, rfl, -, magnitude, -⟩ := literal.parts
  cases magnitude <;> simp

theorem Literal.written (literal : Literal text n) :
    ∀ c ∈ text, isSign c = true ∨ c = '_' ∨ c.isAlphanum = true := by
  obtain ⟨sign, body, k, rfl, signs, magnitude, -⟩ := literal.parts
  intro c member
  rcases List.mem_append.mp member with inSign | inBody
  · exact .inl (signs c inSign)
  · exact .inr (magnitude.isAlphanum c inBody)

theorem readLiteral_eq {negative : Bool} {radix : Nat} {digits body : List Char}
    (sign : Decimal.takeSign text = (negative, digits))
    (found : radixOf ((strip digits).map Char.toLower) = (radix, body)) :
    readLiteral text =
      if body = [] then .error (.noDigits (String.ofList text))
      else
        match readDigits radix body with
        | .ok k => .ok (if negative then -k else k)
        | .error cause => .error (.digits (String.ofList text) cause) := by
  rw [strip] at found
  unfold readLiteral
  rw [sign]
  dsimp only
  rw [found]
  dsimp only
  cases body <;> rfl

theorem readLiteral_magnitude {cs : List Char} {k : Nat} {negative : Bool}
    (sign : Decimal.takeSign text = (negative, cs)) (magnitude : Magnitude (strip cs) k) :
    readLiteral text =
      if k ≤ signedLimit - 1 then .ok (if negative then -k else k)
      else .error (.digits (String.ofList text) .tooLarge) := by
  obtain ⟨radix, ds, found, some, digits, two, small⟩ := magnitude.radixOf
  rw [strip_strip] at found
  have filled : (strip ds).map Char.toLower ≠ [] := by
    simpa using digits.strip_ne_nil small some
  have unsigned : ∀ c ∈ ((strip ds).map Char.toLower).head?, isSign c = false := by
    intro c member
    obtain ⟨c', inside, rfl⟩ := List.mem_map.mp (List.mem_of_mem_head? member)
    rw [isSign_toLower]
    exact isSign_of_written (digits.isAlphanum small c' (mem_strip.mp inside).1)
  rw [readLiteral_eq sign found, if_neg filled, readDigits_of_unsigned unsigned,
    readNat_digits digits two small (Nat.zero_le _)]
  by_cases fits : k ≤ signedLimit - 1
  · rw [if_pos fits, if_pos fits]
    rfl
  · rw [if_neg fits, if_neg fits]
    rfl

theorem Loose.isSign (loose : Loose text n) : ∀ c ∈ text.tail, Integer.isSign c = false := by
  cases loose with
  | bare magnitude =>
    exact fun c member => magnitude.unsigned_of_strip c (List.mem_of_mem_tail member)
  | plus magnitude => exact magnitude.unsigned_of_strip
  | minus magnitude => exact magnitude.unsigned_of_strip

theorem readLiteral_loose (loose : Loose text n) :
    readLiteral text =
      if n.natAbs ≤ signedLimit - 1 then .ok n
      else .error (.digits (String.ofList text) .tooLarge) := by
  cases loose with
  | bare magnitude =>
    rw [readLiteral_magnitude magnitude.takeSign magnitude]
    simp
  | @plus cs k magnitude =>
    have sign : Decimal.takeSign ('+' :: cs) = (false, cs) := rfl
    rw [readLiteral_magnitude sign magnitude]
    simp
  | @minus cs k magnitude =>
    have sign : Decimal.takeSign ('-' :: cs) = (true, cs) := rfl
    rw [readLiteral_magnitude sign magnitude]
    simp

theorem natAbs_le_iff : n.natAbs ≤ signedLimit - 1 ↔ -maximum ≤ n ∧ n ≤ maximum := by
  rw [maximum, Int.ofNat_eq_natCast]
  omega

end Literals

end Integer

end Steward
