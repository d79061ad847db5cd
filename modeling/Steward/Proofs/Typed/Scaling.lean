import Steward.Proofs.Number.Rounding
import Steward.Proofs.Typed.Acceptance
import Steward.Typed.Coerce

set_option autoImplicit false

namespace Steward

open Binary64 (nearest Short signed whole)

namespace Integer

variable {s : String} {suffix : String × Nat} {text head letters : List Char} {n w : Int} {k : Nat}

theorem minimum_eq : minimum = -(signedLimit : Int) := by decide +kernel

theorem maximum_eq : maximum = (signedLimit : Int) - 1 := by decide +kernel

theorem signedLimit_even : 0 < signedLimit ∧ signedLimit % 2 = 0 := by decide +kernel

theorem suffixes_factor (listed : suffix ∈ suffixes) :
    0 < suffix.2 ∧ suffix.2 % 2 = 0 ∧ suffix.2 < twoTo 64 ∧ nearest suffix.2 = suffix.2 := by
  have table : ∀ suffix ∈ suffixes,
      0 < suffix.2 ∧ suffix.2 % 2 = 0 ∧ suffix.2 < twoTo 64 ∧ nearest suffix.2 = suffix.2 := by
    decide +kernel
  exact table suffix listed

section Reading

theorem within_tolerance {negative : Bool} :
    (tolerance.mul ((whole negative k).abs.max (Binary64.ofNat 1))).lt
      ((whole negative k).sub (whole negative k)).abs = false := by
  rw [Binary64.whole_sub_self]
  refine Binary64.lt_zero_of_unsigned (Binary64.isNegative_mul (by decide +kernel) ?_)
  rw [Binary64.max]
  split
  · exact Binary64.isNegative_roundUnits
  · split
    · exact Binary64.isNegative_roundUnits
    · rfl

theorem ofScaled_whole {negative : Bool} (kept : nearest k = k) (small : k < twoTo 1000) :
    ofScaled text (whole negative k) =
      if signedLimit < k then .error (.beyondIntegers (String.ofList text))
      else .ok (min maximum (signed negative k)) := by
  have least : Binary64.ofInt minimum = whole true signedLimit := by decide +kernel
  have most : Binary64.ofInt maximum = whole false signedLimit := by decide +kernel
  have range : ((whole negative k).lt (whole true signedLimit) || !(whole negative k).isFinite ||
      (whole false signedLimit).lt (whole negative k)) = decide (signedLimit < k) := by
    rw [Binary64.whole_lt, Binary64.whole_lt, Bool.eq_iff_iff]
    cases negative <;> simp [signed, whole, Binary64.isFinite]
  rw [ofScaled, Binary64.whole_round small, kept]
  simp only [within_tolerance, least, most, range, Binary64.whole_clampToInt, Bool.false_eq_true,
    if_false, decide_eq_true_eq]
  by_cases beyond : signedLimit < k
  · rw [if_pos beyond, if_pos beyond]
  · have inside : minimum ≤ signed negative k := by
      rw [minimum_eq]
      cases negative <;> simp only [signed, if_true, Bool.false_eq_true, if_false] <;> omega
    rw [if_neg beyond, if_neg beyond, max_eq_right inside]

theorem readMantissa_literal (literal : Literal head n) :
    readMantissa text head =
      if n.natAbs ≤ signedLimit - 1 then .ok (Binary64.ofInt n)
      else .error (.digits (String.ofList head) .tooLarge) := by
  have pointless : head.contains '.' = false := by
    rw [List.contains_eq_mem, decide_eq_false_iff_not]
    intro member
    rcases literal.written '.' member with sign | underscore | letter
    · cases sign
    · cases underscore
    · cases letter
  rw [readMantissa, pointless, if_neg Bool.false_ne_true, readLiteral_loose literal.loose]
  split <;> rfl

theorem ofInt_mul_ofNat (listed : suffix ∈ suffixes) (small : n.natAbs ≤ signedLimit - 1) :
    let k := nearest (nearest n.natAbs * suffix.2)
    (Binary64.ofInt n).mul (Binary64.ofNat suffix.2) = whole (n < 0) k ∧ k < twoTo 1000 := by
  intro k
  obtain ⟨-, -, factor, round⟩ := suffixes_factor listed
  have lower : n.natAbs < twoTo 63 := by
    have limit : signedLimit - 1 < twoTo 63 := by decide +kernel
    omega
  have product : nearest n.natAbs * suffix.2 < twoTo 127 :=
    calc
      nearest n.natAbs * suffix.2 ≤ twoTo 63 * suffix.2 :=
        Nat.mul_le_mul_right _ (Binary64.nearest_le lower)
      _ < twoTo 63 * twoTo 64 := Nat.mul_lt_mul_of_pos_left factor (twoTo_pos 63)
      _ = twoTo 127 := by rw [← twoTo_add]
  have far {a b : Nat} (le : b ≤ 127) (small : a ≤ twoTo b) : a < twoTo 1000 :=
    Nat.lt_of_le_of_lt small (twoTo_lt (by omega))
  refine ⟨?_, far (Nat.le_refl _) (Binary64.nearest_le product)⟩
  rw [Binary64.ofInt_eq (far (by decide) (Nat.le_of_lt lower)),
    Binary64.ofNat_eq (far (by decide) (Nat.le_of_lt factor)), round,
    Binary64.whole_mul (far (by decide) (Nat.le_of_lt product)), Bool.bne_false]

theorem read_scaled (scaled : ScaledBy suffix (Text.trim s.toList) head)
    (listed : suffix ∈ suffixes) (literal : Literal head n) :
    let k := nearest (nearest n.natAbs * suffix.2)
    read s =
      if n.natAbs ≤ signedLimit - 1 then
        if signedLimit < k then .error (.beyondIntegers (String.ofList (Text.trim s.toList)))
        else .ok (min maximum (signed (n < 0) k))
      else .error (.digits (String.ofList head) .tooLarge) := by
  intro k
  obtain ⟨positive, even, -, -⟩ := suffixes_factor listed
  have filled : Text.trim s.toList ≠ [] := by
    obtain ⟨letters, same, -, some, -⟩ := scaled
    simp [same, some]
  have unlike : suffix.2 ≠ 1 := by omega
  simp only [read, List.isEmpty_iff, filled, if_false, splitSuffix_of_scaledBy scaled listed,
    unlike, readMantissa_literal literal]
  by_cases small : n.natAbs ≤ signedLimit - 1
  · obtain ⟨product, below⟩ := ofInt_mul_ofNat listed small
    simp only [small, if_true, bind, Except.bind, product]
    exact ofScaled_whole (Binary64.nearest_eq_iff.mpr Binary64.short_nearest) below
  · rw [if_neg small, if_neg small]
    rfl

theorem signed_natAbs_mul {f : Nat} : signed (n < 0) (n.natAbs * f) = n * f := by
  rw [signed, Nat.cast_mul]
  split
  · next negative =>
    have below := of_decide_eq_true negative
    rw [show (n.natAbs : Int) = -n by omega, Int.neg_mul, Int.neg_neg]
  · next natural =>
    have above := of_decide_eq_false (Bool.eq_false_iff.mpr natural)
    rw [show (n.natAbs : Int) = n by omega]

theorem scaled_read_eq_iff {m : Int} (scaled : ScaledBy suffix (Text.trim s.toList) head)
    (listed : suffix ∈ suffixes) (literal : Literal head n) (done : read s = .ok m) :
    minimum ≤ m ∧ m ≤ maximum ∧
      (m = n * suffix.2 ↔ Short (n * suffix.2).natAbs ∧ n * suffix.2 ≠ signedLimit) := by
  obtain ⟨positive, even, -, -⟩ := suffixes_factor listed
  have limit := signedLimit_even
  rw [read_scaled scaled listed literal] at done
  split at done
  swap
  · cases done
  split at done
  · cases done
  next within =>
  have double : n.natAbs * suffix.2 % 2 = 0 := by rw [Nat.mul_mod, even, Nat.mul_zero]
  rw [Int.natAbs_mul, Int.natAbs_natCast, ← Binary64.nearest_mul_eq_iff positive,
    ← signed_natAbs_mul]
  generalize nearest (nearest n.natAbs * suffix.2) = k at *
  generalize n.natAbs * suffix.2 = b at *
  cases done
  -- What is cut off at the greatest integer is odd, and what is written is even.
  rw [minimum_eq, maximum_eq]
  cases decide (n < 0) <;> simp only [signed, if_true, Bool.false_eq_true, if_false] <;> omega

end Reading

section Marked

theorem hasRadixPrefix_unsigned {c : Char} {cs : List Char} (unsigned : isSign c = false)
    (marked : hasRadixPrefix (c :: cs) = true) :
    c = '0' ∧ ∃ letter tail, cs = letter :: tail ∧ letter.toLower ∈ ['x', 'o', 'b'] := by
  have all : (c :: cs).dropWhile (fun c => c == '+' || c == '-') = c :: cs := by
    change (c :: cs).dropWhile isSign = _
    rw [List.dropWhile_cons_of_neg (by simp [unsigned])]
  rw [hasRadixPrefix, all] at marked
  split at marked
  · next letter tail same =>
    obtain ⟨rfl, rfl⟩ := List.cons.inj same
    have order : ['x', 'b', 'o'].Perm ['x', 'o', 'b'] := by decide
    exact ⟨rfl, letter, tail, rfl, order.mem_iff.mp (by simpa using marked)⟩
  · cases marked

theorem Magnitude.marked_of_prefix {cs : List Char} (magnitude : Magnitude cs k)
    (marked : hasRadixPrefix cs = true) : ∃ letter radix c d tail,
      cs = '0' :: letter :: c :: tail ∧ (letter.toLower, radix) ∈ marks ∧ Stands radix c d := by
  cases magnitude with
  | zero => cases marked
  | decimal first positive rest =>
    have unsigned := isSign_of_written (.inr (first.isAlphanum (by decide)))
    exact absurd (hasRadixPrefix_unsigned unsigned marked).1 (first.ne_zero positive)
  | legacy more rest =>
    obtain ⟨-, letter, tail, rfl, mark⟩ := hasRadixPrefix_unsigned rfl marked
    cases rest with
    | gap => exact absurd mark (by decide)
    | digit stands => exact absurd mark (stands.not_mark (by decide))
  | @marked letter c radix d n cs mark first => exact ⟨letter, radix, c, d, cs, rfl, mark, first⟩

theorem literal_of_marked (literal : Literal head n) (marked : hasRadixPrefix head = true)
    (filled : letters ≠ []) (written : ∀ c ∈ letters, c.isAlphanum = true)
    (read : readLiteral (head ++ letters) = .ok w) : Literal (head ++ letters) w := by
  have front : SignInFront (head ++ letters) := by
    intro c member
    rw [List.tail_append_of_ne_nil literal.ne_nil] at member
    rcases List.mem_append.mp member with inHead | inLetters
    · exact literal.loose.isSign c inHead
    · exact isSign_of_written (.inr (written c inLetters))
  have separates {body : List Char} {k : Nat} (magnitude : Magnitude body k)
      (marked : hasRadixPrefix body = true) :
      Decimal.takeSign (body ++ letters) = (false, body ++ letters) ∧
        Follows (lead (strip (body ++ letters))) (body ++ letters) := by
    obtain ⟨letter, radix, c, d, tail, rfl, mark, stands⟩ := magnitude.marked_of_prefix marked
    have other := ne_underscore_of_mark mark
    refine ⟨rfl, ?_⟩
    -- The mark and the first digit stay in front, so only the last character matters.
    simp only [List.cons_append]
    rw [strip_cons_of_ne (by decide), strip_cons_of_ne other, lead_marked mark,
      follows_cons (by decide), follows_cons other,
      follows_cons (stands.ne_underscore (radix_of_marks mark).2.2), follows_zero_iff,
      List.getLast?_append_of_ne_nil _ filled]
    intro last
    cases written '_' (List.mem_of_getLast? last)
  rw [literal_iff]
  refine ⟨loose_of_read front read, ?_⟩
  cases literal with
  | bare magnitude =>
    obtain ⟨unsigned, follows⟩ := separates magnitude marked
    rw [Separates, unsigned]
    exact follows
  | plus magnitude => exact (separates magnitude marked).2
  | minus magnitude => exact (separates magnitude marked).2

theorem unscaled_of_marked (same : text = head ++ letters) (listed : suffix ∈ suffixes)
    (lower : letters.map Char.toLower = suffix.1.toList) (marked : hasRadixPrefix head = true) :
    ¬ Scaled text := by
  rintro ⟨other, member, head', scaled⟩
  have one : suffix.1.toList <:+ text.map Char.toLower := by
    rw [same, List.map_append, lower]
    exact List.suffix_append _ _
  obtain rfl := suffix_unique listed member one scaled.isSuffix
  obtain ⟨letters', same', lower', -, unmarked⟩ := scaled
  have long : letters.length = letters'.length := by
    simpa using congrArg List.length (lower.trans lower'.symm)
  obtain ⟨rfl, -⟩ := List.append_inj' (same.symm.trans same') long
  rw [marked] at unmarked
  cases unmarked

theorem literal_of_read_marked (literal : Literal head n) (listed : suffix ∈ suffixes)
    (same : Text.trim s.toList = head ++ letters)
    (lower : letters.map Char.toLower = suffix.1.toList) (marked : hasRadixPrefix head = true)
    (done : read s = .ok w) : Literal (Text.trim s.toList) w := by
  obtain ⟨filled, written⟩ := letters_written listed lower
  rw [read_of_unscaled (unscaled_of_marked same listed lower marked), same,
    if_neg (by simp [filled])] at done
  rw [same]
  exact literal_of_marked literal marked filled written done

end Marked

end Integer

namespace Value

open Integer

inductive Writes : Value → Int → Prop
  | number {i : Int} (range : minimum ≤ i ∧ i < wordLimit) : Writes (.number (.int i)) i
  | literal {s : String} {n : Int} (literal : Literal (Text.trim s.toList) n) :
      Writes (.string s) n
  | scaled {s : String} {head letters : List Char} {n : Int} {suffix : String × Nat}
      (same : Text.trim s.toList = head ++ letters) (literal : Literal head n)
      (listed : suffix ∈ suffixes) (lower : letters.map Char.toLower = suffix.1.toList)
      (other : ∀ m, ¬ Literal (Text.trim s.toList) m) : Writes (.string s) (n * suffix.2)

/-- The floating format has what is written: an integer of the document is a signed one, a literal
has no suffix, or what it is scaled to is short and not the bound itself. -/
def Kept : Value → Int → Prop
  | .string s, w => Literal (Text.trim s.toList) w ∨ Short w.natAbs ∧ w ≠ signedLimit
  | _, w => w ≤ maximum

def Cut : Value → Int → Prop
  | .string s, w => Literal (Text.trim s.toList) w ∨ Scaled (Text.trim s.toList)
  | _, _ => True

variable {v : Value} {w m : Int}

theorem integer_number {i : Int} : (Value.number (.int i)).integer =
    if i ≤ maximum then .ok i
    else if (Binary64.ofInt i).isWhole then .ok ((Binary64.ofInt i).clampToInt minimum maximum)
    else .error (.notWhole (toString i)) := by
  have bound : i ≤ maximum ↔ i < Int.ofNat signedLimit := by
    rw [maximum_eq, Int.ofNat_eq_natCast]
    omega
  by_cases inside : i < Int.ofNat signedLimit
  · rw [integer, Number.toInt?, if_pos inside, if_pos (bound.mpr inside)]
  · rw [integer, Number.toInt?, if_neg inside, if_neg (mt bound.mp inside)]
    rfl

theorem integer_number_outcome (least : minimum ≤ w)
    (done : (Value.number (.int w)).integer = .ok m) :
    minimum ≤ m ∧ m ≤ maximum ∧ (m = w ↔ w ≤ maximum) := by
  rw [integer_number] at done
  split at done
  · next inside =>
    cases done
    exact ⟨least, inside, iff_of_true rfl inside⟩
  · next beyond =>
    split at done
    · have range := Binary64.clampToInt_range (x := Binary64.ofInt w)
        (by decide +kernel : minimum ≤ 0) (by decide +kernel : 0 ≤ maximum)
      rw [Except.ok.inj done] at range
      refine ⟨range.1, range.2, iff_of_false ?_ beyond⟩
      rintro rfl
      exact beyond range.2
    · cases done

theorem integer_outcome (writes : v.Writes w) (done : v.integer = .ok m) :
    minimum ≤ m ∧ m ≤ maximum ∧ (m = w ↔ v.Kept w) := by
  cases writes with
  | number range => exact integer_number_outcome range.1 done
  | @literal s n literal =>
    rw [integer, read_literal literal] at done
    split at done
    · next fits =>
      cases done
      have within := natAbs_le_iff.mp fits
      have lower : minimum ≤ -maximum := by decide +kernel
      exact ⟨lower.trans within.1, within.2, iff_of_true rfl (.inl literal)⟩
    · cases done
  | @scaled s head letters n suffix same literal listed lower other =>
    cases marked : hasRadixPrefix head with
    | true => exact absurd (literal_of_read_marked literal listed same lower marked done) (other m)
    | false =>
      have scaled : ScaledBy suffix (Text.trim s.toList) head :=
        ⟨letters, same, lower, literal.ne_nil, marked⟩
      obtain ⟨least, most, exact⟩ := scaled_read_eq_iff scaled listed literal done
      exact ⟨least, most, by rw [exact, Kept, or_iff_right (other _)]⟩

theorem unsigned_eq_ok_iff {k : Nat} :
    v.unsigned = .ok k ↔ ∃ i, v.integer = .ok i ∧ 0 ≤ i ∧ (k : Int) = i := by
  rw [unsigned]
  cases v.integer with
  | error fault => simp [bind, Except.bind]
  | ok i =>
    simp only [bind, Except.bind, Except.ok.injEq, exists_eq_left']
    split
    · simp
      omega
    · simp only [Except.ok.injEq]
      omega

theorem integer_of_kept (writes : v.Writes w) (kept : v.Kept w) (cut : v.Cut w)
    (fits : -maximum ≤ w ∧ w ≤ maximum) : v.integer = .ok w := by
  have within := natAbs_le_iff.mpr fits
  cases writes with
  | number range => rw [integer_number, if_pos fits.2]
  | literal literal => rw [integer, read_literal literal, if_pos within]
  | @scaled s head letters n suffix same literal listed lower other =>
    have scaled : ScaledBy suffix (Text.trim s.toList) head := by
      refine ⟨letters, same, lower, literal.ne_nil, Bool.eq_false_iff.mpr fun marked => ?_⟩
      exact unscaled_of_marked same listed lower marked (cut.resolve_left (other _))
    obtain ⟨positive, -, -, -⟩ := suffixes_factor listed
    have short := (kept.resolve_left (other _)).1
    rw [Int.natAbs_mul, Int.natAbs_natCast] at short within
    have small := (Nat.le_mul_of_pos_right n.natAbs positive).trans within
    have exact := (Binary64.nearest_mul_eq_iff positive).mpr short
    rw [integer, read_scaled scaled listed literal, exact, if_pos small, if_neg (by omega),
      signed_natAbs_mul, min_eq_right fits.2]

theorem writes_scaled {s : String} {head letters : List Char} {n : Int} {suffix : String × Nat}
    (literal : Literal head n) (listed : suffix ∈ suffixes)
    (same : Text.trim s.toList = head ++ letters)
    (lower : letters.map Char.toLower = suffix.1.toList) (unmarked : hasRadixPrefix head = false) :
    Writes (.string s) (n * suffix.2) :=
  .scaled same literal listed lower fun _ whole =>
    whole.unscaled ⟨suffix, listed, head, letters, same, lower, literal.ne_nil, unmarked⟩

theorem integer_written (writes : v.Writes w) :
    (∀ m, v.integer = .ok m → (m = w ↔ v.Kept w)) ∧
      (∀ m, v.unsigned = .ok m → ((m : Int) = w ↔ v.Kept w)) ∧
      (v.Kept w →
        (w < minimum ∨ maximum < w → ∃ fault, v.integer = .error fault) ∧
          (w < 0 ∨ maximum < w → ∃ fault, v.unsigned = .error fault) ∧
          (v.Cut w → -maximum ≤ w ∧ w ≤ maximum → v.integer = .ok w)) := by
  refine ⟨fun m done => (integer_outcome writes done).2.2, fun m done => ?_,
    fun kept => ⟨?_, ?_, integer_of_kept writes kept⟩⟩
  · obtain ⟨i, done, -, same⟩ := unsigned_eq_ok_iff.mp done
    rw [same, (integer_outcome writes done).2.2]
  · intro outside
    cases done : v.integer with
    | error fault => exact ⟨fault, rfl⟩
    | ok m =>
      obtain ⟨least, most, exact⟩ := integer_outcome writes done
      have same := exact.mpr kept
      omega
  · intro outside
    cases done : v.unsigned with
    | error fault => exact ⟨fault, rfl⟩
    | ok k =>
      obtain ⟨i, done, natural, same⟩ := unsigned_eq_ok_iff.mp done
      obtain ⟨least, most, exact⟩ := integer_outcome writes done
      have same := exact.mpr kept
      omega

theorem sample_written :
    Writes (.string "-9007199254740992k") (-9007199254740992000) ∧
      (Value.string "-9007199254740992k").integer = .ok (-9007199254740992000) ∧
      (Value.string "-9007199254740992k").Kept (-9007199254740992000) := by
  have literal : Literal "-9007199254740992".toList (-9007199254740992) :=
    .minus (.decimal (by decide : Stands 10 '9' 9) (by decide)
      (digits_of_readNat (by decide)
        (by decide +kernel : readNat 10 signedLimit .tooLarge 9 "007199254740992".toList = .ok _)))
  have parts : Text.trim "-9007199254740992k".toList = "-9007199254740992".toList ++ ['k'] := by
    decide +kernel
  have writes : Writes (.string "-9007199254740992k") (-9007199254740992000) :=
    writes_scaled literal (by decide : ("k", tenTo 3) ∈ suffixes) parts (by decide +kernel)
      (by decide +kernel)
  have done : (Value.string "-9007199254740992k").integer = .ok (-9007199254740992000) := by
    decide +kernel
  exact ⟨writes, done, ((integer_written writes).1 _ done).mp rfl⟩

theorem others_read :
    Writes (.number (.int 18446744073709551615)) 18446744073709551615 ∧
      (Value.number (.int 18446744073709551615)).unsigned = .ok 9223372036854775807 ∧
      Writes (.string "8Ei") 9223372036854775808 ∧
      (Value.string "8Ei").integer = .ok 9223372036854775807 ∧
      Writes (.string "9007199254740993k") 9007199254740993000 ∧
      (Value.string "9007199254740993k").integer = .ok 9007199254740992000 := by
  have eight : Literal "8".toList 8 :=
    .bare (.decimal (by decide : Stands 10 '8' 8) (by decide) .done)
  have bound : Text.trim "8Ei".toList = "8".toList ++ "Ei".toList := by decide +kernel
  have odd : Literal "9007199254740993".toList 9007199254740993 :=
    .bare (.decimal (by decide : Stands 10 '9' 9) (by decide)
      (digits_of_readNat (by decide)
        (by decide +kernel : readNat 10 signedLimit .tooLarge 9 "007199254740993".toList = .ok _)))
  have long : Text.trim "9007199254740993k".toList = "9007199254740993".toList ++ ['k'] := by
    decide +kernel
  exact ⟨.number (by decide +kernel), by decide +kernel,
    writes_scaled eight (by decide : ("ei", twoTo 60) ∈ suffixes) bound (by decide +kernel)
      (by decide +kernel), by decide +kernel,
    writes_scaled odd (by decide : ("k", tenTo 3) ∈ suffixes) long (by decide +kernel)
      (by decide +kernel), by decide +kernel⟩

end Value

end Steward
