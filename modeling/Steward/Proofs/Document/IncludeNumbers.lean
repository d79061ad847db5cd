import Mathlib.Tactic.Ring
import Steward.Number.Decimal
import Steward.Proofs.Document.IncludeOrder
import Steward.Proofs.Typed.Literals

set_option autoImplicit false

namespace Steward

namespace Decimal

variable {cs ds : List Char}

theorem ofDigits_cons (c : Char) (cs : List Char) :
    ofDigits (c :: cs) = digitValue c * 10 ^ cs.length + ofDigits cs := by
  have further (n : Nat) :
      cs.foldl (fun n c => n * 10 + digitValue c) n = n * 10 ^ cs.length + ofDigits cs := by
    unfold ofDigits
    induction cs generalizing n with
    | nil => simp
    | cons c cs ih =>
      rw [List.foldl_cons, List.foldl_cons, ih, ih (0 * 10 + _), List.length_cons, Nat.pow_succ]
      ring
  rw [ofDigits, List.foldl_cons, further]
  simp

theorem digitValue_lt {c : Char} (digit : c.isDigit = true) : digitValue c < 10 := by
  have bounds := (Text.isDigit_iff c).mp digit
  unfold digitValue
  omega

theorem digitValue_lt_iff {c d : Char} (left : c.isDigit = true) (right : d.isDigit = true) :
    digitValue c < digitValue d ↔ c < d := by
  have lower := (Text.isDigit_iff c).mp left
  have upper := (Text.isDigit_iff d).mp right
  have order : c < d ↔ c.toNat < d.toNat := Iff.rfl
  rw [order]
  unfold digitValue
  omega

theorem digitValue_inj {c d : Char} (left : c.isDigit = true) (right : d.isDigit = true) :
    digitValue c = digitValue d ↔ c = d := by
  have lower := (Text.isDigit_iff c).mp left
  have upper := (Text.isDigit_iff d).mp right
  rw [← Char.toNat_inj]
  unfold digitValue
  omega

theorem ofDigits_lt (digits : ∀ c ∈ cs, c.isDigit = true) : ofDigits cs < 10 ^ cs.length := by
  induction cs with
  | nil => decide
  | cons c cs ih =>
    obtain ⟨first, digits⟩ := List.forall_mem_cons.mp digits
    have rest := ih digits
    have top : digitValue c + 1 ≤ 10 := digitValue_lt first
    rw [ofDigits_cons, List.length_cons, Nat.pow_succ]
    calc digitValue c * 10 ^ cs.length + ofDigits cs
        < (digitValue c + 1) * 10 ^ cs.length := by rw [Nat.succ_mul]; omega
      _ ≤ 10 * 10 ^ cs.length := Nat.mul_le_mul_right _ top
      _ = 10 ^ cs.length * 10 := Nat.mul_comm ..

theorem ofDigits_lt_iff (left : ∀ c ∈ cs, c.isDigit = true) (right : ∀ d ∈ ds, d.isDigit = true)
    (same : cs.length = ds.length) : ofDigits cs < ofDigits ds ↔ cs < ds := by
  induction cs generalizing ds with
  | nil =>
    cases ds with
    | nil => decide
    | cons d ds => cases same
  | cons c cs ih =>
    cases ds with
    | nil => cases same
    | cons d ds =>
      obtain ⟨first, left⟩ := List.forall_mem_cons.mp left
      obtain ⟨first', right⟩ := List.forall_mem_cons.mp right
      have same : cs.length = ds.length := Nat.succ.inj same
      have below := ofDigits_lt left
      have below' := ofDigits_lt right
      rw [List.cons_lt_cons_iff, ← ih left right same, ← digitValue_lt_iff first first',
        ← digitValue_inj first first', ofDigits_cons, ofDigits_cons, ← same]
      rw [← same] at below'
      rcases Nat.lt_trichotomy (digitValue c) (digitValue d) with less | equal | more
      · have step : (digitValue c + 1) * 10 ^ cs.length ≤ digitValue d * 10 ^ cs.length :=
          Nat.mul_le_mul_right _ less
        rw [Nat.succ_mul] at step
        omega
      · rw [equal]
        omega
      · have step : (digitValue d + 1) * 10 ^ cs.length ≤ digitValue c * 10 ^ cs.length :=
          Nat.mul_le_mul_right _ more
        rw [Nat.succ_mul] at step
        omega

theorem le_ofDigits {c : Char} (digit : c.isDigit = true) (filled : c ≠ '0') (cs : List Char) :
    10 ^ cs.length ≤ ofDigits (c :: cs) := by
  have bounds := (Text.isDigit_iff c).mp digit
  have other : c.toNat ≠ 48 := fun zero => filled (Char.toNat_inj.mp zero)
  have positive : 1 ≤ digitValue c := by
    unfold digitValue
    omega
  rw [ofDigits_cons]
  calc 10 ^ cs.length = 1 * 10 ^ cs.length := (Nat.one_mul _).symm
    _ ≤ digitValue c * 10 ^ cs.length := Nat.mul_le_mul_right _ positive
    _ ≤ digitValue c * 10 ^ cs.length + ofDigits cs := Nat.le_add_right ..

end Decimal

namespace Include

def number (key : String) : Nat := Decimal.ofDigits (suffix key).toList

def InFront (order : List String) (a b : String) : Prop :=
  ∀ i j : Nat, order[i]? = some a → order[j]? = some b → i < j

def Taken (order : List String) : Prop :=
  (∃ keys, order = sorted keys) ∨ ∃ es, order = (ofEntries es).map Prod.fst

variable {a b : String} {order : List String}

theorem digits_of_isKey (key : isKey a = true) : ∀ c ∈ (suffix a).toList, c.isDigit = true := by
  unfold isKey at key
  unfold suffix
  split at key
  · next rest found => simpa [found] using key
  · cases key

theorem utf8ByteSize_of_digits {s : String} (digits : ∀ c ∈ s.toList, c.isDigit = true) :
    s.utf8ByteSize = s.toList.length := by
  obtain ⟨cs, rfl⟩ : ∃ cs, s = String.ofList cs := ⟨s.toList, String.ofList_toList.symm⟩
  rw [String.toList_ofList] at digits ⊢
  induction cs with
  | nil => rfl
  | cons c cs ih =>
    obtain ⟨digit, digits⟩ := List.forall_mem_cons.mp digits
    have bounds := (Text.isDigit_iff c).mp digit
    have low : c.val.toNat ≤ 127 := bounds.2.trans (by decide)
    have narrow : c.utf8Size = 1 := Char.utf8Size_eq_one_iff.mpr (UInt32.le_iff_toNat_le.mpr low)
    rw [← List.singleton_append, String.ofList_append, String.utf8ByteSize_append, ih digits,
      ← String.singleton_eq_ofList, String.utf8ByteSize_singleton, narrow, List.length_append,
      List.length_singleton]

theorem isBefore_iff_number (left : isKey a = true) (right : isKey b = true) :
    isBefore a b = true ↔ (suffix a).toList.length < (suffix b).toList.length ∨
      (suffix a).toList.length = (suffix b).toList.length ∧ number a ≤ number b := by
  have digits := digits_of_isKey left
  have digits' := digits_of_isKey right
  rw [isBefore_iff, utf8ByteSize_of_digits digits, utf8ByteSize_of_digits digits']
  refine or_congr_right (and_congr_right fun same => ?_)
  rw [number, number, ← Nat.not_lt, Decimal.ofDigits_lt_iff digits' digits same.symm]
  exact Iff.rfl

theorem Taken.pairwise (taken : Taken order) :
    order.Pairwise fun a b => isBefore a b = true := by
  have trans (a b c : String) (first : isBefore a b = true) (second : isBefore b c = true) :
      isBefore a c = true := isBefore_trans first second
  obtain ⟨keys, rfl⟩ | ⟨es, rfl⟩ := taken
  · have pairwise := List.pairwise_mergeSort trans isBefore_total keys
    exact pairwise
  · exact List.pairwise_map.mpr (sort_inOrder _)

theorem Taken.inFront (taken : Taken order) (apart : isBefore b a = false) :
    InFront order a b := by
  intro i j here there
  obtain ⟨within, rfl⟩ := List.getElem?_eq_some_iff.mp here
  obtain ⟨within', rfl⟩ := List.getElem?_eq_some_iff.mp there
  by_contra behind
  rcases Nat.lt_or_eq_of_le (Nat.not_lt.mp behind) with before | same
  · have first := List.pairwise_iff_getElem.mp taken.pairwise j i within' within before
    exact Bool.false_ne_true (apart.symm.trans first)
  · subst same
    exact Bool.false_ne_true (apart.symm.trans (isBefore_refl _))

theorem InFront.not_swap (first : InFront order a b) (left : a ∈ order) (right : b ∈ order) :
    ¬ InFront order b a := by
  intro second
  obtain ⟨i, here⟩ := List.mem_iff_getElem?.mp left
  obtain ⟨j, there⟩ := List.mem_iff_getElem?.mp right
  have before := first i j here there
  have behind := second j i there here
  omega

theorem length_le_of_number_lt (left : isKey a = true) (right : isKey b = true)
    (smaller : number a < number b) (lean : ∀ d ds, (suffix a).toList ≠ '0' :: d :: ds) :
    (suffix a).toList.length ≤ (suffix b).toList.length := by
  have digits := digits_of_isKey left
  have digits' := digits_of_isKey right
  have top := Decimal.ofDigits_lt digits'
  unfold number at smaller
  cases spelled : (suffix a).toList with
  | nil => exact Nat.zero_le _
  | cons c cs =>
    rw [spelled] at digits smaller lean
    by_cases zero : c = '0'
    · subst zero
      cases cs with
      | nil =>
        cases spelled' : (suffix b).toList with
        | nil =>
          rw [spelled'] at smaller
          cases smaller
        | cons d ds => exact Nat.le_add_left 1 _
      | cons d ds => exact absurd rfl (lean d ds)
    · have bottom := Decimal.le_ofDigits (digits c (by simp)) zero cs
      have power : 10 ^ cs.length < 10 ^ (suffix b).toList.length := by omega
      exact (Nat.pow_lt_pow_iff_right (by decide)).mp power

theorem Taken.bare_inFront (taken : Taken order) (key : isKey a = true) (numbered : suffix a ≠ "") :
    InFront order "include_" a := by
  apply taken.inFront
  have filled : 0 < (suffix a).toList.length := by
    rw [List.length_pos_iff]
    exact fun none => numbered (String.toList_eq_nil_iff.mp none)
  have none : (suffix "include_").toList.length = 0 := by decide
  rw [← Bool.not_eq_true, isBefore_iff_number key (by decide), none]
  omega

theorem taken_by_number (left : isKey a = true) (right : isKey b = true)
    (smaller : number a < number b) :
    (∀ order, Taken order → a ∈ order → b ∈ order →
      (InFront order a b ↔ (suffix a).toList.length ≤ (suffix b).toList.length) ∧
      (InFront order b a ↔ (suffix b).toList.length < (suffix a).toList.length)) ∧
    ((∀ d ds, (suffix a).toList ≠ '0' :: d :: ds) →
      (suffix a).toList.length ≤ (suffix b).toList.length) ∧
    ∀ order, Taken order →
      (suffix a ≠ "" → InFront order "include_" a) ∧ InFront order "include_" b := by
  refine ⟨fun order taken here there => ?_, length_le_of_number_lt left right smaller,
    fun order taken => ⟨taken.bare_inFront left, taken.bare_inFront right fun none => ?_⟩⟩
  · rcases Nat.lt_or_ge (suffix b).toList.length (suffix a).toList.length with longer | fits
    · have second : InFront order b a := by
        apply taken.inFront
        rw [← Bool.not_eq_true, isBefore_iff_number left right]
        omega
      exact ⟨iff_of_false (second.not_swap there here) (Nat.not_le.mpr longer),
        iff_of_true second longer⟩
    · have first : InFront order a b := by
        apply taken.inFront
        rw [← Bool.not_eq_true, isBefore_iff_number right left]
        omega
      exact ⟨iff_of_true first fits,
        iff_of_false (first.not_swap here there) (Nat.not_lt.mpr fits)⟩
  · rw [number, number, none] at smaller
    exact Nat.not_lt_zero _ smaller

-- Ten has the longer numeral and, as a text, the smaller one.
theorem two_before_ten :
    let order := sorted ["include_10", "include_2", "include_"]
    number "include_2" < number "include_10" ∧ InFront order "include_2" "include_10" ∧
      InFront order "include_" "include_2" := by
  intro order
  have smaller : number "include_2" < number "include_10" := by decide
  have taken : Taken order := .inl ⟨_, rfl⟩
  have present (key : String) :
      key ∈ order ↔ key ∈ ["include_10", "include_2", "include_"] :=
    (List.mergeSort_perm _ _).mem_iff
  obtain ⟨places, -, bare⟩ := taken_by_number (by decide) (by decide) smaller
  have both := places order taken ((present _).mpr (by decide)) ((present _).mpr (by decide))
  exact ⟨smaller, both.1.mpr (by decide), (bare order taken).1 (by decide)⟩

theorem zeros_put_behind :
    number "include_007" < number "include_10" ∧
      sorted ["include_007", "include_10"] = ["include_10", "include_007"] := by
  have apart : isBefore "include_007" "include_10" = false := by decide
  refine ⟨by decide, ?_⟩
  simp [sorted, List.mergeSort, List.MergeSort.Internal.splitInTwo, apart]

end Include

end Steward
