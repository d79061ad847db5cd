import Mathlib.Data.Nat.Factorization.Basic
import Steward.Number.Binary64

set_option autoImplicit false

namespace Steward

theorem twoTo_add (a b : Nat) : twoTo (a + b) = twoTo a * twoTo b := Nat.pow_add 2 a b

theorem twoTo_le {a b : Nat} (le : a ≤ b) : twoTo a ≤ twoTo b :=
  Nat.pow_le_pow_right (by decide) le

theorem twoTo_lt {a b : Nat} (lt : a < b) : twoTo a < twoTo b :=
  Nat.pow_lt_pow_right (by decide) lt

namespace Binary64

variable {e k m n w : Nat} {s t : Bool}

theorem bits_le_iff : bits k ≤ e ↔ k < twoTo e := by
  unfold bits
  by_cases zero : k = 0
  · simp [zero, twoTo_pos]
  · rw [if_neg zero, Nat.succ_le_iff, Nat.log2_lt zero]
    rfl

theorem bits_shift (positive : 0 < k) : bits (k * twoTo e) = bits k + e := by
  refine Nat.le_antisymm ?_ ?_
  · rw [bits_le_iff, twoTo_add]
    exact Nat.mul_lt_mul_of_pos_right (bits_le_iff.mp (Nat.le_refl _)) (twoTo_pos e)
  · have long : e < bits (k * twoTo e) := by
      rw [← Nat.not_le, bits_le_iff, Nat.not_lt]
      exact Nat.le_mul_of_pos_left _ positive
    have short : k < twoTo (bits (k * twoTo e) - e) := by
      have whole : k * twoTo e < twoTo (bits (k * twoTo e) - e) * twoTo e := by
        rw [← twoTo_add, Nat.sub_add_cancel (Nat.le_of_lt long)]
        exact bits_le_iff.mp (Nat.le_refl _)
      exact Nat.lt_of_mul_lt_mul_right whole
    have := bits_le_iff.mpr short
    omega

theorem divNearest_scale {num den c : Nat} (positive : 0 < c) :
    divNearest (num * c) (den * c) = divNearest num den := by
  have twice : 2 * (num % den * c) = 2 * (num % den) * c := (Nat.mul_assoc ..).symm
  have same : 2 * (num % den) * c = den * c ↔ 2 * (num % den) = den :=
    Nat.mul_left_inj (Nat.pos_iff_ne_zero.mp positive)
  have more : den * c < 2 * (num % den) * c ↔ den < 2 * (num % den) :=
    Nat.mul_lt_mul_right positive
  simp only [divNearest, Nat.mul_div_mul_right _ _ positive, Nat.mul_mod_mul_right, twice,
    gt_iff_lt, more, Bool.beq_eq_decide_eq, same]

theorem divNearest_one : divNearest k 1 = k := by
  have whole := divNearest_mul_right k 1 (by decide)
  rwa [Nat.mul_one] at whole

theorem divNearest_le {den : Nat} (below : k < m * den) : divNearest k den ≤ m := by
  have quotient : k / den < m := Nat.div_lt_of_lt_mul (by rwa [Nat.mul_comm])
  unfold divNearest
  dsimp only
  split <;> omega

def nearest (k : Nat) : Nat := divNearest k (twoTo (bits k - 53)) * twoTo (bits k - 53)

def Short (w : Nat) : Prop := ∃ a e, a < twoTo 53 ∧ w = a * twoTo e

theorem nearest_of_lt (small : k < twoTo 53) : nearest k = k := by
  have none : bits k - 53 = 0 := by
    have := bits_le_iff.mpr small
    omega
  rw [nearest, none, twoTo_zero, divNearest_one, Nat.mul_one]

theorem nearest_shift : nearest (k * twoTo e) = nearest k * twoTo e := by
  by_cases zero : k = 0
  · simp [zero, nearest, divNearest]
  have positive : 0 < k := by omega
  by_cases long : 53 ≤ bits k
  · have drop : bits (k * twoTo e) - 53 = bits k - 53 + e := by
      rw [bits_shift positive]
      omega
    rw [nearest, drop, twoTo_add, divNearest_scale (twoTo_pos e), nearest, Nat.mul_assoc]
  · -- The bits that are dropped are zeros of the shift.
    have short : k < twoTo 53 := bits_le_iff.mp (by omega)
    obtain ⟨f, split⟩ : ∃ f, e = f + (bits (k * twoTo e) - 53) := by
      refine ⟨e - (bits (k * twoTo e) - 53), ?_⟩
      rw [bits_shift positive]
      omega
    rw [nearest_of_lt short, nearest]
    generalize bits (k * twoTo e) - 53 = drop at split ⊢
    rw [split, twoTo_add, ← Nat.mul_assoc, divNearest_mul_right _ _ (twoTo_pos drop)]

theorem leading_le : divNearest k (twoTo (bits k - 53)) ≤ twoTo 53 := by
  apply divNearest_le
  rw [← twoTo_add, ← bits_le_iff]
  omega

theorem nearest_le (small : k < twoTo e) : nearest k ≤ twoTo e := by
  by_cases long : 53 ≤ bits k
  · calc
      nearest k ≤ twoTo 53 * twoTo (bits k - 53) := Nat.mul_le_mul_right _ leading_le
      _ = twoTo (bits k) := by rw [← twoTo_add, Nat.add_sub_cancel' long]
      _ ≤ twoTo e := twoTo_le (bits_le_iff.mpr small)
  · rw [nearest_of_lt (bits_le_iff.mp (by omega))]
    exact Nat.le_of_lt small

theorem short_nearest : Short (nearest k) := by
  rcases Nat.lt_or_eq_of_le (leading_le (k := k)) with below | full
  · exact ⟨_, _, below, rfl⟩
  · refine ⟨1, 53 + (bits k - 53), by decide, ?_⟩
    rw [nearest, full, twoTo_add, Nat.one_mul]

theorem nearest_eq_iff : nearest w = w ↔ Short w := by
  refine ⟨fun same => same ▸ short_nearest, ?_⟩
  rintro ⟨a, e, small, rfl⟩
  rw [nearest_shift, nearest_of_lt small]

theorem Short.of_mul {f : Nat} (positive : 0 < f) (short : Short (w * f)) : Short w := by
  by_cases zero : w = 0
  · exact ⟨0, 0, twoTo_pos 53, by simp [zero]⟩
  obtain ⟨b, c, small, same⟩ := short
  obtain ⟨e, a, odd, rfl⟩ := Nat.exists_eq_two_pow_mul_odd zero
  refine ⟨a, e, ?_, Nat.mul_comm ..⟩
  change 2 ^ e * a * f = b * 2 ^ c at same
  have divides : a ∣ b * 2 ^ c := ⟨2 ^ e * f, by rw [← same, Nat.mul_left_comm, Nat.mul_assoc]⟩
  have coprime : Nat.Coprime a (2 ^ c) := odd.coprime_two_right.pow_right c
  have filled : 0 < b := by
    by_contra none
    have empty : 2 ^ e * a * f = 0 := by rw [same, show b = 0 by omega, Nat.zero_mul]
    have := Nat.mul_pos (Nat.pos_of_ne_zero zero) positive
    omega
  exact Nat.lt_of_le_of_lt (Nat.le_of_dvd filled (coprime.dvd_of_dvd_mul_right divides)) small

theorem nearest_mul_eq_iff {f : Nat} (positive : 0 < f) :
    nearest (nearest w * f) = w * f ↔ Short (w * f) := by
  constructor
  · intro same
    rw [← same]
    exact short_nearest
  · intro short
    rw [nearest_eq_iff.mpr (short.of_mul positive), nearest_eq_iff.mpr short]

section Whole

theorem oneUnits_pos : 0 < oneUnits := twoTo_pos 1074

theorem roundUnits_scale {den : Nat} (positive : 0 < den) :
    roundUnits s (w * den) den = roundUnits s w 1 := by
  have same (drop : Nat) : divNearest (w * den) (den * drop) = divNearest w (1 * drop) := by
    rw [Nat.mul_comm den, divNearest_scale positive, Nat.one_mul]
  simp only [roundUnits, Nat.mul_div_cancel _ positive, Nat.div_one, same]

theorem roundUnits_whole (small : k < twoTo 1000) :
    roundUnits s (k * oneUnits) 1 = .finite s (nearest k * oneUnits) := by
  have inside : nearest k * oneUnits < limitUnits := by
    calc
      nearest k * oneUnits ≤ twoTo 1000 * oneUnits := Nat.mul_le_mul_right _ (nearest_le small)
      _ = twoTo 2074 := by rw [oneUnits, ← twoTo_add]
      _ < limitUnits := twoTo_lt (by decide)
  have same : nearest k * oneUnits = nearest (k * oneUnits) := nearest_shift.symm
  rw [same] at inside ⊢
  rw [roundUnits, Nat.div_one, Nat.one_mul]
  exact if_pos inside

def whole (negative : Bool) (k : Nat) : Binary64 := .finite negative (k * oneUnits)

theorem ofInt_eq {i : Int} (small : i.natAbs < twoTo 1000) :
    ofInt i = whole (i < 0) (nearest i.natAbs) := roundUnits_whole small

theorem ofNat_eq (small : k < twoTo 1000) : ofNat k = whole false (nearest k) :=
  roundUnits_whole small

theorem whole_mul (small : k * m < twoTo 1000) :
    (whole s k).mul (whole t m) = whole (s != t) (nearest (k * m)) := by
  have product : k * oneUnits * (m * oneUnits) = k * m * oneUnits * oneUnits := by
    rw [Nat.mul_assoc k, Nat.mul_left_comm oneUnits, ← Nat.mul_assoc k, Nat.mul_assoc (k * m)]
  rw [whole, whole, mul, product, roundUnits_scale oneUnits_pos, roundUnits_whole small, whole]

theorem whole_round (small : k < twoTo 1000) : (whole s k).round = whole s (nearest k) := by
  have half : (2 * (k * oneUnits) + oneUnits) / (2 * oneUnits) = k := by
    have positive := oneUnits_pos
    rw [show 2 * (k * oneUnits) + oneUnits = oneUnits + 2 * oneUnits * k by
      rw [Nat.mul_comm k, Nat.mul_assoc, Nat.add_comm],
      Nat.add_mul_div_left _ _ (by omega), Nat.div_eq_of_lt (by omega), Nat.zero_add]
  rw [whole, round, half, roundUnits_whole small, whole]

theorem whole_sub_self : (whole s k).sub (whole s k) = zero := by
  rw [whole]
  generalize k * oneUnits = units
  cases s <;> simp [sub, neg, add, signed, zero]

theorem whole_lt : (whole s k).lt (whole t m) = decide (signed s k < signed t m) := by
  have positive : (0 : Int) < oneUnits := Int.natCast_pos.mpr oneUnits_pos
  have scaled (s : Bool) (k : Nat) : signed s (k * oneUnits) = signed s k * oneUnits := by
    rw [signed, signed, Nat.cast_mul]
    split
    · rw [Int.neg_mul]
    · rfl
  rw [whole, whole, lt, scaled, scaled]
  exact decide_eq_decide.mpr (Int.mul_lt_mul_right positive)

theorem whole_clampToInt {lo hi : Int} :
    (whole s k).clampToInt lo hi = Min.min hi (Max.max lo (signed s k)) := by
  rw [whole, clampToInt, Nat.mul_div_cancel _ oneUnits_pos]

theorem clampToInt_range {x : Binary64} {lo hi : Int} (low : lo ≤ 0) (high : 0 ≤ hi) :
    lo ≤ x.clampToInt lo hi ∧ x.clampToInt lo hi ≤ hi := by
  cases x with
  | finite negative units =>
    simp only [clampToInt]
    omega
  | infinite negative =>
    simp only [clampToInt]
    split <;> omega
  | nan => exact ⟨low, high⟩

theorem lt_zero_of_unsigned {x : Binary64} (unsigned : x.isNegative = false) :
    x.lt zero = false := by
  cases x with
  | finite negative units =>
    cases unsigned
    simp [lt, zero, signed]
  | infinite negative =>
    cases unsigned
    rfl
  | nan => rfl

theorem isNegative_roundUnits {num den : Nat} : (roundUnits s num den).isNegative = s := by
  unfold roundUnits
  dsimp only
  split <;> rfl

theorem isNegative_mul {x y : Binary64} (left : x.isNegative = false)
    (right : y.isNegative = false) : (x.mul y).isNegative = false := by
  cases x <;> cases y <;> cases left <;> cases right <;> simp only [mul]
  case finite.finite => exact isNegative_roundUnits
  all_goals first | rfl | (split <;> rfl)

end Whole

end Binary64

end Steward
