import BuildFeed.Decimal.Fixed
import Mathlib.Algebra.Order.Field.Power
import Mathlib.Data.Rat.Cast.Order
import Mathlib.Tactic.Linarith
import Mathlib.Tactic.LinearCombination
import Mathlib.Tactic.Ring

namespace BuildFeed.Decimal

structure IsNearest (x : ℚ) (n : Int) : Prop where
  near : ∀ m : Int, |n - x| ≤ |m - x|
  even : ∀ m : Int, m ≠ n → |m - x| = |n - x| → Even n

theorem isNearest_of_half {x : ℚ} {n : Int} (hhalf : |n - x| ≤ 1 / 2)
    (heven : |n - x| = 1 / 2 → Even n) : IsNearest x n := by
  have hapart (m : Int) (hm : m ≠ n) : 1 ≤ |(m : ℚ) - n| := by
    have hint : 1 ≤ |m - n| := Int.one_le_abs (sub_ne_zero.2 hm)
    exact_mod_cast hint
  have hfar (m : Int) (hm : m ≠ n) : 1 / 2 ≤ |(m : ℚ) - x| := by
    have htriangle : |(m : ℚ) - n| ≤ |(m : ℚ) - x| + |n - x| := by
      rw [abs_sub_comm (n : ℚ) x]
      exact abs_sub_le (m : ℚ) x n
    have := hapart m hm
    linarith
  refine ⟨fun m => ?_, fun m hm hsame => heven ?_⟩
  · by_cases hm : m = n
    · rw [hm]
    · exact hhalf.trans (hfar m hm)
  · exact le_antisymm hhalf (hsame ▸ hfar m hm)

theorem isNearest_self (n : Int) : IsNearest n n :=
  isNearest_of_half (by rw [sub_self, abs_zero]; norm_num)
    fun hhalf => by rw [sub_self, abs_zero] at hhalf; norm_num at hhalf

theorem roundHalfEven_nearest (num : Nat) {den : Nat} (h : 0 < den) :
    IsNearest (num / den) (roundHalfEven num den) := by
  have hden : (0 : ℚ) < den := by exact_mod_cast h
  obtain ⟨hbelow, habove⟩ := roundHalfEven_near num h
  have heven (hhalf) : roundHalfEven num den % 2 = 0 := roundHalfEven_even h hhalf
  generalize roundHalfEven num den = n at hbelow habove heven ⊢
  obtain ⟨x, hx⟩ : ∃ x : ℚ, x = num / den := ⟨_, rfl⟩
  have hnum : (num : ℚ) = x * den := by rw [hx, div_mul_cancel₀ _ hden.ne']
  have hlow : 2 * x ≤ 2 * n + 1 := by
    have hscaled : 2 * (num : ℚ) ≤ (2 * n + 1) * den := by exact_mod_cast hbelow
    exact le_of_mul_le_mul_right (by rwa [mul_assoc, ← hnum]) hden
  have hhigh : 2 * n ≤ 2 * x + 1 := by
    have hscaled : 2 * n * den ≤ 2 * (num : ℚ) + den := by exact_mod_cast habove
    refine le_of_mul_le_mul_right ?_ hden
    rwa [add_mul, one_mul, mul_assoc, mul_assoc, ← hnum, ← mul_assoc]
  rw [← hx]
  have hcast : ((n : Int) : ℚ) = n := Int.cast_natCast n
  refine isNearest_of_half (abs_le.2 ⟨by linarith, by linarith⟩) fun hhalf => ?_
  rw [hcast] at hhalf
  rw [Int.even_coe_nat, Nat.even_iff]
  apply heven
  rcases (abs_eq (by norm_num)).1 hhalf with habove | hbelow
  · right
    have : 2 * (n : ℚ) * den = 2 * num + den := by
      rw [hnum]
      linear_combination 2 * den * habove
    exact_mod_cast this
  · left
    have : 2 * (num : ℚ) = (2 * n + 1) * den := by
      rw [hnum]
      linear_combination -2 * den * hbelow
    exact_mod_cast this

namespace Binary64

variable {x : Binary64} {v : ℚ} {significand : Nat} {exponent : Int}

def value? (x : Binary64) : Option ℚ :=
  match x.magnitude with
  | .finite significand exponent =>
      some ((if x.signBit then -1 else 1) * (significand * 2 ^ exponent))
  | .nan | .infinite => none

theorem value?_eq_some : x.value? = some v ↔
    ∃ significand exponent, x.magnitude = .finite significand exponent ∧
      v = (if x.signBit then -1 else 1) * (significand * 2 ^ exponent) := by
  unfold value?
  cases x.magnitude with
  | nan => simp
  | infinite => simp
  | finite significand exponent =>
      simp only [Option.some.injEq, Magnitude.finite.injEq]
      constructor
      · rintro rfl
        exact ⟨significand, exponent, ⟨rfl, rfl⟩, rfl⟩
      · rintro ⟨_, _, ⟨rfl, rfl⟩, rfl⟩
        rfl

theorem isZero_iff (h : x.magnitude = .finite significand exponent) :
    x.isZero = true ↔ significand = 0 := by
  have hpow : Nat.pow 2 52 = 4503599627370496 ∧ Nat.pow 2 11 = 2048 ∧
    Nat.pow 2 63 = 9223372036854775808 := ⟨rfl, rfl, rfl⟩
  simp only [magnitude, exponentField, fraction, isZero, hpow] at h ⊢
  rw [decide_eq_true_iff]
  split at h
  case isTrue => split at h <;> cases h
  case isFalse hfinite =>
    split at h
    case isTrue hzero =>
      cases h
      omega
    case isFalse hnormal =>
      cases h
      omega

theorem magnitude_nonneg (significand : Nat) (exponent : Int) :
    (0 : ℚ) ≤ significand * 2 ^ exponent :=
  mul_nonneg (Nat.cast_nonneg significand) (zpow_nonneg (by norm_num) exponent)

theorem isNegative_iff (h : x.value? = some v) : x.isNegative = true ↔ v < 0 := by
  obtain ⟨significand, exponent, hmagnitude, rfl⟩ := value?_eq_some.1 h
  have hnumber : x.isNaN = false := by simp [isNaN, hmagnitude]
  cases hsign : x.signBit with
  | false => simp [isNegative, hsign, magnitude_nonneg significand exponent]
  | true =>
      have hpos : (0 : ℚ) < 2 ^ exponent := zpow_pos (by norm_num) exponent
      have hnegative : x.isNegative = !x.isZero := by simp [isNegative, hsign, hnumber]
      rw [hnegative, Bool.not_eq_true', ← Bool.not_eq_true, isZero_iff hmagnitude]
      simp only [if_true, neg_mul, one_mul, neg_lt_zero, mul_pos_iff_of_pos_right hpos,
        Nat.cast_pos, Nat.pos_iff_ne_zero]

theorem abs_value (hvalue : x.value? = some v)
    (h : x.magnitude = .finite significand exponent) : |v| = significand * 2 ^ exponent := by
  obtain ⟨_, _, hmagnitude, rfl⟩ := value?_eq_some.1 hvalue
  rw [h] at hmagnitude
  cases hmagnitude
  have hnonneg := abs_of_nonneg (magnitude_nonneg significand exponent)
  cases x.signBit with
  | false => rw [if_neg Bool.false_ne_true, one_mul, hnonneg]
  | true => rw [if_pos rfl, neg_one_mul, abs_neg, hnonneg]

theorem value_nonneg (hsign : x.signBit = false) (hvalue : x.value? = some v) : 0 ≤ v := by
  obtain ⟨significand, exponent, -, rfl⟩ := value?_eq_some.1 hvalue
  rw [hsign, if_neg Bool.false_ne_true, one_mul]
  exact magnitude_nonneg significand exponent

end Binary64

theorem two_zpow (exponent : Int) :
    (2 : ℚ) ^ exponent = 2 ^ exponent.toNat / 2 ^ (-exponent).toNat := by
  obtain ⟨n, rfl | rfl⟩ := exponent.eq_nat_or_neg
  · simp
  · simp

theorem unitsOf_nearest (places significand : Nat) (exponent : Int) :
    IsNearest (significand * 2 ^ exponent * 10 ^ places) (unitsOf places significand exponent) := by
  have hden : 0 < Nat.pow 2 (-exponent).toNat := Nat.pow_pos (by decide)
  have hnearest := roundHalfEven_nearest
    (significand * Nat.pow 2 exponent.toNat * Nat.pow 10 places) hden
  have hquotient : (significand : ℚ) * 2 ^ exponent * 10 ^ places =
      (significand * Nat.pow 2 exponent.toNat * Nat.pow 10 places : Nat) /
        (Nat.pow 2 (-exponent).toNat : Nat) := by
    simp only [two_zpow, Nat.pow_eq]
    push_cast
    ring
  rwa [← hquotient] at hnearest

namespace Binary64

variable {x : Binary64}

theorem neg_toNat_mod (x : Binary64) :
    x.neg.bits.toNat % Nat.pow 2 63 = x.bits.toNat % Nat.pow 2 63 := by
  have hsign : (0x8000000000000000 : UInt64).toNat % 2 ^ 63 = 0 := by decide
  simp only [neg, UInt64.toNat_xor, Nat.pow_eq, Nat.xor_mod_two_pow, hsign, Nat.xor_zero]

theorem neg_toNat_div (x : Binary64) :
    x.neg.bits.toNat / Nat.pow 2 63 = x.bits.toNat / Nat.pow 2 63 ^^^ 1 := by
  have hsign : (0x8000000000000000 : UInt64).toNat / 2 ^ 63 = 1 := by decide
  simp only [neg, UInt64.toNat_xor, Nat.pow_eq, Nat.xor_div_two_pow, hsign]

theorem neg_magnitude (x : Binary64) : x.neg.magnitude = x.magnitude := by
  have hpow : Nat.pow 2 52 = 4503599627370496 ∧ Nat.pow 2 11 = 2048 ∧
    Nat.pow 2 63 = 9223372036854775808 := ⟨rfl, rfl, rfl⟩
  have hmod := neg_toNat_mod x
  have hfield : x.neg.exponentField = x.exponentField := by
    simp only [exponentField, hpow] at hmod ⊢
    omega
  have hfraction : x.neg.fraction = x.fraction := by
    simp only [fraction, hpow] at hmod ⊢
    omega
  simp only [magnitude, hfield, hfraction]

theorem neg_signBit (h : x.signBit = false) : x.neg.signBit = true := by
  have hdiv := neg_toNat_div x
  have hlow : x.bits.toNat < Nat.pow 2 63 := Nat.not_le.1 (of_decide_eq_false h)
  rw [Nat.div_eq_of_lt hlow] at hdiv
  have hpos : 0 < Nat.pow 2 63 := Nat.pow_pos (by decide)
  refine decide_eq_true ?_
  exact (Nat.one_le_div_iff hpos).1 hdiv.ge

theorem neg_value? {v : ℚ} (hsign : x.signBit = false) (h : x.value? = some v) :
    x.neg.value? = some (-v) := by
  obtain ⟨significand, exponent, hmagnitude, rfl⟩ := value?_eq_some.1 h
  refine value?_eq_some.2 ⟨significand, exponent, x.neg_magnitude.trans hmagnitude, ?_⟩
  rw [hsign, neg_signBit hsign, if_neg Bool.false_ne_true, if_pos rfl, one_mul, neg_one_mul]

end Binary64

end BuildFeed.Decimal
