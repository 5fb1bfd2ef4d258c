import BuildFeed.Proofs.Decimal.Value

namespace BuildFeed.Decimal

namespace Binary64

/-- The number `x` stands for the whole number `m`, and no number of 64 bits is closer to `n`. If
another one is as close, the last bit of `x` is zero. -/
structure IsClosest (x : Binary64) (n m : Nat) : Prop where
  value : x.value? = some (m : ℚ)
  near : ∀ y v, value? y = some v → |(m : ℚ) - n| ≤ |v - n|
  even : ∀ y v, value? y = some v → v ≠ m → |v - n| = |(m : ℚ) - n| → x.fraction % 2 = 0

variable {x : Binary64} {significand : Nat} {exponent : Int}

theorem significand_lt (h : x.magnitude = .finite significand exponent) :
    significand < 2 ^ 53 := by
  have hpow : Nat.pow 2 52 = 4503599627370496 ∧ Nat.pow 2 11 = 2048 := ⟨rfl, rfl⟩
  simp only [magnitude, exponentField, fraction, hpow] at h
  split at h
  case isTrue => split at h <;> cases h
  case isFalse =>
    split at h <;> cases h <;> omega

theorem exists_normal (significand : Nat) (exponent : Int) (hlow : 2 ^ 52 ≤ significand)
    (hhigh : significand < 2 ^ 53) (hleast : -1074 ≤ exponent) (hgreatest : exponent ≤ 971) :
    ∃ x : Binary64, x.value? = some ((significand : ℚ) * 2 ^ exponent) ∧
      x.fraction = significand - 2 ^ 52 := by
  obtain ⟨field, hfield⟩ : ∃ field : Nat, (field : Int) = exponent + 1075 :=
    ⟨(exponent + 1075).toNat, Int.toNat_of_nonneg (by omega)⟩
  let x : Binary64 := ⟨UInt64.ofNat (field * 2 ^ 52 + (significand - 2 ^ 52))⟩
  have hpow : Nat.pow 2 52 = 4503599627370496 ∧ Nat.pow 2 11 = 2048 ∧
    Nat.pow 2 63 = 9223372036854775808 := ⟨rfl, rfl, rfl⟩
  have hbits : x.bits.toNat = field * 2 ^ 52 + (significand - 2 ^ 52) := by
    rw [UInt64.toNat_ofNat']
    omega
  have hexponent : x.exponentField = field := by
    simp only [exponentField, hbits, hpow]
    omega
  have hfraction : x.fraction = significand - 2 ^ 52 := by
    simp only [fraction, hbits, hpow]
    omega
  have hsign : x.signBit = false := by
    simp only [signBit, hbits, hpow, decide_eq_false_iff_not]
    omega
  refine ⟨x, value?_eq_some.2 ⟨significand, exponent, ?_, ?_⟩, hfraction⟩
  · have hfinite : field ≠ 2047 ∧ field ≠ 0 := by omega
    simp only [magnitude, hexponent, hfraction, hfinite.1, hfinite.2, if_false, hpow,
      Magnitude.finite.injEq]
    omega
  · rw [hsign, if_neg Bool.false_ne_true, one_mul]

theorem value_le_or_multiple {v : ℚ} (h : x.value? = some v) (k : Nat) :
    v ≤ 2 ^ 52 * 2 ^ k ∨ ∃ j : Int, v = j * 2 ^ k := by
  obtain ⟨significand, exponent, hmagnitude, rfl⟩ := value?_eq_some.1 h
  have hsignificand : (significand : ℚ) < 2 ^ 53 := by
    exact_mod_cast significand_lt hmagnitude
  have hnonneg := magnitude_nonneg significand exponent
  have hbound : (0 : ℚ) ≤ 2 ^ 52 * 2 ^ k := by positivity
  cases hsign : x.signBit with
  | true =>
      rw [if_pos rfl, neg_one_mul]
      exact .inl ((neg_nonpos.2 hnonneg).trans hbound)
  | false =>
      rw [if_neg Bool.false_ne_true, one_mul]
      by_cases hk : (k : Int) ≤ exponent
      · obtain ⟨rest, rfl⟩ := Int.le.dest hk
        refine .inr ⟨significand * 2 ^ rest, ?_⟩
        push_cast
        rw [zpow_add₀ two_ne_zero, zpow_natCast, zpow_natCast]
        ring
      · have hpow : (2 : ℚ) ^ exponent ≤ 2 ^ ((k : Int) - 1) :=
          zpow_le_zpow_right₀ (by norm_num) (by omega)
        refine .inl ?_
        calc (significand : ℚ) * 2 ^ exponent
            ≤ 2 ^ 53 * 2 ^ ((k : Int) - 1) :=
              mul_le_mul hsignificand.le hpow (zpow_nonneg (by norm_num) _) (by norm_num)
          _ = 2 ^ 52 * 2 ^ k := by
              rw [zpow_sub_one₀ two_ne_zero, zpow_natCast]
              ring

end Binary64

open Binary64

def closest (n : Nat) : Nat :=
  roundHalfEven n (Nat.pow 2 (n.log2 - 52)) * Nat.pow 2 (n.log2 - 52)

variable {n : Nat}

theorem log2_sub_eq_zero (h : n < 2 ^ 53) : n.log2 - 52 = 0 := by
  by_cases hn : n = 0
  · simp [hn]
  · have := (Nat.log2_lt hn).2 h
    omega

theorem closest_of_lt (h : n < 2 ^ 53) : closest n = n := by
  simp [closest, log2_sub_eq_zero h, roundHalfEven_one]

theorem abs_mul_pow_sub (j : ℚ) (n k : Nat) :
    |j * 2 ^ k - n| = 2 ^ k * |j - n / 2 ^ k| := by
  have hpos : (0 : ℚ) < 2 ^ k := by positivity
  rw [← abs_of_pos hpos, ← abs_mul, abs_of_pos hpos, mul_sub, mul_div_cancel₀ _ hpos.ne', mul_comm]

structure Rounds (n s k : Nat) : Prop where
  units : closest n = s * 2 ^ k
  low : 2 ^ 52 * 2 ^ k ≤ n
  significand : 2 ^ 52 ≤ s ∧ s ≤ 2 ^ 53
  nearest : IsNearest ((n : ℚ) / 2 ^ k) s

theorem exists_rounds (h : 2 ^ 53 ≤ n) : ∃ s k, Rounds n s k := by
  have hpos : n ≠ 0 := by omega
  have hlog : 53 ≤ n.log2 := (Nat.le_log2 hpos).2 h
  obtain ⟨k, hk⟩ : ∃ k, n.log2 = 52 + k := ⟨n.log2 - 52, by omega⟩
  have hexcess : n.log2 - 52 = k := by omega
  have hlow : 2 ^ 52 * 2 ^ k ≤ n := by
    rw [← pow_add, ← hk]
    exact Nat.log2_self_le hpos
  have hhigh : n < 2 ^ 53 * 2 ^ k := by
    rw [← pow_add, show 53 + k = n.log2 + 1 by omega]
    exact Nat.lt_log2_self
  have hunit : 0 < 2 ^ k := by positivity
  have hquotient : 2 ^ 52 ≤ n / 2 ^ k ∧ n / 2 ^ k < 2 ^ 53 :=
    ⟨(Nat.le_div_iff_mul_le hunit).2 hlow, (Nat.div_lt_iff_lt_mul hunit).2 hhigh⟩
  have hround : n / 2 ^ k ≤ roundHalfEven n (2 ^ k) ∧ roundHalfEven n (2 ^ k) ≤ n / 2 ^ k + 1 := by
    simp only [roundHalfEven]
    split <;> omega
  have hnearest := roundHalfEven_nearest n hunit
  rw [Nat.cast_pow, Nat.cast_ofNat] at hnearest
  refine ⟨roundHalfEven n (2 ^ k), k, ?_, hlow, ⟨?_, ?_⟩, hnearest⟩
  · rw [closest, hexcess]
    rfl
  · exact hquotient.1.trans hround.1
  · exact hround.2.trans hquotient.2

section

variable {s k : Nat} (h : Rounds n s k)

include h

theorem Rounds.abs_sub : |(closest n : ℚ) - n| = 2 ^ k * |(s : ℚ) - n / 2 ^ k| := by
  rw [← abs_mul_pow_sub, h.units]
  push_cast
  rfl

theorem Rounds.near_multiple (j : Int) : |(closest n : ℚ) - n| ≤ |(j : ℚ) * 2 ^ k - n| := by
  rw [h.abs_sub, abs_mul_pow_sub]
  exact mul_le_mul_of_nonneg_left (by exact_mod_cast h.nearest.near j) (by positivity)

theorem Rounds.even_of_multiple {j : Int} (hother : (j : ℚ) * 2 ^ k ≠ closest n)
    (hsame : |(j : ℚ) * 2 ^ k - n| = |(closest n : ℚ) - n|) : s % 2 = 0 := by
  have hpos : (0 : ℚ) < 2 ^ k := by positivity
  rw [h.abs_sub, abs_mul_pow_sub, mul_right_inj' hpos.ne'] at hsame
  have hne : j ≠ s := by
    rintro rfl
    apply hother
    rw [h.units]
    push_cast
    rfl
  have heven := h.nearest.even j hne (by exact_mod_cast hsame)
  rwa [Int.even_coe_nat, Nat.even_iff] at heven

theorem Rounds.low_rat : (2 : ℚ) ^ 52 * 2 ^ k ≤ n := by
  exact_mod_cast h.low

theorem Rounds.abs_least_sub_le {v : ℚ} (hv : v ≤ 2 ^ 52 * 2 ^ k) :
    |(2 : ℚ) ^ 52 * 2 ^ k - n| ≤ |v - n| := by
  have hlow := h.low_rat
  rw [abs_of_nonpos (by linarith), abs_of_nonpos (by linarith)]
  linarith

theorem Rounds.near {y : Binary64} {v : ℚ} (hy : y.value? = some v) :
    |(closest n : ℚ) - n| ≤ |v - n| := by
  rcases value_le_or_multiple hy k with hsmall | ⟨j, rfl⟩
  · have hleast := h.near_multiple (2 ^ 52)
    push_cast at hleast
    exact hleast.trans (h.abs_least_sub_le hsmall)
  · exact h.near_multiple j

theorem Rounds.even {y : Binary64} {v : ℚ} (hy : y.value? = some v) (hother : v ≠ closest n)
    (hsame : |v - n| = |(closest n : ℚ) - n|) : s % 2 = 0 := by
  rcases value_le_or_multiple hy k with hsmall | ⟨j, rfl⟩
  -- Where the numbers lie closer together, only the least multiple can be as close.
  · have hlow := h.low_rat
    have hleast := h.near_multiple (2 ^ 52)
    push_cast at hleast
    rw [← hsame, abs_of_nonpos (by linarith), abs_of_nonpos (by linarith)] at hleast
    obtain rfl : v = 2 ^ 52 * 2 ^ k := by linarith
    refine h.even_of_multiple (j := 2 ^ 52) ?_ ?_
    · push_cast
      exact hother
    · push_cast
      exact hsame
  · exact h.even_of_multiple hother hsame

theorem Rounds.exists_value (hn : n ≤ 2 ^ 63) :
    ∃ x : Binary64, x.value? = some (closest n : ℚ) ∧ (s % 2 = 0 → x.fraction % 2 = 0) := by
  have hk : 52 + k ≤ 63 := by
    refine (Nat.pow_le_pow_iff_right (a := 2) (by decide)).1 ?_
    rw [pow_add]
    exact h.low.trans hn
  rw [h.units]
  -- Rounding up to `2 ^ 53` carries into the exponent.
  by_cases hcarry : s = 2 ^ 53
  · obtain ⟨x, hvalue, hfraction⟩ := exists_normal (2 ^ 52) (k + 1) (Nat.le_refl _) (by decide)
      (by omega) (by omega)
    refine ⟨x, ?_, fun _ => by rw [hfraction, Nat.sub_self]⟩
    rw [hvalue, hcarry, zpow_add_one₀ two_ne_zero, zpow_natCast]
    push_cast
    ring_nf
  · obtain ⟨x, hvalue, hfraction⟩ := exists_normal s k h.significand.1
      (lt_of_le_of_ne h.significand.2 hcarry) (by omega) (by omega)
    refine ⟨x, ?_, fun heven => by have := h.significand.1; omega⟩
    rw [hvalue, zpow_natCast]
    push_cast
    rfl

end

theorem exists_value_of_lt (h : n < 2 ^ 53) : ∃ x : Binary64, x.value? = some (n : ℚ) := by
  rcases Nat.eq_zero_or_pos n with rfl | hpos
  · exact ⟨⟨0⟩, value?_eq_some.2 ⟨0, -1074, by decide, by simp⟩⟩
  · have hlog : n.log2 < 53 := (Nat.log2_lt hpos.ne').2 h
    obtain ⟨k, hk⟩ : ∃ k, n.log2 + k = 52 := ⟨52 - n.log2, by omega⟩
    have hlow : 2 ^ 52 ≤ n * 2 ^ k := by
      rw [← hk, pow_add]
      exact Nat.mul_le_mul_right _ (Nat.log2_self_le hpos.ne')
    have hhigh : n * 2 ^ k < 2 ^ 53 := by
      rw [show 53 = n.log2 + 1 + k by omega, pow_add]
      exact Nat.mul_lt_mul_of_pos_right Nat.lt_log2_self (by positivity)
    obtain ⟨x, hvalue, -⟩ := exists_normal (n * 2 ^ k) (-k) hlow hhigh (by omega) (by omega)
    refine ⟨x, ?_⟩
    rw [hvalue, zpow_neg, zpow_natCast]
    push_cast
    rw [mul_inv_cancel_right₀ (by positivity)]

theorem exists_isClosest (hn : n ≤ 2 ^ 63) : ∃ x : Binary64, x.IsClosest n (closest n) := by
  by_cases hsmall : n < 2 ^ 53
  · obtain ⟨x, hvalue⟩ := exists_value_of_lt hsmall
    rw [closest_of_lt hsmall]
    refine ⟨x, hvalue, fun y v _ => ?_, fun y v _ hother hsame => ?_⟩
    · rw [sub_self, abs_zero]
      exact abs_nonneg _
    · rw [sub_self, abs_zero, abs_eq_zero, sub_eq_zero] at hsame
      exact absurd hsame hother
  · obtain ⟨s, k, h⟩ := exists_rounds (Nat.le_of_not_lt hsmall)
    obtain ⟨x, hvalue, heven⟩ := h.exists_value hn
    exact ⟨x, hvalue, fun y v hy => h.near hy, fun y v hy hother hsame =>
      heven (h.even hy hother hsame)⟩

theorem closest_ne_zero (h : n ≠ 0) : closest n ≠ 0 := by
  by_cases hsmall : n < 2 ^ 53
  · rwa [closest_of_lt hsmall]
  · obtain ⟨s, k, hrounds⟩ := exists_rounds (Nat.le_of_not_lt hsmall)
    have hs : 0 < s := (show 0 < 2 ^ 52 by decide).trans_le hrounds.significand.1
    rw [hrounds.units]
    positivity

theorem closest_eq_self_iff (hn : n ≤ 2 ^ 63) :
    closest n = n ↔ ∃ x : Binary64, x.value? = some (n : ℚ) := by
  obtain ⟨x, hx⟩ := exists_isClosest hn
  constructor
  · intro h
    exact ⟨x, by rw [hx.value, h]⟩
  · rintro ⟨y, hy⟩
    have hnear := hx.near y n hy
    rw [sub_self, abs_zero, abs_nonpos_iff, sub_eq_zero] at hnear
    exact_mod_cast hnear

end BuildFeed.Decimal
