namespace BuildFeed.Decimal

def roundHalfEven (num den : Nat) : Nat :=
  let q := num / den
  let twice := 2 * (num % den)
  if den < twice ∨ (twice = den ∧ q % 2 = 1) then q + 1 else q

theorem roundHalfEven_one (n : Nat) : roundHalfEven n 1 = n := by
  simp [roundHalfEven, Nat.mod_one]

theorem roundHalfEven_near (num : Nat) {den : Nat} (h : 0 < den) :
    2 * num ≤ (2 * roundHalfEven num den + 1) * den ∧
      2 * roundHalfEven num den * den ≤ 2 * num + den := by
  have hdiv : den * (num / den) + num % den = num := Nat.div_add_mod num den
  have hlt : num % den < den := Nat.mod_lt _ h
  unfold roundHalfEven
  simp only
  split
  next hup =>
    have : den ≤ 2 * (num % den) := by omega
    constructor <;> grind
  next hdown =>
    have : 2 * (num % den) ≤ den := by omega
    constructor <;> grind

theorem roundHalfEven_even {num den : Nat} (h : 0 < den)
    (hhalf : 2 * num = (2 * roundHalfEven num den + 1) * den ∨
      2 * roundHalfEven num den * den = 2 * num + den) :
    roundHalfEven num den % 2 = 0 := by
  have hdiv : den * (num / den) + num % den = num := Nat.div_add_mod num den
  have hlt : num % den < den := Nat.mod_lt _ h
  unfold roundHalfEven at hhalf ⊢
  simp only at hhalf ⊢
  split
  next hup =>
    rw [if_pos hup] at hhalf
    have : 2 * (num % den) = den := by grind
    omega
  next hdown =>
    rw [if_neg hdown] at hhalf
    have : 2 * (num % den) = den := by grind
    omega

end BuildFeed.Decimal
