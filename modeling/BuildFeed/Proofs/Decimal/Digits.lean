import BuildFeed.Decimal.Fixed
import Mathlib.Data.List.Basic

namespace BuildFeed

namespace Text

theorem isDigit_of_mem_decimal {n : Nat} {c : Char} (h : c ∈ decimal n) : c.isDigit = true :=
  Nat.isDigit_of_mem_toDigits (by decide) (by decide) h

theorem head?_decimal {n : Nat} (h : 0 < n) : (decimal n).head? ≠ some '0' := by
  induction n using Nat.strongRecOn with
  | ind n ih =>
      rw [decimal, Nat.toDigits_eq_if (by decide)]
      split
      case isTrue hsmall =>
        rw [List.head?_cons, ne_eq, Option.some.injEq, Nat.digitChar_eq_zero]
        exact Nat.ne_of_gt h
      case isFalse hlarge =>
        have hfront := ih (n / 10) (by omega) (by omega)
        rwa [List.head?_append_of_ne_nil _ Nat.toDigits_ne_nil]

theorem decimal_leading (n : Nat) :
    decimal n = ['0'] ∨ decimal n ≠ [] ∧ (decimal n).head? ≠ some '0' := by
  rcases Nat.eq_zero_or_pos n with rfl | hpos
  · exact .inl rfl
  · exact .inr ⟨Nat.toDigits_ne_nil, head?_decimal hpos⟩

theorem isDigit_of_mem_zeroPadded {width : Nat} {digits : List Char}
    (h : ∀ c ∈ digits, c.isDigit = true) {c : Char} (hc : c ∈ zeroPadded width digits) :
    c.isDigit = true := by
  rw [zeroPadded, List.leftpad, List.mem_append] at hc
  rcases hc with hpad | hdigit
  · rw [List.eq_of_mem_replicate hpad]
    rfl
  · exact h c hdigit

theorem length_zeroPadded {places n : Nat} (hplaces : 0 < places)
    (h : n < Nat.pow 10 places) :
    (zeroPadded places (decimal n)).length = places := by
  have hle : (decimal n).length ≤ places :=
    (Nat.length_toDigits_le_iff (by decide) hplaces).2 h
  rw [zeroPadded, List.length_leftpad, Nat.max_eq_left hle]

theorem ofDigitChars_zeroPadded (width n : Nat) :
    Nat.ofDigitChars 10 (zeroPadded width (decimal n)) 0 = n := by
  rw [zeroPadded, List.leftpad, Nat.ofDigitChars_append, Nat.ofDigitChars_replicate_zero,
    Nat.mul_zero]
  exact Nat.ofDigitChars_ten_toDigits

theorem ofDigitChars_eq_zero_iff {digits : List Char} (h : ∀ c ∈ digits, c.isDigit = true) :
    Nat.ofDigitChars 10 digits 0 = 0 ↔ ∀ c ∈ digits, c = '0' := by
  induction digits with
  | nil => simp [Nat.ofDigitChars]
  | cons c digits ih =>
      rw [List.forall_mem_cons] at h ⊢
      have hc : c.toNat - '0'.toNat = 0 ↔ c = '0' := by
        have hlow := (Char.isDigit_iff_toNat.1 h.1).1
        rw [← Char.toNat_inj]
        omega
      rw [Nat.ofDigitChars_cons, Nat.ofDigitChars_eq_ofDigitChars_zero, Nat.mul_zero, Nat.zero_add,
        Nat.add_eq_zero_iff, ih h.2, Nat.mul_eq_zero, hc]
      simp

theorem any_ne_zero_iff {digits : List Char} (h : ∀ c ∈ digits, c.isDigit = true) :
    (digits.any fun c => c.isDigit && c != '0') = true ↔ Nat.ofDigitChars 10 digits 0 ≠ 0 := by
  rw [ne_eq, ofDigitChars_eq_zero_iff h, List.any_eq_true]
  constructor
  · rintro ⟨c, hc, hother⟩ hall
    simp [hall c hc] at hother
  · intro hother
    obtain ⟨c, hc, hne⟩ : ∃ c ∈ digits, c ≠ '0' := by
      by_contra hnone
      exact hother fun c hc => by_contra fun hne => hnone ⟨c, hc, hne⟩
    exact ⟨c, hc, by simp [h c hc, hne]⟩

end Text

namespace Decimal

/-- The digits of `units * 10 ^ -places`: those of the integer part, without superfluous zeros in
front, and one for each of the places. -/
structure Writes (units places : Nat) (whole fraction : List Char) : Prop where
  digits : ∀ c ∈ whole ++ fraction, c.isDigit = true
  leading : whole = ['0'] ∨ whole ≠ [] ∧ whole.head? ≠ some '0'
  places : fraction.length = places
  units : Nat.ofDigitChars 10 (whole ++ fraction) 0 = units

theorem Writes.whole_ne_nil {units places : Nat} {whole fraction : List Char}
    (h : Writes units places whole fraction) : whole ≠ [] := by
  rcases h.leading with rfl | ⟨hne, -⟩
  · exact List.cons_ne_nil _ _
  · exact hne

theorem exists_writes (units places : Nat) :
    ∃ whole fraction, Writes units places whole fraction ∧
      whole = Text.decimal (units / Nat.pow 10 places) ∧
      fraction = if places = 0 then []
        else Text.zeroPadded places (Text.decimal (units % Nat.pow 10 places)) := by
  by_cases hplaces : places = 0
  · subst hplaces
    refine ⟨_, _, ?_, rfl, rfl⟩
    rw [if_pos rfl, show Nat.pow 10 0 = 1 from rfl, Nat.div_one]
    refine ⟨?_, Text.decimal_leading units, rfl, ?_⟩
    · rw [List.append_nil]
      exact fun c => Text.isDigit_of_mem_decimal
    · rw [List.append_nil]
      exact Nat.ofDigitChars_ten_toDigits
  · refine ⟨_, _, ?_, rfl, rfl⟩
    rw [if_neg hplaces]
    have hpos : 0 < places := Nat.pos_of_ne_zero hplaces
    have hlow : units % Nat.pow 10 places < Nat.pow 10 places :=
      Nat.mod_lt _ (Nat.pow_pos (by decide))
    have hlength := Text.length_zeroPadded hpos hlow
    refine ⟨?_, Text.decimal_leading _, hlength, ?_⟩
    · intro c hc
      rcases List.mem_append.1 hc with hwhole | hfraction
      · exact Text.isDigit_of_mem_decimal hwhole
      · exact Text.isDigit_of_mem_zeroPadded (fun _ => Text.isDigit_of_mem_decimal) hfraction
    · rw [Nat.ofDigitChars_append, Nat.ofDigitChars_eq_ofDigitChars_zero, hlength,
        Text.ofDigitChars_zeroPadded, Text.decimal, Nat.ofDigitChars_ten_toDigits]
      exact Nat.div_add_mod units _

theorem toFixed_finite (places significand : Nat) (exponent : Int) :
    ∃ whole fraction, Writes (unitsOf places significand exponent) places whole fraction ∧
      (Magnitude.finite significand exponent).toFixed places =
        whole ++ if places = 0 then [] else '.' :: fraction := by
  obtain ⟨whole, fraction, hwrites, hwhole, hfraction⟩ :=
    exists_writes (unitsOf places significand exponent) places
  refine ⟨whole, fraction, hwrites, ?_⟩
  subst hwhole hfraction
  unfold Magnitude.toFixed
  by_cases hplaces : places = 0
  · simp only [hplaces, if_true, List.append_nil]
  · simp only [hplaces, if_false]

theorem Writes.any_rendered {units places : Nat} {whole fraction : List Char}
    (h : Writes units places whole fraction) :
    ((whole ++ if places = 0 then [] else '.' :: fraction).any fun c => c.isDigit && c != '0') =
      decide (units ≠ 0) := by
  have hdigits : (whole ++ fraction).any (fun c => c.isDigit && c != '0') = decide (units ≠ 0) := by
    rw [Bool.eq_iff_iff, Text.any_ne_zero_iff h.digits, h.units, decide_eq_true_iff]
  rw [← hdigits]
  by_cases hplaces : places = 0
  · have hnil : fraction = [] := List.eq_nil_of_length_eq_zero (h.places.trans hplaces)
    rw [if_pos hplaces, hnil]
  · rw [if_neg hplaces, List.any_append, List.any_append, List.any_cons]
    rfl

theorem Writes.cutAt_rendered {units places : Nat} {whole fraction : List Char}
    (h : Writes units places whole fraction) :
    Text.cutAt '.' (whole ++ if places = 0 then [] else '.' :: fraction) =
      (whole, if places = 0 then none else some fraction) := by
  have hperiod : '.' ∉ whole := fun hmem =>
    absurd (h.digits '.' (List.mem_append_left _ hmem)) (by decide)
  by_cases hplaces : places = 0
  · simp only [hplaces, if_true, List.append_nil, Text.cutAt_of_not_mem hperiod]
  · simp only [hplaces, if_false, Text.cutAt_append hperiod]

theorem fixed_of_rendered {places significand : Nat} {exponent : Int} {whole fraction : List Char}
    (hwrites : Writes (unitsOf places significand exponent) places whole fraction)
    (hrendered : (Magnitude.finite significand exponent).toFixed places =
      whole ++ if places = 0 then [] else '.' :: fraction)
    (marks : Separators) (inGroups negative : Bool) :
    fixed marks inGroups places negative (.finite significand exponent) =
      (if negative = true ∧ unitsOf places significand exponent ≠ 0 then ['-'] else []) ++
        ((if inGroups then grouped marks.group whole else whole) ++
          if places = 0 then [] else marks.decimal :: fraction) := by
  simp only [fixed, hrendered, hwrites.any_rendered, hwrites.cutAt_rendered, Bool.and_eq_true,
    decide_eq_true_eq]
  by_cases hplaces : places = 0
  · simp only [hplaces, if_true, List.append_nil]
  · simp only [hplaces, if_false, List.append_assoc]

theorem fixed_finite (places significand : Nat) (exponent : Int) :
    ∃ whole fraction, Writes (unitsOf places significand exponent) places whole fraction ∧
      ∀ marks inGroups negative,
        fixed marks inGroups places negative (.finite significand exponent) =
          (if negative = true ∧ unitsOf places significand exponent ≠ 0 then ['-'] else []) ++
            ((if inGroups then grouped marks.group whole else whole) ++
              if places = 0 then [] else marks.decimal :: fraction) := by
  obtain ⟨whole, fraction, hwrites, hrendered⟩ := toFixed_finite places significand exponent
  exact ⟨whole, fraction, hwrites, fixed_of_rendered hwrites hrendered⟩

theorem zeroPadded_zero {places : Nat} (h : places ≠ 0) :
    Text.zeroPadded places (Text.decimal 0) = List.replicate places '0' := by
  obtain ⟨n, rfl⟩ := Nat.exists_eq_succ_of_ne_zero h
  exact List.replicate_succ'.symm

theorem fixed_whole (places significand shift : Nat) (marks : Separators)
    (inGroups negative : Bool) :
    let n := significand * Nat.pow 2 shift
    fixed marks inGroups places negative (.finite significand shift) =
      (if negative = true ∧ n ≠ 0 then ['-'] else []) ++
        ((if inGroups then grouped marks.group (Text.decimal n) else Text.decimal n) ++
          if places = 0 then [] else marks.decimal :: List.replicate places '0') := by
  intro n
  have hpos : 0 < Nat.pow 10 places := Nat.pow_pos (by decide)
  have hunits : unitsOf places significand shift = n * Nat.pow 10 places := by
    simp [unitsOf, roundHalfEven_one, n]
  have hunits_zero : n * Nat.pow 10 places ≠ 0 ↔ n ≠ 0 := by
    rw [ne_eq, Nat.mul_eq_zero, or_iff_left (Nat.ne_of_gt hpos)]
  obtain ⟨whole, fraction, hwrites, hwhole, hfraction⟩ :=
    exists_writes (n * Nat.pow 10 places) places
  rw [Nat.mul_div_cancel _ hpos] at hwhole
  rw [Nat.mul_mod_left] at hfraction
  have hrendered : (Magnitude.finite significand shift).toFixed places =
      whole ++ if places = 0 then [] else '.' :: fraction := by
    simp only [Magnitude.toFixed, hunits, Nat.mul_div_cancel _ hpos, Nat.mul_mod_left, hwhole,
      hfraction]
    by_cases hplaces : places = 0
    · simp only [hplaces, if_true, List.append_nil]
    · simp only [hplaces, if_false]
  rw [fixed_of_rendered (hunits ▸ hwrites) hrendered, hunits, hwhole, hfraction]
  simp only [hunits_zero]
  by_cases hplaces : places = 0
  · simp only [hplaces, if_true]
  · simp only [hplaces, if_false, zeroPadded_zero hplaces]

/-- The digits with the separator before every group of three but the leading digits, which are
one, two or three. -/
def InGroups (separator : Char) (digits shown : List Char) : Prop :=
  ∃ (lead : List Char) (groups : List (List Char)), 1 ≤ lead.length ∧ lead.length ≤ 3 ∧
    (∀ group ∈ groups, group.length = 3) ∧ digits = lead ++ groups.flatten ∧
    shown = lead ++ groups.flatMap (separator :: ·)

theorem length_flatten_of_threes {groups : List (List Char)}
    (h : ∀ group ∈ groups, group.length = 3) : groups.flatten.length % 3 = 0 := by
  induction groups with
  | nil => rfl
  | cons group groups ih =>
      rw [List.forall_mem_cons] at h
      rw [List.flatten_cons, List.length_append, h.1, Nat.add_mod_left, ih h.2]

theorem inGroups_grouped (separator : Char) {digits : List Char} (h : digits ≠ []) :
    InGroups separator digits (grouped separator digits) := by
  induction digits with
  | nil => exact absurd rfl h
  | cons c digits ih =>
      by_cases hlast : digits = []
      · subst hlast
        exact ⟨[c], [], Nat.le_refl 1, Nat.le_add_left 1 2,
          fun _ hmem => absurd hmem List.not_mem_nil, rfl, rfl⟩
      · obtain ⟨lead, groups, hone, hthree, hgroups, hdigits, hshown⟩ := ih hlast
        have hlength : digits.length % 3 = lead.length % 3 := by
          have hflatten := length_flatten_of_threes hgroups
          rw [hdigits, List.length_append]
          omega
        by_cases hfull : digits.length % 3 = 0
        -- the leading digits are a group, and a new one stands before them
        · refine ⟨[c], lead :: groups, Nat.le_refl 1, Nat.le_add_left 1 2, ?_, ?_, ?_⟩
          · exact List.forall_mem_cons.2 ⟨by omega, hgroups⟩
          · rw [hdigits]
            rfl
          · rw [grouped, if_pos ⟨hlast, hfull⟩, hshown]
            rfl
        · refine ⟨c :: lead, groups, ?_, ?_, hgroups, ?_, ?_⟩
          · exact Nat.le_add_left 1 lead.length
          · rw [List.length_cons]
            omega
          · rw [hdigits]
            rfl
          · rw [grouped, if_neg fun hboth => hfull hboth.2, hshown]
            rfl

end Decimal

end BuildFeed
