import BuildFeed.Message.Arg
import BuildFeed.Proofs.Decimal.Digits
import BuildFeed.Proofs.Decimal.Value

namespace BuildFeed

open Decimal

def precisionOr? (absent : Nat) (digits : List Char) : Option Nat :=
  if digits = [] then some absent else Text.word64? digits

theorem readSpecifier_of_precisionOr (kind : NumberKind) {absent : Nat} {letter : Char}
    {digits : List Char} {places : Nat} (hletter : letter.isAlpha = true)
    (hplaces : precisionOr? absent digits = some places) (hwidth : places < maxWidth) :
    ∃ stated, readSpecifier kind (letter :: digits) = .ok (letter, stated) ∧
      stated.getD absent = places := by
  unfold precisionOr? at hplaces
  split at hplaces
  case isTrue hnone =>
    cases hplaces
    subst hnone
    refine ⟨none, ?_, rfl⟩
    simp only [readSpecifier, hletter, List.isEmpty_nil, Bool.not_true, Bool.false_eq_true,
      if_false, if_true]
    rfl
  case isFalse hsome =>
    refine ⟨some places, ?_, rfl⟩
    have hfew : ¬maxWidth ≤ places := Nat.not_le.2 hwidth
    simp only [readSpecifier, hletter, List.isEmpty_iff, hsome, hplaces, hfew, Bool.not_true,
      Bool.false_eq_true, if_false]
    rfl

variable {locale : Locale} {d : Binary64} {letter : Char} {digits : List Char} {places : Nat}

theorem exists_inGroups (h : letter ∈ ['F', 'f', 'N', 'n']) :
    ∃ inGroups : Bool, letter ∈ if inGroups then ['N', 'n'] else ['F', 'f'] := by
  rcases List.mem_append.1 (show letter ∈ ['F', 'f'] ++ ['N', 'n'] from h) with hplain | hgroups
  · exact ⟨false, hplain⟩
  · exact ⟨true, hgroups⟩

theorem isAlpha_of_places (inGroups : Bool)
    (h : letter ∈ if inGroups then ['N', 'n'] else ['F', 'f']) : letter.isAlpha = true := by
  cases inGroups <;> rcases List.mem_pair.1 h with rfl | rfl <;> rfl

theorem render_places (inGroups : Bool)
    (hletter : letter ∈ if inGroups then ['N', 'n'] else ['F', 'f'])
    (hplaces : precisionOr? 2 digits = some places) (hwidth : places < maxWidth) :
    Arg.render locale (.decimal d) (some (letter :: digits)) =
      .ok (fixed locale.marks inGroups places d.isNegative d.magnitude) := by
  obtain ⟨stated, hread, hstated⟩ :=
    readSpecifier_of_precisionOr .decimal (isAlpha_of_places inGroups hletter) hplaces hwidth
  simp only [Arg.render, renderDecimal, hread, bind, Except.bind, hstated]
  cases inGroups with
  | false =>
      rcases List.mem_pair.1 hletter with rfl | rfl <;> rfl
  | true =>
      rcases List.mem_pair.1 hletter with rfl | rfl <;> rfl

/-- The texts of a number with fixed places: a minus sign if the number is negative and not rounded
to zero, the digits of the nearest multiple of the last place, and between them the separators. -/
def ShownAs (marks : Separators) (v : ℚ) (places : Nat) (plain inGroups : List Char) : Prop :=
  ∃ (units : Nat) (whole fraction groups : List Char),
    IsNearest (|v| * 10 ^ places) units ∧ Writes units places whole fraction ∧
    InGroups marks.group whole groups ∧
    let sign := if v < 0 ∧ units ≠ 0 then ['-'] else []
    let tail := if places = 0 then [] else marks.decimal :: fraction
    plain = sign ++ (whole ++ tail) ∧ inGroups = sign ++ (groups ++ tail)

theorem shownAs_fixed (marks : Separators) {v : ℚ} (hvalue : d.value? = some v) (places : Nat) :
    ShownAs marks v places (fixed marks false places d.isNegative d.magnitude)
      (fixed marks true places d.isNegative d.magnitude) := by
  obtain ⟨significand, exponent, hmagnitude, -⟩ := Binary64.value?_eq_some.1 hvalue
  obtain ⟨whole, fraction, hwrites, hfixed⟩ := fixed_finite places significand exponent
  refine ⟨unitsOf places significand exponent, whole, fraction, grouped marks.group whole, ?_,
    hwrites, inGroups_grouped _ hwrites.whole_ne_nil, ?_⟩
  · rw [Binary64.abs_value hvalue hmagnitude]
    exact unitsOf_nearest places significand exponent
  · simp only [← Binary64.isNegative_iff hvalue, hmagnitude, hfixed]
    exact ⟨rfl, rfl⟩

theorem decimals_are_rounded (locale : Locale) (d : Binary64) (v : ℚ) (hvalue : d.value? = some v)
    (digits : List Char) (places : Nat) (hplaces : precisionOr? 2 digits = some places)
    (hwidth : places ≤ 65535) :
    ∃ plain inGroups, ShownAs locale.marks v places plain inGroups ∧
      (∀ letter ∈ ['F', 'f'],
        Arg.render locale (.decimal d) (some (letter :: digits)) = .ok plain) ∧
      (∀ letter ∈ ['N', 'n'],
        Arg.render locale (.decimal d) (some (letter :: digits)) = .ok inGroups) := by
  have hbelow : places < maxWidth := Nat.lt_of_le_of_lt hwidth (by decide)
  exact ⟨_, _, shownAs_fixed locale.marks hvalue places,
    fun letter hletter => render_places false hletter hplaces hbelow,
    fun letter hletter => render_places true hletter hplaces hbelow⟩

theorem decimals_are_rounded_at_tie :
    ShownAs Locale.invariant.marks (-2469 / 2) 0 "-1234".toList "-1,234".toList := by
  have hvalue : Binary64.value? ⟨0xC0934A0000000000⟩ = some (-2469 / 2) := by
    refine Binary64.value?_eq_some.2 ⟨5429388417957888, -42, by decide, ?_⟩
    rw [if_pos (by decide)]
    norm_num
  obtain ⟨plain, inGroups, hshown, hplain, hgroups⟩ :=
    decimals_are_rounded .invariant _ _ hvalue ['0'] 0 (by decide) (by decide)
  have hplain : Except.ok "-1234".toList = Except.ok plain := hplain 'F' (by decide)
  have hgroups : Except.ok "-1,234".toList = Except.ok inGroups := hgroups 'N' (by decide)
  cases hplain
  cases hgroups
  exact hshown

theorem isNegative_of_signBit_false (h : d.signBit = false) : d.isNegative = false := by
  simp only [Binary64.isNegative, h, Bool.false_and]

theorem toChars_neg (locale : Locale) (hsign : d.signBit = false) (hnumber : d.isNaN = false) :
    Arg.toChars locale (.decimal d.neg) = '-' :: Arg.toChars locale (.decimal d) := by
  have hnumber' : d.neg.isNaN = false := by rwa [Binary64.isNaN, Binary64.neg_magnitude]
  simp only [Arg.toChars, Binary64.shortest, hsign, hnumber', Binary64.neg_signBit hsign,
    Binary64.neg_magnitude]
  rfl

theorem fixed_neg (marks : Separators) (inGroups : Bool) (hsign : d.signBit = false) {v : ℚ}
    (hvalue : d.value? = some v) (hshown : ¬IsNearest (v * 10 ^ places) 0) :
    fixed marks inGroups places d.neg.isNegative d.neg.magnitude =
      '-' :: fixed marks inGroups places d.isNegative d.magnitude := by
  obtain ⟨significand, exponent, hmagnitude, -⟩ := Binary64.value?_eq_some.1 hvalue
  have hnonneg := Binary64.value_nonneg hsign hvalue
  have hpos : 0 < v := by
    refine lt_of_le_of_ne hnonneg fun hzero => hshown ?_
    rw [← hzero, zero_mul]
    exact_mod_cast isNearest_self 0
  have hunits : unitsOf places significand exponent ≠ 0 := by
    intro hzero
    have hnearest := unitsOf_nearest places significand exponent
    rw [← Binary64.abs_value hvalue hmagnitude, abs_of_nonneg hnonneg, hzero] at hnearest
    exact hshown hnearest
  have hnegative : d.neg.isNegative = true :=
    (Binary64.isNegative_iff (Binary64.neg_value? hsign hvalue)).2 (neg_lt_zero.2 hpos)
  obtain ⟨whole, fraction, -, hfixed⟩ := fixed_finite places significand exponent
  have hunsigned : ¬(false = true ∧ unitsOf places significand exponent ≠ 0) :=
    fun h => Bool.false_ne_true h.1
  rw [Binary64.neg_magnitude, hmagnitude, hfixed, hfixed, hnegative,
    isNegative_of_signBit_false hsign, if_pos ⟨rfl, hunits⟩, if_neg hunsigned]
  rfl

theorem fixed_infinite (marks : Separators) (inGroups negative : Bool) (places : Nat) :
    fixed marks inGroups places negative .infinite = "inf".toList := by
  cases inGroups <;> cases negative <;> rfl

/-- A sign shows wherever a number is not rounded to zero, except in front of an infinity that is
shown with fixed places. -/
theorem opposite_shows_minus (locale : Locale) (d : Binary64) (hsign : d.signBit = false)
    (hnumber : d.isNaN = false) :
    (∀ spec ∈ [none, some []], ∃ text, Arg.render locale (.decimal d) spec = .ok text ∧
      Arg.render locale (.decimal d.neg) spec = .ok ('-' :: text)) ∧
    ∀ digits places, precisionOr? 2 digits = some places → places ≤ 65535 →
      ∀ letter ∈ ['F', 'f', 'N', 'n'],
        (∀ v, d.value? = some v → ¬IsNearest (v * 10 ^ places) 0 →
          ∃ text, Arg.render locale (.decimal d) (some (letter :: digits)) = .ok text ∧
            Arg.render locale (.decimal d.neg) (some (letter :: digits)) = .ok ('-' :: text)) ∧
        (d.magnitude = .infinite →
          Arg.render locale (.decimal d) (some (letter :: digits)) = .ok "inf".toList ∧
            Arg.render locale (.decimal d.neg) (some (letter :: digits)) = .ok "inf".toList) := by
  constructor
  · intro spec hspec
    refine ⟨Arg.toChars locale (.decimal d), ?_⟩
    rw [← toChars_neg locale hsign hnumber]
    rcases List.mem_pair.1 hspec with rfl | rfl <;> exact ⟨rfl, rfl⟩
  · intro digits places hplaces hwidth letter hletter
    have hbelow : places < maxWidth := Nat.lt_of_le_of_lt hwidth (by decide)
    obtain ⟨inGroups, hkind⟩ := exists_inGroups hletter
    rw [render_places inGroups hkind hplaces hbelow, render_places inGroups hkind hplaces hbelow]
    refine ⟨fun v hvalue hshown => ⟨_, rfl, ?_⟩, fun hinfinite => ?_⟩
    · rw [fixed_neg locale.marks inGroups hsign hvalue hshown]
    · rw [Binary64.neg_magnitude, hinfinite, fixed_infinite, fixed_infinite]
      exact ⟨rfl, rfl⟩

theorem opposite_shows_minus_at_one_and_a_half :
    Arg.render .invariant (.decimal ⟨0x3FF8000000000000⟩) (some ['F', '1']) = .ok "1.5".toList ∧
      Arg.render .invariant (.decimal (Binary64.neg ⟨0x3FF8000000000000⟩)) (some ['F', '1']) =
        .ok "-1.5".toList := by
  have hvalue : Binary64.value? ⟨0x3FF8000000000000⟩ = some (3 / 2) := by
    refine Binary64.value?_eq_some.2 ⟨6755399441055744, -52, by decide, ?_⟩
    rw [if_neg (by decide)]
    norm_num
  obtain ⟨-, hfixed⟩ := opposite_shows_minus .invariant ⟨0x3FF8000000000000⟩ (by decide) (by decide)
  obtain ⟨hfinite, -⟩ := hfixed ['1'] 1 (by decide) (by decide) 'F' (by decide)
  have hshown : ¬IsNearest (3 / 2 * 10 ^ 1) 0 := fun h => by
    have hnear := h.near 15
    norm_num at hnear
  obtain ⟨text, htext, hminus⟩ := hfinite (3 / 2) hvalue hshown
  have htext' : Except.ok "1.5".toList = Except.ok text := htext
  cases htext'
  exact ⟨htext, hminus⟩

theorem infinity_loses_sign :
    let infinity : Binary64 := ⟨0x7FF0000000000000⟩
    Arg.render .invariant (.decimal infinity) (some ['F', '2']) = .ok "inf".toList ∧
      Arg.render .invariant (.decimal infinity.neg) (some ['F', '2']) = .ok "inf".toList ∧
      Arg.render .invariant (.decimal infinity.neg) none = .ok "-inf".toList :=
  ⟨rfl, rfl, rfl⟩

end BuildFeed
