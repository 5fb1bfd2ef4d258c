import BuildFeed.Proofs.Decimal.Whole
import BuildFeed.Proofs.Message.Decimals
import BuildFeed.Proofs.Text.Alphabet
import BuildFeed.Proofs.Text.Numeral

namespace BuildFeed

open Decimal

theorem toNat_toUInt64 (n : Int64) : (n.toUInt64.toNat : Int) = n.toInt % 2 ^ 64 := by
  have hint : n.toInt = n.toBitVec.toInt := rfl
  have hnat : n.toUInt64.toNat = n.toBitVec.toNat := rfl
  have hlt := n.toBitVec.isLt
  rw [hint, hnat, BitVec.toInt_eq_toNat_bmod, Int.bmod]
  split <;> omega

namespace Text

theorem denotes_zeroPadded (width n : Nat) : Denotes (zeroPadded width (decimal n)) n where
  nonempty := by
    rw [zeroPadded, List.leftpad]
    exact List.append_ne_nil_of_right_ne_nil _ Nat.toDigits_ne_nil
  isDigit _ := isDigit_of_mem_zeroPadded fun _ => isDigit_of_mem_decimal
  value := ofDigitChars_zeroPadded width n

theorem decimal_injective {m n : Nat} (h : decimal m = decimal n) : m = n := by
  have hnumber := congrArg (Nat.ofDigitChars 10 · 0) h
  simpa only [decimal, Nat.ofDigitChars_ten_toDigits] using hnumber

end Text

theorem integerChars_eq (n : Int64) :
    integerChars n = (Text.Sign.of n.toInt).written ++ Text.decimal n.toInt.natAbs := by
  rw [integerChars, Text.Sign.written_of]
  split <;> rfl

theorem signed?_integer (n : Int64) {digits : List Char}
    (h : Text.Denotes digits n.toInt.natAbs) :
    Text.signed? (Nat.pow 2 63) ((Text.Sign.of n.toInt).written ++ digits) = some n.toInt := by
  have hbound : (Nat.pow 2 63 : Int) = 2 ^ 63 := rfl
  have hfits : (Text.Sign.of n.toInt).Fits (Nat.pow 2 63) n.toInt.natAbs :=
    Text.Sign.fits_of (hbound ▸ n.le_toInt) (hbound ▸ n.toInt_lt)
  rw [Text.signed?_written h, if_pos hfits, Text.Sign.apply_of]

variable {locale : Locale} {n : Int64} {letter : Char} {digits : List Char} {places : Nat}

theorem render_padded (locale : Locale) (n : Int64) (hplaces : precisionOr? 0 digits = some places)
    (hwidth : places < maxWidth) :
    (∀ letter ∈ ['D', 'd'], Arg.render locale (.integer n) (some (letter :: digits)) =
      .ok ((Text.Sign.of n.toInt).written ++
        Text.zeroPadded places (Text.decimal n.toInt.natAbs))) ∧
    Arg.render locale (.integer n) (some ('X' :: digits)) =
      .ok (Text.zeroPadded places ((Text.hexadecimal n.toUInt64.toNat).map Char.toUpper)) ∧
    Arg.render locale (.integer n) (some ('x' :: digits)) =
      .ok (Text.zeroPadded places (Text.hexadecimal n.toUInt64.toNat)) := by
  refine ⟨fun letter hletter => ?_, ?_, ?_⟩
  · have halpha : letter.isAlpha = true := by
      rcases List.mem_pair.1 hletter with rfl | rfl <;> rfl
    obtain ⟨stated, hread, hstated⟩ :=
      readSpecifier_of_precisionOr .integer halpha hplaces hwidth
    simp only [Arg.render, renderInteger, hread, bind, Except.bind, hstated, Text.Sign.written_of]
    rcases List.mem_pair.1 hletter with rfl | rfl <;> by_cases hnegative : n.toInt < 0 <;>
      simp only [hnegative, if_true, if_false] <;> rfl
  · have halpha : 'X'.isAlpha = true := rfl
    obtain ⟨stated, hread, hstated⟩ :=
      readSpecifier_of_precisionOr .integer halpha hplaces hwidth
    simp only [Arg.render, renderInteger, hread, bind, Except.bind, hstated]
    rfl
  · have halpha : 'x'.isAlpha = true := rfl
    obtain ⟨stated, hread, hstated⟩ :=
      readSpecifier_of_precisionOr .integer halpha hplaces hwidth
    simp only [Arg.render, renderInteger, hread, bind, Except.bind, hstated]
    rfl

theorem integers_are_read_back (locale : Locale) (n : Int64) (digits : List Char) (places : Nat)
    (hplaces : precisionOr? 0 digits = some places) (hwidth : places ≤ 65535) :
    (∀ letter ∈ ['D', 'd'], ∃ shown,
      Arg.render locale (.integer n) (some (letter :: digits)) =
          .ok ((Text.Sign.of n.toInt).written ++ shown) ∧
        Text.ShowsIn Text.decimalDigits places n.toInt.natAbs shown ∧
        Text.signed? (Nat.pow 2 63) ((Text.Sign.of n.toInt).written ++ shown) = some n.toInt) ∧
    ∃ word : Nat, (word : Int) = n.toInt % 2 ^ 64 ∧
      ∀ letter alphabet, (letter, alphabet) ∈
          [('X', Text.upperHexDigits), ('x', Text.lowerHexDigits)] →
        ∃ shown, Arg.render locale (.integer n) (some (letter :: digits)) = .ok shown ∧
          Text.ShowsIn alphabet places word shown ∧
          (UInt64.ofNat (Text.numberIn alphabet shown)).toInt64 = n := by
  have hbelow : places < maxWidth := Nat.lt_of_le_of_lt hwidth (by decide)
  obtain ⟨hdecimal, hupper, hlower⟩ := render_padded locale n hplaces hbelow
  constructor
  · intro letter hletter
    exact ⟨_, hdecimal letter hletter, Text.decimal_showsIn places _,
      signed?_integer n (Text.denotes_zeroPadded places _)⟩
  · have hword {alphabet shown : List Char}
        (h : Text.ShowsIn alphabet places n.toUInt64.toNat shown) :
        (UInt64.ofNat (Text.numberIn alphabet shown)).toInt64 = n := by
      rw [h.number, UInt64.ofNat_toNat, Int64.toInt64_toUInt64]
    refine ⟨n.toUInt64.toNat, toNat_toUInt64 n, fun letter alphabet hmem => ?_⟩
    rcases List.mem_pair.1 hmem with heq | heq <;> cases heq
    · have hshown := Text.upperHex_showsIn places n.toUInt64.toNat
      exact ⟨_, hupper, hshown, hword hshown⟩
    · have hshown := Text.lowerHex_showsIn places n.toUInt64.toNat
      exact ⟨_, hlower, hshown, hword hshown⟩

theorem least_integer_is_read_back :
    let n : Int64 := Int64.minValue
    Arg.render .invariant (.integer n) (some "D20".toList) = .ok "-09223372036854775808".toList ∧
      Text.signed? (Nat.pow 2 63) "-09223372036854775808".toList = some n.toInt ∧
      Arg.render .invariant (.integer n) (some ['X']) = .ok "8000000000000000".toList ∧
      (UInt64.ofNat (Text.numberIn Text.upperHexDigits "8000000000000000".toList)).toInt64 = n := by
  intro n
  obtain ⟨hdecimal, -⟩ := integers_are_read_back .invariant n ['2', '0'] 20 rfl (by decide)
  obtain ⟨shown, hshown, -, hread⟩ := hdecimal 'D' (by decide)
  obtain ⟨-, word, -, hwords⟩ := integers_are_read_back .invariant n [] 0 rfl (by decide)
  obtain ⟨digits, hdigits, -, hword⟩ := hwords 'X' _ (List.mem_cons_self ..)
  have hpadded : Arg.render .invariant (.integer n) (some "D20".toList) =
      .ok "-09223372036854775808".toList := by decide +kernel
  have hword' : Arg.render .invariant (.integer n) (some ['X']) =
      .ok "8000000000000000".toList := by decide +kernel
  rw [Except.ok.inj (hshown.symm.trans hpadded)] at hread
  rw [Except.ok.inj (hdigits.symm.trans hword')] at hword
  exact ⟨hpadded, hread, hword', hword⟩

structure Decimal.Separators.Apart (marks : Separators) : Prop where
  differ : marks.decimal ≠ marks.group
  decimal : marks.decimal.isDigit = false ∧ marks.decimal ≠ '-'
  group : marks.group.isDigit = false ∧ marks.group ≠ '-'

/-- The integer part of a number without the marks between its groups, and the places behind the
decimal mark if it has one. -/
def withoutMarks (marks : Separators) (text : List Char) : List Char × Option (List Char) :=
  Text.cutAt marks.decimal (text.filter (· != marks.group))

theorem withoutMarks_shown {marks : Separators} (h : marks.Apart) {front : List Char}
    (hfront : ∀ c ∈ front, c = '-') (inGroups : Bool) (m places : Nat) :
    withoutMarks marks (front ++ ((if inGroups then grouped marks.group (Text.decimal m)
        else Text.decimal m) ++
          if places = 0 then [] else marks.decimal :: List.replicate places '0')) =
      (front ++ Text.decimal m, if places = 0 then none else some (List.replicate places '0')) := by
  have hother {mark : Char} (hmark : mark.isDigit = false ∧ mark ≠ '-') :
      mark ∉ front ++ Text.decimal m := by
    rw [List.mem_append]
    rintro (hmem | hmem)
    · exact hmark.2 (hfront mark hmem)
    · rw [Text.isDigit_of_mem_decimal hmem] at hmark
      cases hmark.1
  have hkept {cs : List Char} (hcs : marks.group ∉ cs) : cs.filter (· != marks.group) = cs := by
    refine List.filter_eq_self.2 fun c hc => ?_
    rw [bne_iff_ne]
    rintro rfl
    exact hcs hc
  have hgroup := hother h.group
  rw [List.mem_append, not_or] at hgroup
  have hwhole : (if inGroups then grouped marks.group (Text.decimal m)
      else Text.decimal m).filter (· != marks.group) = Text.decimal m := by
    cases inGroups with
    | false => exact hkept hgroup.2
    | true => exact grouped_filter hgroup.2
  have htail : (if places = 0 then [] else marks.decimal :: List.replicate places '0') =
      Text.marked marks.decimal
        (if places = 0 then none else some (List.replicate places '0')) := by
    split <;> rfl
  have hplaces : marks.group ∉ Text.marked marks.decimal
      (if places = 0 then none else some (List.replicate places '0')) := by
    rw [← htail]
    split
    · exact List.not_mem_nil
    · rw [List.mem_cons, not_or]
      refine ⟨h.differ.symm, fun hmem => ?_⟩
      have hzero := List.eq_of_mem_replicate hmem
      have hdigit := h.group.1
      rw [hzero] at hdigit
      cases hdigit
  rw [withoutMarks, List.filter_append, List.filter_append, hkept hgroup.1, hwhole, htail,
    hkept hplaces, ← List.append_assoc, Text.cutAt_marked (hother h.decimal)]

theorem render_integer_places (locale : Locale) (n : Int64) (inGroups : Bool)
    (hletter : letter ∈ if inGroups then ['N', 'n'] else ['F', 'f'])
    (hplaces : precisionOr? 2 digits = some places) (hwidth : places < maxWidth) :
    Arg.render locale (.integer n) (some (letter :: digits)) =
      .ok (fixed locale.marks inGroups places (n.toInt < 0) (.ofNat n.toInt.natAbs)) := by
  obtain ⟨stated, hread, hstated⟩ :=
    readSpecifier_of_precisionOr .integer (isAlpha_of_places inGroups hletter) hplaces hwidth
  simp only [Arg.render, renderInteger, hread, bind, Except.bind, hstated]
  cases inGroups with
  | false =>
      rcases List.mem_pair.1 hletter with rfl | rfl <;> rfl
  | true =>
      rcases List.mem_pair.1 hletter with rfl | rfl <;> rfl

theorem fixed_ofNat (marks : Separators) (inGroups negative : Bool) (places n : Nat) :
    fixed marks inGroups places negative (.ofNat n) =
      (if negative = true ∧ closest n ≠ 0 then ['-'] else []) ++
        ((if inGroups then grouped marks.group (Text.decimal (closest n))
          else Text.decimal (closest n)) ++
          if places = 0 then [] else marks.decimal :: List.replicate places '0') :=
  fixed_whole places (roundHalfEven n (Nat.pow 2 (n.log2 - 52))) (n.log2 - 52) marks inGroups
    negative

/-- Under `F` and `N` an integer shows as the closest binary number, and so as itself only if it is
one. -/
theorem integers_are_shown_as_closest_binary (locale : Locale) (hmarks : locale.marks.Apart)
    (n : Int64) (digits : List Char) (places : Nat) (hplaces : precisionOr? 2 digits = some places)
    (hwidth : places ≤ 65535) :
    ∃ (x : Binary64) (m : Nat), x.IsClosest n.toInt.natAbs m ∧
      (∀ letter ∈ ['F', 'f', 'N', 'n'], ∃ text,
        Arg.render locale (.integer n) (some (letter :: digits)) = .ok text ∧
          withoutMarks locale.marks text = ((Text.Sign.of n.toInt).written ++ Text.decimal m,
            if places = 0 then none else some (List.replicate places '0'))) ∧
      (Arg.render locale (.integer n) none =
          .ok ((Text.Sign.of n.toInt).written ++ Text.decimal m) ↔
        ∃ y : Binary64, y.value? = some (n.toInt.natAbs : ℚ)) := by
  have hbelow : places < maxWidth := Nat.lt_of_le_of_lt hwidth (by decide)
  have hlow := n.le_toInt
  have hhigh := n.toInt_lt
  have hword : n.toInt.natAbs ≤ 2 ^ 63 := by omega
  -- No integer but zero is rounded to zero, where the sign would be left out.
  have hsign : (if decide (n.toInt < 0) = true ∧ closest n.toInt.natAbs ≠ 0 then ['-'] else []) =
      (Text.Sign.of n.toInt).written := by
    simp only [Text.Sign.written_of, decide_eq_true_eq]
    by_cases hnegative : n.toInt < 0
    · have hshown : closest n.toInt.natAbs ≠ 0 := closest_ne_zero (by omega)
      rw [if_pos ⟨hnegative, hshown⟩, if_pos hnegative]
    · rw [if_neg (mt And.left hnegative), if_neg hnegative]
  have hminus : ∀ c ∈ (Text.Sign.of n.toInt).written, c = '-' := by
    rw [Text.Sign.written_of]
    split <;> simp
  obtain ⟨x, hx⟩ := exists_isClosest hword
  refine ⟨x, closest n.toInt.natAbs, hx, fun letter hletter => ?_, ?_⟩
  · obtain ⟨inGroups, hkind⟩ := exists_inGroups hletter
    rw [render_integer_places locale n inGroups hkind hplaces hbelow, fixed_ofNat, hsign]
    exact ⟨_, rfl, withoutMarks_shown hmarks hminus inGroups _ places⟩
  · have hplain : Arg.render locale (.integer n) none =
        .ok ((Text.Sign.of n.toInt).written ++ Text.decimal n.toInt.natAbs) :=
      congrArg Except.ok (integerChars_eq n)
    rw [hplain, ← closest_eq_self_iff hword, Except.ok.injEq, List.append_cancel_left_eq]
    exact ⟨fun h => (Text.decimal_injective h).symm, fun h => by rw [h]⟩

theorem greatest_integer_is_shown_as_power_of_two :
    let n : Int64 := Int64.maxValue
    (∃ x : Binary64, x.IsClosest 9223372036854775807 9223372036854775808) ∧
      Arg.render .invariant (.integer n) (some ['N', '1']) =
        .ok "9,223,372,036,854,775,808.0".toList ∧
      withoutMarks Locale.invariant.marks "9,223,372,036,854,775,808.0".toList =
        ("9223372036854775808".toList, some ['0']) ∧
      ¬∃ y : Binary64, y.value? = some ((9223372036854775807 : Nat) : ℚ) := by
  intro n
  have hmarks : Locale.invariant.marks.Apart := ⟨by decide, by decide, by decide⟩
  obtain ⟨x, m, hx, hshown, hplain⟩ :=
    integers_are_shown_as_closest_binary .invariant hmarks n ['1'] 1 (by decide) (by decide)
  obtain ⟨text, htext, hwithout⟩ := hshown 'N' (by decide)
  have hgroups : Arg.render .invariant (.integer n) (some ['N', '1']) =
      .ok "9,223,372,036,854,775,808.0".toList := by decide +kernel
  have hbare : withoutMarks Locale.invariant.marks "9,223,372,036,854,775,808.0".toList =
      ((Text.Sign.of n.toInt).written ++ Text.decimal 9223372036854775808, some ['0']) := by
    decide +kernel
  rw [← Except.ok.inj (htext.symm.trans hgroups), hwithout, Prod.mk.injEq] at hbare
  obtain rfl := Text.decimal_injective (List.append_cancel_left hbare.1)
  have hlost : Arg.render .invariant (.integer n) none ≠
      .ok ((Text.Sign.of n.toInt).written ++ Text.decimal 9223372036854775808) := by decide +kernel
  exact ⟨⟨x, hx⟩, hgroups, by decide +kernel, mt hplain.2 hlost⟩

theorem odd_integer_loses_last_bit :
    let n : Int64 := 9007199254740993
    Arg.render .invariant (.integer n) (some ['F', '0']) = .ok "9007199254740992".toList ∧
      Arg.render .invariant (.integer n) none = .ok "9007199254740993".toList := by
  decide +kernel

end BuildFeed
