import BuildFeed.Proofs.Message.Placeholder

namespace BuildFeed

def Arg.numberKind? : Arg → Option NumberKind
  | text _ => none
  | integer _ => some .integer
  | decimal _ => some .decimal

theorem Arg.render_of_unread {locale : Locale} {arg : Arg} {kind : NumberKind} {c : Char}
    {cs : List Char} {error : FormatError} (hkind : arg.numberKind? = some kind)
    (hread : readSpecifier kind (c :: cs) = .error error) :
    arg.render locale (some (c :: cs)) = .error error := by
  cases arg with
  | text value => cases hkind
  | integer n =>
      cases hkind
      simp only [render, renderInteger, hread]
      rfl
  | decimal d =>
      cases hkind
      simp only [render, renderDecimal, hread]
      rfl

theorem readSpecifier_of_oversized {kind : NumberKind} {letter : Char} {sign : Text.Sign}
    {digits : List Char} {precision : Nat} (hletter : letter.isAlpha = true)
    (hsign : sign ≠ .minus) (hdigits : Text.Denotes digits precision)
    (hlarge : maxWidth ≤ precision) :
    readSpecifier kind (letter :: (sign.written ++ digits)) =
      .error (if precision < UInt64.size then .widthOutOfRange precision
        else .unsupportedSpecifier (String.ofList (letter :: (sign.written ++ digits))) kind) := by
  have hsome : sign.written ++ digits ≠ [] := List.append_ne_nil_of_right_ne_nil _ hdigits.nonempty
  have hword := Text.unsigned?_written hdigits UInt64.size sign
  simp only [readSpecifier, hletter, List.isEmpty_iff, hsome, Text.word64?, hword, ne_eq, hsign,
    not_false_eq_true, true_and]
  by_cases hfits : precision < UInt64.size
  · simp only [hfits, hlarge, Bool.not_true, Bool.false_eq_true, if_false, if_true]
    rfl
  · simp only [hfits, Bool.not_true, Bool.false_eq_true, if_false]
    rfl

theorem FormatError.message_widthOutOfRange (width : Nat) :
    (widthOutOfRange width).message =
      "width " ++ toString width ++ " is too large (must be below 1000000)" := by
  have hbound : toString maxWidth = "1000000" := rfl
  have htail : " is too large (must be below " ++ ("1000000" ++ ")") =
      " is too large (must be below 1000000)" := rfl
  have hmessage : (widthOutOfRange width).message =
      "width " ++ toString width ++ " is too large (must be below " ++ toString maxWidth ++
        ")" := rfl
  rw [hmessage, hbound, String.append_assoc, String.append_assoc, htail]

namespace Template

variable {locale : Locale} {args : List Arg} {parts : Parts} {index width : Nat}

theorem expandItem_of_oversized_alignment (locale : Locale) (args : List Arg) (position : Nat)
    (hindex : parts.HasIndex index) {cs : List Char} {sign : Text.Sign}
    (halignment : parts.alignment = some cs) (hspells : Text.Spells cs sign width)
    (hlarge : maxWidth ≤ width) :
    expandItem locale args position parts.written =
      .error (if sign.Fits (Nat.pow 2 31) width then .widthOutOfRange width
        else .malformed position) := by
  have hread : parts.alignment? =
      if sign.Fits (Nat.pow 2 31) width then some (sign.apply width) else none := by
    simp only [Parts.alignment?, halignment, Option.map_some, Option.getD_some,
      Function.comp_apply, Text.signed?_trim hspells]
  by_cases hfits : sign.Fits (Nat.pow 2 31) width
  · rw [if_pos hfits] at hread ⊢
    have hrefused : parts.Refused locale args position
        (.widthOutOfRange (sign.apply width).natAbs) :=
      .width hindex (Parts.alignment?_eq_some.1 hread) (by rwa [sign.natAbs_apply])
    rw [sign.natAbs_apply] at hrefused
    exact expandItem_of_refused hrefused
  · rw [if_neg hfits] at hread ⊢
    refine expandItem_of_refused (.alignment hindex fun alignment h => ?_)
    rw [Parts.alignment?_eq_some.2 h] at hread
    cases hread

theorem expandItem_of_unrendered (position : Nat) (hindex : parts.HasIndex index)
    (halignment : parts.alignment = none) {arg : Arg} (harg : args[index]? = some arg)
    {error : FormatError} (hrender : arg.render locale parts.spec = .error error) :
    expandItem locale args position parts.written = .error error := by
  have hzero : parts.HasAlignment 0 := by
    rw [Parts.HasAlignment, halignment]
  exact expandItem_of_refused (.rendering hindex hzero (by decide) harg hrender)

theorem text_of_refused_placeholder {name front shown : String} {item : List Char}
    {error : FormatError} (hitem : BraceFree item)
    (hfront : format (.resolve name) front args = .ok shown)
    (hrefused : expandItem (.resolve name) args front.utf8ByteSize item = .error error)
    (back : String) :
    let template := front ++ (String.ofList ('{' :: (item ++ ['}'])) ++ back)
    (Message.lazyIn template args name).text = some (error.diagnostic template) := by
  intro template
  obtain ⟨found, hfound, hshifted⟩ : ∃ found,
      expandItem (.resolve name) args 0 item = .error found ∧
        found.shifted front.utf8ByteSize = error := by
    rw [← Nat.zero_add front.utf8ByteSize, expandItem_shifted] at hrefused
    cases hexpand : expandItem (.resolve name) args 0 item with
    | ok text =>
        rw [hexpand] at hrefused
        cases hrefused
    | error found =>
        rw [hexpand] at hrefused
        cases hrefused
        exact ⟨found, rfl, rfl⟩
  have hexpand : (Token.placeholder item hitem).expand (.resolve name) args 0 = .error found :=
    hfound
  have hback : format (.resolve name) (String.ofList ('{' :: (item ++ ['}'])) ++ back) args =
      .error found := by
    rw [format_eq_error, String.toList_append, String.toList_ofList]
    exact formatFrom_offends (.token hexpand)
  have htemplate : format (.resolve name) template args = .error error := by
    rw [format_append hfront, hback, ← hshifted]
    rfl
  have hlocale : (some name).getD "" = name := rfl
  simp only [Message.text, Message.read, Message.readWith, Message.lazyIn, hlocale, htemplate]
  rfl

theorem oversized_width_is_reported_if_readable (locale : Locale) (args : List Arg)
    (parts : Parts) (index : Nat) (hindex : parts.HasIndex index) (width : Nat)
    (hlarge : maxWidth ≤ width) :
    (∀ position cs sign, parts.alignment = some cs → Text.Spells cs sign width →
      expandItem locale args position parts.written =
        .error (if sign.Fits (Nat.pow 2 31) width then .widthOutOfRange width
          else .malformed position)) ∧
    (∀ position arg kind letter sign digits, parts.alignment = none → args[index]? = some arg →
      arg.numberKind? = some kind → letter.isAlpha = true → sign ≠ Text.Sign.minus →
      Text.Denotes digits width → parts.spec = some (letter :: (sign.written ++ digits)) →
        expandItem locale args position parts.written =
          .error (if width < UInt64.size then .widthOutOfRange width
            else .unsupportedSpecifier (String.ofList (letter :: (sign.written ++ digits))) kind)) ∧
    ∀ name front shown back, locale = .resolve name → BraceFree parts.written →
      format locale front args = .ok shown →
      expandItem locale args front.utf8ByteSize parts.written = .error (.widthOutOfRange width) →
        let template := front ++ (String.ofList ('{' :: (parts.written ++ ['}'])) ++ back)
        (Message.lazyIn template args name).text = some ("\"" ++ template ++ "\"\n" ++
          ("width " ++ toString width ++ " is too large (must be below 1000000)")) := by
  refine ⟨?_, ?_, ?_⟩
  · intro position cs sign halignment hspells
    exact expandItem_of_oversized_alignment locale args position hindex halignment hspells hlarge
  · intro position arg kind letter sign digits halignment harg hkind hletter hsign hdigits hspec
    refine expandItem_of_unrendered position hindex halignment harg ?_
    rw [hspec]
    exact Arg.render_of_unread hkind (readSpecifier_of_oversized hletter hsign hdigits hlarge)
  · rintro name front shown back rfl hitem hfront hrefused
    rw [← FormatError.message_widthOutOfRange]
    exact text_of_refused_placeholder hitem hfront hrefused back

theorem least_alignment_is_too_large :
    let args : List Arg := [.integer 7]
    expandItem .invariant args 3 "0, -002147483648 :D".toList =
        .error (.widthOutOfRange 2147483648) ∧
      expandItem .invariant args 3 "0:D2147483648".toList =
        .error (.widthOutOfRange 2147483648) ∧
      (Message.lazyIn "a\x7b0:D2147483648\x7d" args "").text =
        some "\"a\x7b0:D2147483648\x7d\"\nwidth 2147483648 is too large (must be below 1000000)" := by
  intro args
  have hdigits : Text.Denotes "2147483648".toList 2147483648 :=
    Text.natural?_eq_some.1 (by decide)
  have hpadded : Text.Denotes "002147483648".toList 2147483648 :=
    Text.natural?_eq_some.1 (by decide)
  have hzero : Text.Spells ['0'] .absent 0 :=
    ⟨[], ['0'], [], nofun, Text.natural?_eq_some.1 rfl, rfl⟩
  let aligned : Parts :=
    ⟨['0'], some " -002147483648 ".toList, some ['D'], by decide, by decide⟩
  let specified : Parts := ⟨['0'], none, some "D2147483648".toList, by decide, nofun⟩
  obtain ⟨halignment, -, -⟩ := oversized_width_is_reported_if_readable .invariant args aligned 0
    ⟨.absent, hzero, by decide, by decide⟩ 2147483648 (by decide)
  obtain ⟨-, hprecision, htext⟩ := oversized_width_is_reported_if_readable (.resolve "") args
    specified 0 ⟨.absent, hzero, by decide, by decide⟩ 2147483648 (by decide)
  have hspells : Text.Spells " -002147483648 ".toList .minus 2147483648 :=
    ⟨[' '], _, [' '], List.all_eq_true.1 rfl, hpadded, rfl⟩
  have hspecified (position : Nat) : expandItem (.resolve "") args position specified.written =
      .error (.widthOutOfRange 2147483648) :=
    hprecision position (.integer 7) .integer 'D' .absent _ rfl rfl rfl rfl (by decide) hdigits rfl
  have hinvariant : Locale.resolve "" = .invariant := by decide +kernel
  refine ⟨halignment 3 _ .minus rfl hspells, hinvariant ▸ hspecified 3, ?_⟩
  exact htext "" "a" "a" "" rfl (by decide) (by decide +kernel) (hspecified 1)

theorem unreadable_width_is_taken_for_a_fault :
    let args : List Arg := [.integer 7]
    expandItem .invariant args 0 "0,2147483648".toList = .error (.malformed 0) ∧
      expandItem .invariant args 0 "0:D18446744073709551616".toList =
        .error (.unsupportedSpecifier "D18446744073709551616" .integer) := by
  decide +kernel

end Template

end BuildFeed
