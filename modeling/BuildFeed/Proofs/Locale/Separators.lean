import BuildFeed.Proofs.Decimal.Digits
import BuildFeed.Proofs.Text.Alphabet
import BuildFeed.Message.Template
import Mathlib.Data.List.Forall2

namespace BuildFeed

namespace Decimal.Separators

variable {marks marks' : Separators} {cs : List Char}

def inPlaceOf (marks : Separators) (c : Char) : Char :=
  if c = '.' then marks.decimal else if c = ',' then marks.group else c

def Matches (marks marks' : Separators) (c c' : Char) : Prop :=
  c = c' ∨ c = marks.decimal ∧ c' = marks'.decimal ∨ c = marks.group ∧ c' = marks'.group

theorem matches_inPlaceOf (marks marks' : Separators) (c : Char) :
    marks.Matches marks' (marks.inPlaceOf c) (marks'.inPlaceOf c) := by
  unfold inPlaceOf
  split
  · exact .inr (.inl ⟨rfl, rfl⟩)
  · split
    · exact .inr (.inr ⟨rfl, rfl⟩)
    · exact .inl rfl

theorem map_inPlaceOf (hperiod : '.' ∉ cs) (hcomma : ',' ∉ cs) : cs.map marks.inPlaceOf = cs := by
  refine (List.map_congr_left fun c hc => ?_).trans (List.map_id cs)
  have hne : c ≠ '.' ∧ c ≠ ',' :=
    ⟨fun h => hperiod (h ▸ hc), fun h => hcomma (h ▸ hc)⟩
  rw [inPlaceOf, if_neg hne.1, if_neg hne.2, id]

theorem map_inPlaceOf_of_digits (h : ∀ c ∈ cs, c.isDigit = true) :
    cs.map marks.inPlaceOf = cs :=
  map_inPlaceOf (fun hmem => absurd (h '.' hmem) (by decide))
    fun hmem => absurd (h ',' hmem) (by decide)

theorem map_inPlaceOf_of_alphabet {alphabet : List Char} (hperiod : '.' ∉ alphabet)
    (hcomma : ',' ∉ alphabet) (h : ∀ c ∈ cs, c ∈ alphabet) : cs.map marks.inPlaceOf = cs :=
  map_inPlaceOf (fun hmem => hperiod (h '.' hmem)) fun hmem => hcomma (h ',' hmem)

theorem map_inPlaceOf_signed (h : cs.map marks.inPlaceOf = cs) (negative : Prop)
    [Decidable negative] :
    (if negative then '-' :: cs else cs).map marks.inPlaceOf =
      if negative then '-' :: cs else cs := by
  split
  · rw [List.map_cons, h]
    rfl
  · exact h

end Decimal.Separators

namespace Decimal

theorem map_grouped (f : Char → Char) (separator : Char) (cs : List Char) :
    (grouped separator cs).map f = grouped (f separator) (cs.map f) := by
  induction cs with
  | nil => rfl
  | cons c cs ih =>
      simp only [grouped, List.map_cons, List.length_map, ne_eq, List.map_eq_nil_iff]
      split <;> simp only [List.map_cons, ih]

theorem fixed_eq_map (marks : Separators) (inGroups : Bool) (places : Nat) (negative : Bool)
    (magnitude : Magnitude) :
    fixed marks inGroups places negative magnitude =
      (fixed ⟨'.', ','⟩ inGroups places negative magnitude).map marks.inPlaceOf := by
  cases magnitude with
  | nan => cases inGroups <;> cases negative <;> rfl
  | infinite => cases inGroups <;> cases negative <;> rfl
  | finite significand exponent =>
      obtain ⟨whole, fraction, hwrites, hfixed⟩ := fixed_finite places significand exponent
      obtain ⟨hwhole, hfraction⟩ := List.forall_mem_append.1 hwrites.digits
      have hsign (b : Prop) [Decidable b] :
          (if b then ['-'] else []).map marks.inPlaceOf = if b then ['-'] else [] := by
        split <;> rfl
      have hgroups : (if inGroups then grouped ',' whole else whole).map marks.inPlaceOf =
          if inGroups then grouped marks.group whole else whole := by
        split
        · rw [map_grouped, Separators.map_inPlaceOf_of_digits hwhole]
          rfl
        · exact Separators.map_inPlaceOf_of_digits hwhole
      have htail : (if places = 0 then [] else '.' :: fraction).map marks.inPlaceOf =
          if places = 0 then [] else marks.decimal :: fraction := by
        split
        · rfl
        · rw [List.map_cons, Separators.map_inPlaceOf_of_digits hfraction]
          rfl
      rw [hfixed, hfixed, List.map_append, List.map_append, hsign, hgroups, htail]

theorem comma_not_mem_positional (n : Nat) (place : Int) : ',' ∉ positional n place := by
  have hcomma (n : Nat) : ',' ∉ Text.decimal n := fun hmem =>
    absurd (Text.isDigit_of_mem_decimal hmem) (by decide)
  have hpadded (width n : Nat) : ',' ∉ Text.zeroPadded width (Text.decimal n) := fun hmem =>
    absurd (Text.isDigit_of_mem_zeroPadded (fun _ => Text.isDigit_of_mem_decimal) hmem) (by decide)
  unfold positional
  split
  · exact hcomma _
  · simp only [List.mem_append, List.mem_cons, not_or]
    exact ⟨hcomma _, by decide, hpadded _ _⟩

theorem comma_not_mem_shortest (d : Binary64) : ',' ∉ d.shortest := by
  have hmagnitude (magnitude : Magnitude) : ',' ∉ magnitude.shortest := by
    unfold Magnitude.shortest
    split
    · decide
    · decide
    · decide
    · exact comma_not_mem_positional _ _
  unfold Binary64.shortest
  split
  · exact List.not_mem_cons_of_ne_of_not_mem (by decide) (hmagnitude _)
  · exact hmagnitude _

end Decimal

open Decimal

inductive Alike {ε α β : Type} (R : α → β → Prop) : Except ε α → Except ε β → Prop where
  | ok {a : α} {b : β} : R a b → Alike R (.ok a) (.ok b)
  | error (error : ε) : Alike R (.error error) (.error error)

namespace Alike

variable {ε α β γ δ : Type} {R : α → β → Prop} {S : γ → δ → Prop}

theorem bind {r : Except ε α} {r' : Except ε β} {f : α → Except ε γ} {f' : β → Except ε δ}
    (hr : Alike R r r') (hf : ∀ a b, R a b → Alike S (f a) (f' b)) :
    Alike S (r >>= f) (r' >>= f') := by
  cases hr with
  | ok hab => exact hf _ _ hab
  | error error => exact .error error

theorem mapM {f : γ → Except ε α} {f' : γ → Except ε β} (h : ∀ c, Alike R (f c) (f' c))
    (cs : List γ) : Alike (List.Forall₂ R) (cs.mapM f) (cs.mapM f') := by
  induction cs with
  | nil => exact .ok .nil
  | cons c cs ih =>
      rw [List.mapM_cons, List.mapM_cons]
      exact (h c).bind fun _ _ hab => ih.bind fun _ _ hrest => .ok (.cons hab hrest)

end Alike

variable {locale locale' : Locale}

theorem ok_fixed_eq_map (marks : Separators) (inGroups : Bool) (places : Nat) (negative : Bool)
    (magnitude : Magnitude) :
    (.ok (fixed marks inGroups places negative magnitude) : Except FormatError (List Char)) =
      (Except.ok (fixed ⟨'.', ','⟩ inGroups places negative magnitude)).map
        (List.map marks.inPlaceOf) :=
  congrArg Except.ok (fixed_eq_map marks inGroups places negative magnitude)

theorem renderInteger_eq_map (locale : Locale) (n : Int64) (spec : List Char) :
    renderInteger locale n spec =
      (renderInteger .invariant n spec).map (List.map locale.marks.inPlaceOf) := by
  have hplain {text : List Char} (h : text.map locale.marks.inPlaceOf = text) :
      (.ok text : Except FormatError (List Char)) =
        (Except.ok text).map (List.map locale.marks.inPlaceOf) :=
    congrArg Except.ok h.symm
  have hdigits (width : Nat) : (Text.zeroPadded width (Text.decimal n.toInt.natAbs)).map
      locale.marks.inPlaceOf = Text.zeroPadded width (Text.decimal n.toInt.natAbs) :=
    Separators.map_inPlaceOf_of_alphabet (by decide) (by decide) (Text.decimal_showsIn width _).digits
  cases hread : readSpecifier .integer spec with
  | error error =>
      simp only [renderInteger, hread]
      rfl
  | ok found =>
      obtain ⟨letter, precision⟩ := found
      simp only [renderInteger, hread, bind, Except.bind]
      split
      case h_1 | h_2 => exact hplain (Separators.map_inPlaceOf_signed (hdigits _) _)
      case h_3 =>
        exact hplain (Separators.map_inPlaceOf_of_alphabet (by decide) (by decide)
          (Text.upperHex_showsIn _ _).digits)
      case h_4 =>
        exact hplain (Separators.map_inPlaceOf_of_alphabet (by decide) (by decide)
          (Text.lowerHex_showsIn _ _).digits)
      case h_5 | h_6 => exact ok_fixed_eq_map locale.marks false _ _ _
      case h_7 | h_8 => exact ok_fixed_eq_map locale.marks true _ _ _
      case h_9 => rfl

theorem renderDecimal_eq_map (locale : Locale) (d : Binary64) (spec : List Char) :
    renderDecimal locale d spec =
      (renderDecimal .invariant d spec).map (List.map locale.marks.inPlaceOf) := by
  cases hread : readSpecifier .decimal spec with
  | error error =>
      simp only [renderDecimal, hread]
      rfl
  | ok found =>
      obtain ⟨letter, precision⟩ := found
      simp only [renderDecimal, hread, bind, Except.bind]
      split
      case h_1 | h_2 => exact ok_fixed_eq_map locale.marks false _ _ _
      case h_3 | h_4 => exact ok_fixed_eq_map locale.marks true _ _ _
      case h_5 => rfl

namespace Arg

theorem toChars_integer_eq_map (locale : Locale) (n : Int64) :
    (integer n).toChars locale =
      ((integer n).toChars .invariant).map locale.marks.inPlaceOf := by
  refine (Separators.map_inPlaceOf_signed ?_ (n.toInt < 0)).symm
  exact Separators.map_inPlaceOf_of_digits fun _ => Text.isDigit_of_mem_decimal

theorem toChars_decimal_eq_map (locale : Locale) (d : Binary64) :
    (decimal d).toChars locale =
      ((decimal d).toChars .invariant).map locale.marks.inPlaceOf := by
  simp only [toChars, List.map_map]
  refine List.map_congr_left fun c hc => ?_
  have hcomma : c ≠ ',' := fun h => comma_not_mem_shortest d (h ▸ hc)
  by_cases hperiod : c = '.'
  · simp [hperiod, Separators.inPlaceOf, Locale.invariant]
  · simp [hperiod, hcomma, Separators.inPlaceOf]

theorem render_integer_eq_map (locale : Locale) (n : Int64) (spec : Option (List Char)) :
    (integer n).render locale spec =
      ((integer n).render .invariant spec).map (List.map locale.marks.inPlaceOf) := by
  rcases spec with _ | _ | ⟨c, spec⟩
  · exact congrArg Except.ok (toChars_integer_eq_map locale n)
  · exact congrArg Except.ok (toChars_integer_eq_map locale n)
  · exact renderInteger_eq_map locale n (c :: spec)

theorem render_decimal_eq_map (locale : Locale) (d : Binary64) (spec : Option (List Char)) :
    (decimal d).render locale spec =
      ((decimal d).render .invariant spec).map (List.map locale.marks.inPlaceOf) := by
  rcases spec with _ | _ | ⟨c, spec⟩
  · exact congrArg Except.ok (toChars_decimal_eq_map locale d)
  · exact congrArg Except.ok (toChars_decimal_eq_map locale d)
  · exact renderDecimal_eq_map locale d (c :: spec)

theorem render_text (locale : Locale) (value : String) (spec : Option (List Char)) :
    (text value).render locale spec = .ok value.toList := by
  rcases spec with _ | _ | ⟨c, spec⟩ <;> rfl

end Arg

def Locale.SameText (locale locale' : Locale) (cs cs' : List Char) : Prop :=
  List.Forall₂ (locale.marks.Matches locale'.marks) cs cs'

theorem Locale.sameText_refl (locale locale' : Locale) (cs : List Char) :
    locale.SameText locale' cs cs :=
  List.forall₂_same.2 fun _ _ => .inl rfl

theorem Arg.render_alike (locale locale' : Locale) (arg : Arg) (spec : Option (List Char)) :
    Alike (locale.SameText locale') (arg.render locale spec) (arg.render locale' spec) := by
  have hmapped (outcome : Except FormatError (List Char)) :
      Alike (locale.SameText locale') (outcome.map (List.map locale.marks.inPlaceOf))
        (outcome.map (List.map locale'.marks.inPlaceOf)) := by
    cases outcome with
    | error error => exact .error error
    | ok cs =>
        refine .ok (List.forall₂_map_left_iff.2 (List.forall₂_map_right_iff.2 ?_))
        exact List.forall₂_same.2 fun c _ => Separators.matches_inPlaceOf _ _ c
  cases arg with
  | text value =>
      rw [render_text, render_text]
      exact .ok (locale.sameText_refl locale' _)
  | integer n =>
      rw [render_integer_eq_map locale, render_integer_eq_map locale']
      exact hmapped _
  | decimal d =>
      rw [render_decimal_eq_map locale, render_decimal_eq_map locale']
      exact hmapped _

namespace Template

theorem pad_sameText (onLeft : Bool) (width : Nat) {cs cs' : List Char}
    (h : locale.SameText locale' cs cs') :
    locale.SameText locale' (pad onLeft width cs) (pad onLeft width cs') := by
  have hlength : cs.length = cs'.length := List.Forall₂.length_eq h
  have hblanks := locale.sameText_refl locale' (List.replicate (width - cs'.length) ' ')
  unfold pad
  rw [hlength]
  cases onLeft with
  | false => exact List.rel_append h hblanks
  | true => exact List.rel_append hblanks h

theorem expandItem_alike (locale locale' : Locale) (args : List Arg) (position : Nat)
    (item : List Char) :
    Alike (locale.SameText locale') (expandItem locale args position item)
      (expandItem locale' args position item) := by
  simp only [expandItem]
  split
  · split
    · split
      · exact .error _
      · split
        · next arg _ =>
            exact (arg.render_alike locale locale' _).bind fun _ _ htext => .ok (pad_sameText _ _ htext)
        · exact .error _
    · exact .error _
  · exact .error _

theorem formatChars_alike (locale locale' : Locale) (template : List Char) (args : List Arg) :
    Alike (locale.SameText locale') (formatChars locale template args)
      (formatChars locale' template args) := by
  refine (Alike.mapM (fun piece => ?_) (pieces 0 template)).bind fun _ _ htexts =>
    .ok (List.rel_flatten htexts)
  cases piece with
  | literal c => exact .ok (locale.sameText_refl locale' [c])
  | placeholder position item => exact expandItem_alike locale locale' args position item
  | stray position => exact .error _

theorem locale_changes_separators_only (locale locale' : Locale) :
    (∀ template args,
      Alike (fun text text' => text.length = text'.length ∧
          locale.SameText locale' text.toList text'.toList)
        (format locale template args) (format locale' template args)) ∧
    ∀ spec,
      (∀ value, Arg.render locale (.text value) spec = Arg.render locale' (.text value) spec ∧
        Arg.render locale (.text value) spec = .ok value.toList) ∧
      (∀ n, Arg.render locale (.integer n) spec =
        (Arg.render .invariant (.integer n) spec).map (List.map locale.marks.inPlaceOf)) ∧
      ∀ d, Arg.render locale (.decimal d) spec =
        (Arg.render .invariant (.decimal d) spec).map (List.map locale.marks.inPlaceOf) := by
  refine ⟨fun template args => ?_, fun spec => ⟨fun value => ?_, fun n => ?_, fun d => ?_⟩⟩
  · refine (formatChars_alike locale locale' template.toList args).bind fun cs cs' htext => .ok ?_
    rw [String.length_ofList, String.length_ofList, String.toList_ofList, String.toList_ofList]
    exact ⟨List.Forall₂.length_eq htext, htext⟩
  · rw [Arg.render_text, Arg.render_text]
    exact ⟨rfl, rfl⟩
  · exact Arg.render_integer_eq_map locale n spec
  · exact Arg.render_decimal_eq_map locale d spec

example :
    let german := Locale.resolve "de"
    format .invariant "{0,9:N1} {1}" [.integer (-1234), .text "1,5."] =
        .ok " -1,234.0 1,5." ∧
      format german "{0,9:N1} {1}" [.integer (-1234), .text "1,5."] =
        .ok " -1.234,0 1,5." := by
  decide +kernel

end Template

end BuildFeed
