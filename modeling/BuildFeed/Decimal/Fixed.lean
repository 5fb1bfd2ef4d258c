import BuildFeed.Decimal.Binary
import BuildFeed.Text.Cut
import BuildFeed.Text.Numeral

namespace BuildFeed.Decimal

structure Separators where
  decimal : Char
  group : Char
  deriving DecidableEq, Inhabited

def unitsOf (places significand : Nat) (exponent : Int) : Nat :=
  roundHalfEven (significand * Nat.pow 2 exponent.toNat * Nat.pow 10 places)
    (Nat.pow 2 (-exponent).toNat)

def Magnitude.toFixed (places : Nat) : Magnitude → List Char
  | .nan => "NaN".toList
  | .infinite => "inf".toList
  | .finite significand exponent =>
      let units := unitsOf places significand exponent
      let whole := Text.decimal (units / Nat.pow 10 places)
      if places = 0 then whole
      else whole ++ '.' :: Text.zeroPadded places (Text.decimal (units % Nat.pow 10 places))

/-- A separator before every digit whose distance to the end is a multiple of three, the first one
excepted. -/
def grouped (separator : Char) : List Char → List Char
  | [] => []
  | c :: cs =>
      if cs ≠ [] ∧ cs.length % 3 = 0 then c :: separator :: grouped separator cs
      else c :: grouped separator cs

/-- A magnitude with fixed places in the signs of a locale. A minus sign stands only where a digit
is not zero. -/
def fixed (marks : Separators) (inGroups : Bool) (places : Nat) (negative : Bool)
    (magnitude : Magnitude) : List Char :=
  let rendered := magnitude.toFixed places
  let (whole, fraction?) := Text.cutAt '.' rendered
  let whole := if inGroups then grouped marks.group whole else whole
  let sign := if negative && rendered.any fun c => c.isDigit && c != '0' then ['-'] else []
  match fraction? with
  | some fraction => sign ++ whole ++ marks.decimal :: fraction
  | none => sign ++ whole

theorem grouped_filter {separator : Char} {cs : List Char} (h : separator ∉ cs) :
    (grouped separator cs).filter (· != separator) = cs := by
  induction cs with
  | nil => rfl
  | cons c cs ih =>
      have hc : (c != separator) = true := by
        simp only [bne_iff_ne, ne_eq]
        exact fun e => h (e ▸ List.mem_cons_self ..)
      have ih := ih fun hm => h (List.mem_cons_of_mem _ hm)
      unfold grouped
      split <;> simp [hc, ih]

end BuildFeed.Decimal
