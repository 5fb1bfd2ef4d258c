import BuildFeed.Text.Blank
import BuildFeed.Text.Numeral
import Mathlib.Data.List.TakeWhile

namespace BuildFeed.Text

structure Denotes (digits : List Char) (n : Nat) : Prop where
  nonempty : digits ≠ []
  isDigit : ∀ c ∈ digits, c.isDigit = true
  value : Nat.ofDigitChars 10 digits 0 = n

theorem natural?_eq_some {digits : List Char} {n : Nat} :
    natural? digits = some n ↔ Denotes digits n := by
  rw [natural?]
  constructor
  · intro h
    split at h
    case isTrue => cases h
    case isFalse hsome =>
      split at h
      case isTrue hall =>
        cases h
        exact ⟨fun hnil => hsome (List.isEmpty_iff.2 hnil), List.all_eq_true.1 hall, rfl⟩
      case isFalse => cases h
  · rintro ⟨hsome, hall, rfl⟩
    rw [if_neg (mt List.isEmpty_iff.1 hsome), if_pos (List.all_eq_true.2 hall)]

inductive Sign where
  | absent
  | plus
  | minus
  deriving DecidableEq

namespace Sign

def written : Sign → List Char
  | absent => []
  | plus => ['+']
  | minus => ['-']

def apply : Sign → Nat → Int
  | minus, n => -n
  | _, n => n

theorem natAbs_apply (sign : Sign) (n : Nat) : (sign.apply n).natAbs = n := by
  cases sign <;> simp [apply]

def of (z : Int) : Sign :=
  if z < 0 then minus else absent

theorem written_of (z : Int) : (of z).written = if z < 0 then ['-'] else [] := by
  unfold of
  split <;> rfl

theorem apply_of (z : Int) : (of z).apply z.natAbs = z := by
  unfold of
  split <;> simp only [apply] <;> omega

def Fits (bound : Nat) (sign : Sign) (n : Nat) : Prop :=
  n < bound ∨ (sign = minus ∧ n = bound)

instance (bound : Nat) (sign : Sign) (n : Nat) : Decidable (Fits bound sign n) :=
  inferInstanceAs (Decidable (_ ∨ _))

theorem fits_of {bound : Nat} {z : Int} (hlow : -bound ≤ z) (hhigh : z < bound) :
    Fits bound (of z) z.natAbs := by
  unfold Fits of
  split
  · simp only [true_and]
    omega
  · left
    omega

end Sign

variable {digits cs : List Char} {n : Nat}

theorem Denotes.ne_cons (h : Denotes digits n) {c : Char} (hc : c.isDigit = false)
    (rest : List Char) : digits = c :: rest → False := by
  rintro rfl
  rw [h.isDigit c (List.mem_cons_self ..)] at hc
  cases hc

theorem unsigned?_written (h : Denotes digits n) (bound : Nat) (sign : Sign) :
    unsigned? bound (sign.written ++ digits) =
      if sign ≠ .minus ∧ n < bound then some n else none := by
  have hdigits : natural? digits = some n := natural?_eq_some.2 h
  cases sign with
  | absent =>
      have hread : unsigned? bound digits = (natural? digits).filter (· < bound) :=
        unsigned?.eq_2 bound digits (h.ne_cons rfl)
      simp [Sign.written, hread, hdigits, Option.filter_some]
  | plus => simp [Sign.written, unsigned?, hdigits, Option.filter_some]
  | minus =>
      have hnone : natural? ('-' :: digits) = none := by simp [natural?]
      simp [Sign.written, unsigned?, hnone]

theorem signed?_written (h : Denotes digits n) (bound : Nat) (sign : Sign) :
    signed? bound (sign.written ++ digits) =
      if sign.Fits bound n then some (sign.apply n) else none := by
  have hdigits : natural? digits = some n := natural?_eq_some.2 h
  cases sign with
  | absent =>
      have hread : signed? bound digits = ((natural? digits).filter (· < bound)).map Int.ofNat :=
        signed?.eq_3 bound digits (h.ne_cons rfl) (h.ne_cons rfl)
      by_cases hlow : n < bound <;>
        simp [Sign.written, Sign.Fits, Sign.apply, hread, hdigits, Option.filter_some, hlow]
  | plus =>
      by_cases hlow : n < bound <;>
        simp [Sign.written, Sign.Fits, Sign.apply, signed?, hdigits, Option.filter_some, hlow]
  | minus =>
      by_cases hlow : n ≤ bound <;>
        simp [Sign.written, Sign.Fits, Sign.apply, signed?, hdigits, Option.filter_some, hlow,
          ← Nat.le_iff_lt_or_eq]

theorem exists_written_of_unsigned? {bound : Nat} (h : unsigned? bound cs = some n) :
    ∃ (sign : Sign) (digits : List Char), Denotes digits n ∧ cs = sign.written ++ digits := by
  unfold unsigned? at h
  split at h
  next digits =>
    exact ⟨.plus, digits, natural?_eq_some.1 (Option.eq_some_of_filter_eq_some h), rfl⟩
  next => exact ⟨.absent, cs, natural?_eq_some.1 (Option.eq_some_of_filter_eq_some h), rfl⟩

theorem exists_written_of_signed? {bound : Nat} {z : Int} (h : signed? bound cs = some z) :
    ∃ (sign : Sign) (digits : List Char) (n : Nat),
      Denotes digits n ∧ cs = sign.written ++ digits := by
  have hread (digits : List Char) (hsome : natural? digits ≠ none) : ∃ n, Denotes digits n := by
    obtain ⟨n, hn⟩ := Option.ne_none_iff_exists'.1 hsome
    exact ⟨n, natural?_eq_some.1 hn⟩
  unfold signed? at h
  split at h
  next digits =>
    obtain ⟨n, hn⟩ := hread digits fun hnone => by simp [hnone] at h
    exact ⟨.minus, digits, n, hn, rfl⟩
  next digits =>
    obtain ⟨n, hn⟩ := hread digits fun hnone => by simp [hnone] at h
    exact ⟨.plus, digits, n, hn, rfl⟩
  next =>
    obtain ⟨n, hn⟩ := hread cs fun hnone => by simp [hnone] at h
    exact ⟨.absent, cs, n, hn, rfl⟩

theorem isBlank_of_isDigit {c : Char} (h : c.isDigit = true) : isBlank c = false := by
  have hrange := Char.isDigit_iff_toNat.1 h
  simp only [isBlank]
  grind

theorem Sign.isBlank_of_mem_written (sign : Sign) : ∀ c ∈ sign.written, isBlank c = false := by
  cases sign with
  | absent => exact nofun
  | plus => exact List.forall_mem_singleton.2 rfl
  | minus => exact List.forall_mem_singleton.2 rfl

theorem trimStart_append {before : List Char} (h : ∀ c ∈ before, isBlank c = true)
    (rest : List Char) : trimStart (before ++ rest) = trimStart rest :=
  List.dropWhile_append_of_pos h

theorem trimStart_eq_self {core : List Char} (h : ∀ c ∈ core, isBlank c = false)
    (hne : core ≠ []) (rest : List Char) : trimStart (core ++ rest) = core ++ rest := by
  cases core with
  | nil => exact absurd rfl hne
  | cons c core => exact List.dropWhile_cons_of_neg (by simp [h c (List.mem_cons_self ..)])

theorem trim_eq_core {before core after : List Char}
    (hblank : ∀ c ∈ before ++ after, isBlank c = true) (hcore : ∀ c ∈ core, isBlank c = false)
    (hne : core ≠ []) : trim (before ++ core ++ after) = core := by
  rw [List.forall_mem_append] at hblank
  have hcore' : ∀ c ∈ core.reverse, isBlank c = false := fun c hc => hcore c (List.mem_reverse.1 hc)
  have hafter : ∀ c ∈ after.reverse, isBlank c = true :=
    fun c hc => hblank.2 c (List.mem_reverse.1 hc)
  have hback := trimStart_eq_self hcore' (mt List.reverse_eq_nil_iff.1 hne) []
  rw [List.append_nil] at hback
  rw [trim, List.append_assoc, trimStart_append hblank.1, trimStart_eq_self hcore hne after,
    trimEnd, List.reverse_append, trimStart_append hafter, hback, List.reverse_reverse]

theorem exists_blanks (cs : List Char) : ∃ blanks,
    (∀ c ∈ blanks, isBlank c = true) ∧ cs = blanks ++ trimStart cs :=
  ⟨cs.takeWhile isBlank, fun _ => List.mem_takeWhile_imp, List.takeWhile_append_dropWhile.symm⟩

theorem exists_blanks_around (cs : List Char) : ∃ before after,
    (∀ c ∈ before ++ after, isBlank c = true) ∧ cs = before ++ trim cs ++ after := by
  obtain ⟨before, hbefore, hfront⟩ := exists_blanks cs
  obtain ⟨after, hafter, hback⟩ := exists_blanks (trimStart cs).reverse
  refine ⟨before, after.reverse, List.forall_mem_append.2 ⟨hbefore, ?_⟩, ?_⟩
  · exact fun c hc => hafter c (List.mem_reverse.1 hc)
  · have hrest : trimStart cs = trim cs ++ after.reverse := by
      rw [trim, trimEnd, ← List.reverse_append, ← hback, List.reverse_reverse]
    rw [List.append_assoc, ← hrest]
    exact hfront

def Spells (cs : List Char) (sign : Sign) (n : Nat) : Prop :=
  ∃ before digits after, (∀ c ∈ before ++ after, isBlank c = true) ∧ Denotes digits n ∧
    cs = before ++ (sign.written ++ digits) ++ after

variable {sign : Sign}

theorem Spells.exists_trim (h : Spells cs sign n) :
    ∃ digits, Denotes digits n ∧ trim cs = sign.written ++ digits := by
  obtain ⟨before, digits, after, hblank, hdigits, rfl⟩ := h
  refine ⟨digits, hdigits, trim_eq_core hblank (List.forall_mem_append.2 ⟨?_, ?_⟩) ?_⟩
  · exact sign.isBlank_of_mem_written
  · exact fun c hc => isBlank_of_isDigit (hdigits.isDigit c hc)
  · exact List.append_ne_nil_of_right_ne_nil _ hdigits.nonempty

theorem spells_of_trim {digits : List Char} (hdigits : Denotes digits n)
    (h : trim cs = sign.written ++ digits) : Spells cs sign n := by
  obtain ⟨before, after, hblank, hcs⟩ := exists_blanks_around cs
  exact ⟨before, digits, after, hblank, hdigits, h ▸ hcs⟩

theorem unsigned?_trim (h : Spells cs sign n) (bound : Nat) :
    unsigned? bound (trim cs) = if sign ≠ .minus ∧ n < bound then some n else none := by
  obtain ⟨digits, hdigits, htrim⟩ := h.exists_trim
  rw [htrim, unsigned?_written hdigits]

theorem signed?_trim (h : Spells cs sign n) (bound : Nat) :
    signed? bound (trim cs) = if sign.Fits bound n then some (sign.apply n) else none := by
  obtain ⟨digits, hdigits, htrim⟩ := h.exists_trim
  rw [htrim, signed?_written hdigits]

theorem unsigned?_trim_eq_some {bound : Nat} :
    unsigned? bound (trim cs) = some n ↔ ∃ sign, Spells cs sign n ∧ sign ≠ .minus ∧ n < bound := by
  constructor
  · intro h
    obtain ⟨sign, digits, hdigits, htrim⟩ := exists_written_of_unsigned? h
    rw [htrim, unsigned?_written hdigits] at h
    refine ⟨sign, spells_of_trim hdigits htrim, ?_⟩
    by_contra hnot
    rw [if_neg hnot] at h
    cases h
  · rintro ⟨sign, hspells, hfits⟩
    rw [unsigned?_trim hspells, if_pos hfits]

theorem signed?_trim_eq_some {bound : Nat} {z : Int} :
    signed? bound (trim cs) = some z ↔
      ∃ sign n, Spells cs sign n ∧ sign.Fits bound n ∧ z = sign.apply n := by
  constructor
  · intro h
    obtain ⟨sign, digits, n, hdigits, htrim⟩ := exists_written_of_signed? h
    rw [htrim, signed?_written hdigits] at h
    split at h
    case isTrue hfits =>
      cases h
      exact ⟨sign, n, spells_of_trim hdigits htrim, hfits, rfl⟩
    case isFalse => cases h
  · rintro ⟨sign, n, hspells, hfits, rfl⟩
    rw [signed?_trim hspells, if_pos hfits]

end BuildFeed.Text
