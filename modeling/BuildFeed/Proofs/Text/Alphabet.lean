import BuildFeed.Text.Numeral
import Mathlib.Data.List.Basic
import Mathlib.Data.Nat.Log

namespace BuildFeed.Text

def decimalDigits : List Char :=
  "0123456789".toList

def lowerHexDigits : List Char :=
  "0123456789abcdef".toList

def upperHexDigits : List Char :=
  "0123456789ABCDEF".toList

variable {alphabet : List Char} {f : Char → Char}

def numberIn (alphabet digits : List Char) : Nat :=
  digits.foldl (fun number digit => alphabet.length * number + alphabet.idxOf digit) 0

structure ShowsIn (alphabet : List Char) (width n : Nat) (shown : List Char) : Prop where
  digits : ∀ c ∈ shown, c ∈ alphabet
  length : shown.length = max width (Nat.log alphabet.length n + 1)
  number : numberIn alphabet shown = n

theorem length_toDigits {base : Nat} (h : 1 < base) (n : Nat) :
    (Nat.toDigits base n).length = Nat.log base n + 1 := by
  refine Nat.le_antisymm ?_ ?_
  · exact (Nat.length_toDigits_le_iff h (Nat.succ_pos _)).2 (Nat.lt_pow_succ_log_self h n)
  · rw [Nat.succ_le_iff]
    by_contra hshort
    have hpos : 0 < (Nat.toDigits base n).length := List.length_pos_of_ne_nil Nat.toDigits_ne_nil
    have hlog : 0 < Nat.log base n := hpos.trans_le (Nat.not_lt.1 hshort)
    have hlow := (Nat.length_toDigits_le_iff h hlog).1 (Nat.not_lt.1 hshort)
    have hne : n ≠ 0 := by
      rintro rfl
      simp at hlog
    exact absurd (Nat.pow_log_le_self base hne) (Nat.not_le.2 hlow)

theorem numberIn_concat (alphabet digits : List Char) (digit : Char) :
    numberIn alphabet (digits ++ [digit]) =
      alphabet.length * numberIn alphabet digits + alphabet.idxOf digit := by
  simp [numberIn]

theorem numberIn_zeros (h : alphabet.idxOf '0' = 0) (count : Nat) (digits : List Char) :
    numberIn alphabet (List.replicate count '0' ++ digits) = numberIn alphabet digits := by
  induction count with
  | zero => rfl
  | succ count ih =>
      rw [← ih, List.replicate_succ, List.cons_append]
      simp [numberIn, h]

theorem toDigits_shows (hbase : 1 < alphabet.length)
    (hdigits : ∀ d < alphabet.length, alphabet.idxOf (f d.digitChar) = d) (n : Nat) :
    (∀ c ∈ (Nat.toDigits alphabet.length n).map f, c ∈ alphabet) ∧
      numberIn alphabet ((Nat.toDigits alphabet.length n).map f) = n := by
  have hmem (d : Nat) (hd : d < alphabet.length) : f d.digitChar ∈ alphabet := by
    rw [← List.idxOf_lt_length_iff, hdigits d hd]
    exact hd
  -- By the digits from the last one on: the number without it is the quotient.
  induction n using Nat.strongRecOn with
  | ind n ih =>
      rw [Nat.toDigits_eq_if hbase]
      split
      case isTrue hsmall =>
        exact ⟨by simpa using hmem n hsmall, by simp [numberIn, hdigits n hsmall]⟩
      case isFalse hlarge =>
        have hlast : n % alphabet.length < alphabet.length := Nat.mod_lt n (by omega)
        obtain ⟨hfront, hnumber⟩ := ih (n / alphabet.length) (Nat.div_lt_self (by omega) hbase)
        rw [List.map_append, List.map_singleton, List.forall_mem_append, numberIn_concat, hnumber,
          hdigits _ hlast]
        exact ⟨⟨hfront, by simpa using hmem _ hlast⟩, Nat.div_add_mod n alphabet.length⟩

theorem showsIn_zeroPadded (alphabet : List Char) (f : Char → Char) (hbase : 1 < alphabet.length)
    (hdigits : ∀ d < alphabet.length, alphabet.idxOf (f d.digitChar) = d)
    (hzero : f '0' = '0') (width n : Nat) :
    ShowsIn alphabet width n (zeroPadded width ((Nat.toDigits alphabet.length n).map f)) := by
  have hidx : alphabet.idxOf '0' = 0 := hzero ▸ hdigits 0 (by omega)
  have hmem : '0' ∈ alphabet := by
    rw [← List.idxOf_lt_length_iff, hidx]
    omega
  obtain ⟨hdigit, hnumber⟩ := toDigits_shows hbase hdigits n
  rw [zeroPadded, List.leftpad]
  refine ⟨List.forall_mem_append.2 ⟨?_, hdigit⟩, ?_, ?_⟩
  · exact fun c hc => List.eq_of_mem_replicate hc ▸ hmem
  · rw [List.length_append, List.length_replicate, List.length_map, length_toDigits hbase]
    omega
  · rw [numberIn_zeros hidx, hnumber]

theorem decimal_showsIn (width n : Nat) :
    ShowsIn decimalDigits width n (zeroPadded width (decimal n)) := by
  have h := showsIn_zeroPadded decimalDigits id (by decide) (by decide) rfl width n
  rwa [List.map_id] at h

theorem lowerHex_showsIn (width n : Nat) :
    ShowsIn lowerHexDigits width n (zeroPadded width (hexadecimal n)) := by
  have h := showsIn_zeroPadded lowerHexDigits id (by decide) (by decide) rfl width n
  rwa [List.map_id] at h

theorem upperHex_showsIn (width n : Nat) :
    ShowsIn upperHexDigits width n (zeroPadded width ((hexadecimal n).map Char.toUpper)) :=
  showsIn_zeroPadded upperHexDigits Char.toUpper (by decide) (by decide) rfl width n

end BuildFeed.Text
