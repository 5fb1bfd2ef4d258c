import BuildFeed.Proofs.Transfer.Codec

namespace BuildFeed

namespace Instant

def InWord (t : Instant) : Prop :=
  -9223372036854775808 ≤ t.seconds * 1000000000 + t.nanos ∧
    t.seconds * 1000000000 + t.nanos ≤ 9223372036854775807

instance : DecidablePred InWord :=
  fun _ => inferInstanceAs (Decidable (_ ∧ _))

theorem toWord?_of_inWord {t : Instant} (h : t.InWord) :
    t.toWord? = some (Int64.ofInt t.toNanos) :=
  if_pos h

theorem toWord?_of_not_inWord {t : Instant} (h : ¬t.InWord) : t.toWord? = none :=
  if_neg h

theorem inWord_ofNanos (n : Int64) : (ofNanos n.toInt).InWord := by
  have hrange : Int64.minValue.toInt ≤ n.toInt ∧ n.toInt ≤ Int64.maxValue.toInt :=
    ⟨n.minValue_le_toInt, n.toInt_le⟩
  rw [← toNanos_ofNanos n.toInt] at hrange
  exact hrange

theorem normal_of_leap {t : Instant} (hleap : nanosPerSecond ≤ t.nanos)
    (hlt : t.nanos < 2 * nanosPerSecond) :
    t.normal = ⟨t.seconds + 1, t.nanos - nanosPerSecond⟩ := by
  rw [normal, ofNanos_eq_iff]
  simp only [toNanos, nanosPerSecond] at hleap hlt ⊢
  omega

end Instant

theorem Sink.deliver_fail (sink : Sink) (error : ProtocolError) :
    sink.deliver (.fail error) = ⟨[], some error, sink⟩ := by
  cases sink with
  | endless => rfl
  | limited room fault => rfl

namespace Codec

def wordBytes (n : Int64) : List UInt8 :=
  (List.range 8).map fun i => UInt8.ofNat (n.toUInt64.toNat / Nat.pow 256 i)

theorem littleEndian_eq_map (width n : Nat) :
    littleEndian width n = (List.range width).map fun i => UInt8.ofNat (n / Nat.pow 256 i) := by
  induction width generalizing n with
  | zero => rfl
  | succ width ih =>
      rw [littleEndian, ih, List.range_succ_eq_map, List.map_cons, List.map_map]
      have hrest (i : Nat) : n / 256 / Nat.pow 256 i = n / Nat.pow 256 (i + 1) := by
        rw [Nat.div_div_eq_div_mul]
        exact congrArg (n / ·) Nat.pow_succ'.symm
      simp only [Function.comp_def, hrest, Nat.succ_eq_add_one]
      exact congrArg (UInt8.ofNat · :: _) (Nat.div_one n).symm

variable {terms : Terms} {t : Instant}

theorem instant_emit_of_inWord (h : t.InWord) :
    instant.emit terms t = .chunk (wordBytes (Int64.ofInt t.toNanos)) := by
  simp only [instant, Instant.toWord?_of_inWord h, wordBytes, ← littleEndian_eq_map]
  rfl

theorem instant_emit_of_not_inWord (h : ¬t.InWord) :
    instant.emit terms t = .fail .timestampOutOfRange := by
  simp only [instant, Instant.toWord?_of_not_inWord h]

theorem instant_emit_ofNanos (n : Int64) :
    instant.emit terms (.ofNanos n.toInt) = .chunk (wordBytes n) := by
  rw [instant_emit_of_inWord (Instant.inWord_ofNanos n), Instant.toNanos_ofNanos, Int64.ofInt_toInt]

theorem instant_read_emitted (h : t.InWord) (slot : Instant) (rest : List UInt8)
    (fault : Option StreamFault) :
    instant.read terms slot ⟨(instant.emit terms t).bytes ++ rest, fault⟩ =
      .ok t.normal ⟨rest, fault⟩ := by
  have hdone : (instant.emit terms t).failure = none := by
    rw [instant_emit_of_inWord h]
    rfl
  exact instant_carries terms.limits terms.limits ⟨Nat.le_refl _, Nat.le_refl _⟩ t hdone rest fault

theorem timestamps_are_exact (terms : Terms) :
    (∀ n : Int64, ∃ t : Instant,
      t.seconds * 1000000000 + t.nanos = n.toInt ∧ t.nanos < 1000000000 ∧
      (∀ slot rest fault, instant.read terms slot ⟨wordBytes n ++ rest, fault⟩ =
        .ok t ⟨rest, fault⟩) ∧
      instant.emit terms t = .chunk (wordBytes n)) ∧
    ∀ t : Instant,
      ((Sink.endless.deliver (instant.emit terms t)).failure = none ↔ t.InWord) ∧
      (¬t.InWord → ∀ sink : Sink,
        sink.deliver (instant.emit terms t) = ⟨[], some .timestampOutOfRange, sink⟩) ∧
      (t.InWord → t.nanos < 1000000000 → ∀ slot rest fault,
        instant.read terms slot ⟨(instant.emit terms t).bytes ++ rest, fault⟩ =
          .ok t ⟨rest, fault⟩) ∧
      (t.InWord → 1000000000 ≤ t.nanos → t.nanos < 2000000000 → ∀ slot rest fault,
        instant.read terms slot ⟨(instant.emit terms t).bytes ++ rest, fault⟩ =
          .ok ⟨t.seconds + 1, t.nanos - 1000000000⟩ ⟨rest, fault⟩) := by
  constructor
  · intro n
    obtain ⟨hnanos, hlt⟩ := Instant.ofNanos_eq_iff.1 (rfl : Instant.ofNanos n.toInt = _)
    have hnormal : (Instant.ofNanos n.toInt).normal = .ofNanos n.toInt := Instant.normal_of_lt hlt
    refine ⟨.ofNanos n.toInt, hnanos, hlt, ?_, instant_emit_ofNanos n⟩
    intro slot rest fault
    have hread : instant.read terms slot
        ⟨(instant.emit terms (.ofNanos n.toInt)).bytes ++ rest, fault⟩ =
          .ok (Instant.ofNanos n.toInt).normal ⟨rest, fault⟩ :=
      instant_read_emitted (Instant.inWord_ofNanos n) slot rest fault
    rwa [instant_emit_ofNanos, hnormal, Emission.bytes, Emission.chunk,
      List.flatten_singleton] at hread
  · intro t
    refine ⟨?_, ?_, ?_, ?_⟩
    · by_cases h : t.InWord
      · rw [instant_emit_of_inWord h]
        exact iff_of_true rfl h
      · rw [instant_emit_of_not_inWord h]
        exact iff_of_false (Option.some_ne_none _) h
    · intro h sink
      rw [instant_emit_of_not_inWord h]
      exact sink.deliver_fail _
    · intro h hlt slot rest fault
      rw [instant_read_emitted h, Instant.normal_of_lt hlt]
    · intro h hleap hlt slot rest fault
      rw [instant_read_emitted h, Instant.normal_of_leap hleap hlt]
      rfl

theorem extreme_and_leap_timestamps_are_exact :
    let terms : Terms := { version := 3 }
    let earliest : Instant := ⟨-9223372037, 145224192⟩
    let leap : Instant := ⟨-1, 1999999999⟩
    let late : Instant := ⟨9223372036, 854775808⟩
    instant.read terms .epoch ⟨[0, 0, 0, 0, 0, 0, 0, 128, 7], none⟩ = .ok earliest ⟨[7], none⟩ ∧
      instant.emit terms earliest = .chunk [0, 0, 0, 0, 0, 0, 0, 128] ∧
      instant.read terms .epoch ⟨(instant.emit terms leap).bytes ++ [7], none⟩ =
        .ok ⟨0, 999999999⟩ ⟨[7], none⟩ ∧
      Sink.endless.deliver (instant.emit terms late) =
        ⟨[], some .timestampOutOfRange, .endless⟩ := by
  intro terms earliest leap late
  obtain ⟨hwords, hinstants⟩ := timestamps_are_exact terms
  obtain ⟨t, hnanos, hlt, hread, hwrite⟩ := hwords Int64.minValue
  obtain ⟨-, -, -, hleap⟩ := hinstants leap
  obtain ⟨-, hlate, -⟩ := hinstants late
  have hmin : Int64.minValue.toInt = -9223372036854775808 := rfl
  have hbytes : wordBytes Int64.minValue = [0, 0, 0, 0, 0, 0, 0, 128] := by decide
  have ht : t = earliest := by
    obtain ⟨seconds, nanos⟩ := t
    rw [hmin] at hnanos
    have hparts : seconds = -9223372037 ∧ nanos = 145224192 := by
      dsimp only at hnanos hlt
      omega
    rw [hparts.1, hparts.2]
  have hnormal : (⟨leap.seconds + 1, leap.nanos - 1000000000⟩ : Instant) = ⟨0, 999999999⟩ := by
    decide
  rw [hbytes, ht] at hread hwrite
  rw [hnormal] at hleap
  refine ⟨hread .epoch [7] none, hwrite, ?_, hlate (by decide) .endless⟩
  exact hleap (by decide) (by decide) (by decide) .epoch [7] none

end Codec

end BuildFeed
