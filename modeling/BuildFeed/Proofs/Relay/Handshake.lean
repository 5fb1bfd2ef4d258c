import BuildFeed.Handshake
import BuildFeed.Proofs.Transfer.PacketStream

namespace BuildFeed.Handshake

theorem lower_eq_min (a b : Int32) : lower a b = min a b := by
  rw [lower, Std.min_eq_if]
  by_cases h : a ≤ b
  · rw [if_pos h, if_neg (Int32.not_lt.2 h)]
  · rw [if_neg h, if_pos (Int32.not_le.1 h)]

theorem versionBytes_length (version : Int32) : (versionBytes version).length = 4 :=
  Codec.length_littleEndian 4 _

theorem greeting_length (version : Int32) : (greeting version).length = 8 := by
  rw [greeting, List.length_append, versionBytes_length]
  rfl

theorem ofLittleEndian_versionBytes (version : Int32) :
    (UInt32.ofNat (Codec.ofLittleEndian (versionBytes version))).toInt32 = version := by
  have hlt : version.toUInt32.toNat < Nat.pow 256 4 := UInt32.toNat_lt _
  rw [versionBytes, Codec.ofLittleEndian_littleEndian, Nat.mod_eq_of_lt hlt, UInt32.ofNat_toNat,
    Int32.toInt32_toUInt32]

theorem readGreeting_greeting (version : Int32) (rest : List UInt8) (fault : Option StreamFault) :
    readGreeting ⟨greeting version ++ rest, fault⟩ =
      if version < oldestVersion then .error (.unsupportedVersion version) ⟨rest, fault⟩
      else .ok version ⟨rest, fault⟩ := by
  have hmark : Source.next .endInField 4 ⟨mark ++ (versionBytes version ++ rest), fault⟩ =
      .ok mark ⟨versionBytes version ++ rest, fault⟩ :=
    Source.next_append .endInField mark _ fault
  have hversion : Source.next .endInField 4 ⟨versionBytes version ++ rest, fault⟩ =
      .ok (versionBytes version) ⟨rest, fault⟩ := by
    have hnext := Source.next_append .endInField (versionBytes version) rest fault
    rwa [versionBytes_length] at hnext
  rw [greeting, List.append_assoc]
  simp only [readGreeting, bind, EStateM.bind, EStateM.adaptExcept, hmark, hversion,
    ofLittleEndian_versionBytes, ne_eq, not_true_eq_false, if_false]
  by_cases hold : version < oldestVersion
  · rw [if_pos hold, if_pos hold]
    rfl
  · rw [if_neg hold, if_neg hold]
    rfl

theorem negotiate_append {theirs : Int32} (h : oldestVersion ≤ theirs) {ours : Int32} {sink : Sink}
    (hsink : (sink.accept (greeting ours)).fault = none) (rest : List UInt8)
    (fault : Option StreamFault) :
    let outcome := negotiate ours ⟨greeting theirs ++ rest, fault⟩ sink
    outcome.result = .ok (min ours theirs) ∧ outcome.written = greeting ours ∧
      outcome.source = ⟨rest, fault⟩ := by
  have hread := readGreeting_greeting theirs rest fault
  rw [if_neg (Int32.not_lt.2 h)] at hread
  simp only [negotiate, hsink, hread, lower_eq_min, Sink.accept_done hsink, and_self]

theorem negotiate_old {theirs : Int32} (h : theirs < oldestVersion) {ours : Int32} {sink : Sink}
    (hsink : (sink.accept (greeting ours)).fault = none) (rest : List UInt8)
    (fault : Option StreamFault) :
    let outcome := negotiate ours ⟨greeting theirs ++ rest, fault⟩ sink
    outcome.result = .error (.unsupportedVersion theirs) ∧ outcome.written = greeting ours := by
  have hread := readGreeting_greeting theirs rest fault
  rw [if_pos h] at hread
  simp only [negotiate, hsink, hread, Sink.accept_done hsink, and_self]

theorem negotiate_silent {ours : Int32} {sink : Sink}
    (hsink : (sink.accept (greeting ours)).fault = none) (fault : Option StreamFault) :
    let outcome := negotiate ours ⟨[], fault⟩ sink
    (∃ error, outcome.result = .error (.stream error)) ∧ outcome.written = greeting ours := by
  have hread : readGreeting ⟨[], fault⟩ =
      .error (.stream (Source.shortage ⟨[], fault⟩ .endInField)) ⟨[], fault⟩ := rfl
  simp only [negotiate, hsink, hread, Sink.accept_done hsink, and_true]
  exact ⟨_, rfl⟩

end BuildFeed.Handshake
