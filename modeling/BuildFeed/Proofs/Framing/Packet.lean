import BuildFeed.Packet
import BuildFeed.Proofs.Framing.Codec

namespace BuildFeed

namespace Codec

theorem contextIds_framed : contextIds.Framed :=
  (int32_framed.pair (int32_framed.pair (int32_framed.pair (int32_framed.pair
    (int32_framed.pair int32_framed))))).iso _ _

theorem context_framed : context.Framed :=
  contextIds_framed.optional.iso _ _

theorem span_framed : span.Framed :=
  (int32_framed.pair (int32_framed.pair (int32_framed.pair int32_framed))).iso _ _

theorem projectStart_framed : projectStart.Framed :=
  (int32_framed.pair (contextIds_framed.optional.pair (optionalText_framed.pair
    (textList_framed.pair properties_framed)))).iso _ _

theorem projectFinish_framed : projectFinish.Framed :=
  (bool_framed.pair optionalText_framed).iso _ _

theorem targetStart_framed : targetStart.Framed :=
  (optionalText_framed.pair (optionalText_framed.pair (optionalText_framed.pair
    (optionalText_framed.pair coded_framed)))).iso _ _

theorem targetFinish_framed : targetFinish.Framed :=
  (optionalText_framed.pair (optionalText_framed.pair (optionalText_framed.pair
    bool_framed))).iso _ _

theorem diagnostic_framed : diagnostic.Framed :=
  (optionalText_framed.pair (optionalText_framed.pair (optionalText_framed.pair
    (optionalText_framed.pair (span_framed.pair
      (optionalText_framed.since helpLinkVersion)))))).iso _ _

theorem note_framed : note.Framed :=
  (optionalText_framed.pair (optionalText_framed.pair (optionalText_framed.pair
    (optionalText_framed.pair (coded_framed.pair span_framed))))).iso _ _

end Codec

theorem EventKind.read_framed (terms : Terms) (type : EventType) : (read terms type).Framed := by
  cases type with
  | custom => exact Read.framed_pure custom
  | buildStarted => exact Read.framed_pure buildStarted
  | buildFinished => exact (Codec.bool_framed.parse terms).map _
  | projectStarted => exact (Codec.projectStart_framed.parse terms).map _
  | projectFinished => exact (Codec.projectFinish_framed.parse terms).map _
  | targetStarted => exact (Codec.targetStart_framed.parse terms).map _
  | targetFinished => exact (Codec.targetFinish_framed.parse terms).map _
  | error => exact (Codec.diagnostic_framed.parse terms).map _
  | warning => exact (Codec.diagnostic_framed.parse terms).map _
  | message => exact (Codec.note_framed.parse terms).map _

namespace Arg

theorem readTyped_framed (terms : Terms) (value : String) : (readTyped terms value).Framed := by
  refine (Codec.coded_framed.parse terms).bind ?_
  intro kind
  cases kind with
  | text => exact Read.framed_pure (text value)
  | integer => exact (Codec.int64_framed.parse terms).map integer
  | decimal => exact (Codec.uint64_framed.parse terms).map _

theorem readAll_framed (terms : Terms) (values : List String) : (readAll terms values).Framed := by
  rw [readAll]
  split
  · exact Read.framed_pure (values.map text)
  · exact Read.framed_mapM (readTyped_framed terms) values

end Arg

namespace Event

theorem readArgTexts_framed (terms : Terms) (type : EventType) :
    (readArgTexts terms type).Framed := by
  rw [readArgTexts]
  split
  · refine (Codec.argTexts_framed.parse terms).bind ?_
    intro texts
    exact (Codec.optionalText_framed.parse terms).bind fun locale => Read.framed_pure (texts, locale)
  · exact Read.framed_pure (none, none)

theorem read_framed (terms : Terms) (expected : EventType) : (read terms expected).Framed := by
  have hargs (texts : Option (List String)) : (texts.mapM (Arg.readAll terms)).Framed := by
    cases texts with
    | none => exact Read.framed_pure none
    | some texts => exact (Arg.readAll_framed terms texts).map some
  refine (Codec.byte_framed.parse terms).bind fun shape => ?_
  refine Read.Framed.guarded rfl fun _ => ?_
  refine (Codec.optionalText_framed.parse terms).bind fun text => ?_
  refine (Codec.optionalText_framed.parse terms).bind fun help => ?_
  refine (Codec.optionalText_framed.parse terms).bind fun sender => ?_
  refine (Codec.instant_framed.parse terms).bind fun time => ?_
  refine (Codec.int32_framed.parse terms).bind fun thread => ?_
  refine (Codec.context_framed.parse terms).bind fun context => ?_
  refine (readArgTexts_framed terms expected).bind fun texts => ?_
  refine (EventKind.read_framed terms expected).bind fun kind => ?_
  exact (hargs texts.1).bind fun args => Read.framed_pure _

end Event

namespace Codec

theorem optionalEvent_framed : optionalEvent.Framed := by
  intro terms e?
  refine (bool_framed terms e?.isSome).bind fun present => ?_
  cases present with
  | false => exact Read.framed_pure none
  | true =>
      refine (int32_framed terms _).bind fun code => ?_
      cases (Coded.ofCode? code : Option EventType) with
      | none => exact Read.framed_throw rfl
      | some type => exact (Event.read_framed terms type).map some

theorem projectError_framed : projectError.Framed :=
  (optionalText_framed.pair (optionalText_framed.pair (span_framed.pair
    (optionalText_framed.pair (optionalText_framed.pair
      (optionalText_framed.pair bool_framed)))))).iso _ _

theorem loggerError_framed : loggerError.Framed :=
  (optionalText_framed.pair (optionalText_framed.pair (optionalEvent_framed.pair
    (optionalText_framed.pair (optionalText_framed.pair bool_framed))))).iso _ _

end Codec

namespace Packet

theorem readTagged_framed (terms : Terms) (tag : Int32) : (readTagged terms tag).Framed := by
  rw [readTagged]
  split
  · exact (Codec.projectError_framed.parse terms).map projectError
  · split
    · exact (Codec.loggerError_framed.parse terms).map loggerError
    · cases (Coded.ofCode? tag : Option EventType) with
      | none => exact Read.framed_throw rfl
      | some type => exact (Event.read_framed terms type).map event

theorem readOne_framed (terms : Terms) : (readOne terms).Framed :=
  (Codec.int32_framed.parse terms).bind (readTagged_framed terms)

variable {terms : Terms} {bytes used : List UInt8} {fault : Option StreamFault}

theorem ne_nil_of_settles {outcome : Except ProtocolError Packet}
    (h : (readOne terms).Settles used outcome) : used ≠ [] := by
  rintro rfl
  have hend : readOne terms ⟨[], none⟩ = .error (.stream .endInField) ⟨[], none⟩ := rfl
  have hread := hend.symm.trans (h.extend [] none)
  cases outcome with
  | ok p => cases hread
  | error error =>
      cases hread
      cases h.desync _ rfl

theorem receive_extend {outcome : Except ProtocolError Packet}
    (h : (readOne terms).Settles used outcome) (rest : List UInt8) (fault : Option StreamFault) :
    receive terms ⟨used ++ rest, fault⟩ = Read.result (outcome.map some) ⟨rest, fault⟩ := by
  have hne := List.append_ne_nil_of_left_ne_nil (ne_nil_of_settles h) rest
  rw [receive_of_ne_nil terms hne, map_eq_pure_bind]
  cases outcome with
  | ok p => exact Read.bind_of_ok (h.extend rest fault)
  | error error => exact Read.bind_of_error (h.extend rest fault)

theorem receive_runsOut (hne : bytes ≠ []) (h : (readOne terms).RunsOut ⟨bytes, fault⟩) :
    (receive terms).RunsOut ⟨bytes, fault⟩ := by
  obtain ⟨ending, hend, hread⟩ := h.map some
  exact ⟨ending, hend, (receive_of_ne_nil terms hne fault).trans hread⟩

theorem receive_cut {outcome : Except ProtocolError Packet}
    (h : (readOne terms).Settles used outcome) {front back : List UInt8}
    (hsplit : front ++ back = used) (hfront : front ≠ []) (hback : back ≠ [])
    (fault : Option StreamFault) : (receive terms).RunsOut ⟨front, fault⟩ :=
  receive_runsOut hfront (h.cut front back fault hsplit hback)

theorem receive_cases (terms : Terms) (hne : bytes ≠ []) (fault : Option StreamFault) :
    (∃ used rest outcome, bytes = used ++ rest ∧ (readOne terms).Settles used outcome ∧
      receive terms ⟨bytes, fault⟩ = Read.result (outcome.map some) ⟨rest, fault⟩) ∨
    (receive terms).RunsOut ⟨bytes, fault⟩ := by
  rcases readOne_framed terms bytes fault with ⟨used, rest, outcome, rfl, h⟩ | hout
  · exact .inl ⟨used, rest, outcome, rfl, h, receive_extend h rest fault⟩
  · exact .inr (receive_runsOut hne hout)

theorem receive_eq_some {p : Packet} {s : Source} (h : receive terms ⟨bytes, fault⟩ = .ok (some p) s) :
    ∃ used rest, bytes = used ++ rest ∧ s = ⟨rest, fault⟩ ∧ (readOne terms).Settles used (.ok p) := by
  have hne : bytes ≠ [] := by
    rintro rfl
    cases fault <;> cases h
  rcases receive_cases terms hne fault with ⟨used, rest, outcome, hbytes, hused, hread⟩ | ⟨_, _, hread⟩
  · rw [h] at hread
    cases outcome with
    | error error => cases hread
    | ok q =>
        cases hread
        exact ⟨used, rest, hbytes, rfl, hused⟩
  · rw [h] at hread
    cases hread

theorem receive_eq_desync {error : ProtocolError} {s : Source}
    (h : receive terms ⟨bytes, fault⟩ = .error error s) (hdesync : error.isDesync = true) :
    ∃ used rest, bytes = used ++ rest ∧ s = ⟨rest, fault⟩ ∧
      (readOne terms).Settles used (.error error) := by
  have hne : bytes ≠ [] := by
    rintro rfl
    cases fault with
    | none => cases h
    | some fault =>
        cases h
        cases hdesync
  rcases receive_cases terms hne fault with ⟨used, rest, outcome, hbytes, hused, hread⟩ | ⟨_, _, hread⟩
  · rw [h] at hread
    cases outcome with
    | ok p => cases hread
    | error found =>
        cases hread
        exact ⟨used, rest, hbytes, rfl, hused⟩
  · rw [h] at hread
    cases hread
    cases hdesync

theorem receive_take_runsOut {p : Packet} (h : (readOne terms).Settles used (.ok p)) {j : Nat}
    (hpos : 0 < j) (hj : j < used.length) (rest : List UInt8) (fault : Option StreamFault) :
    (receive terms).RunsOut ⟨(used ++ rest).take j, fault⟩ := by
  have htake : (used ++ rest).take j = used.take j := List.take_append_of_le_length (by omega)
  have hfront : used.take j ≠ [] := by
    rw [← List.length_pos_iff, List.length_take]
    omega
  have hback : used.drop j ≠ [] := by
    rw [← List.length_pos_iff, List.length_drop]
    omega
  rw [htake]
  exact receive_cut h (List.take_append_drop j used) hfront hback fault

theorem receive_shortens {p : Packet} {s : Source} (h : receive terms ⟨bytes, fault⟩ = .ok (some p) s) :
    s.bytes.length < bytes.length := by
  obtain ⟨used, rest, rfl, rfl, hused⟩ := receive_eq_some h
  have hpos := List.length_pos_iff.2 (ne_nil_of_settles hused)
  change rest.length < (used ++ rest).length
  rw [List.length_append]
  omega

theorem receiveUpTo_congr {m n : Nat} {s : Source} (hm : s.bytes.length < m)
    (hn : s.bytes.length < n) : receiveUpTo terms m s = receiveUpTo terms n s := by
  induction m generalizing n s with
  | zero => omega
  | succ m ih =>
      cases n with
      | zero => omega
      | succ n =>
          simp only [receiveUpTo]
          cases h : receive terms s with
          | error error t => rfl
          | ok p? t =>
              cases p? with
              | none => rfl
              | some p =>
                  have hshort := receive_shortens h
                  have hrest : receiveUpTo terms m t = receiveUpTo terms n t :=
                    ih (by omega) (by omega)
                  simp only [hrest]

theorem receiveAll_of_some {p : Packet} {s t : Source} (h : receive terms s = .ok (some p) t) :
    receiveAll terms s = (p :: (receiveAll terms t).1, (receiveAll terms t).2) := by
  have hshort := receive_shortens h
  have hrest : receiveUpTo terms s.bytes.length t = receiveAll terms t :=
    receiveUpTo_congr hshort (Nat.lt_succ_self _)
  rw [← hrest, receiveAll]
  simp only [receiveUpTo, h]

theorem receiveAll_of_error {e : ProtocolError} {s t : Source} (h : receive terms s = .error e t) :
    receiveAll terms s = ([], some e) := by
  simp only [receiveAll, receiveUpTo, h]

theorem receiveAll_of_none {s t : Source} (h : receive terms s = .ok none t) :
    receiveAll terms s = ([], none) := by
  simp only [receiveAll, receiveUpTo, h]

theorem receiveAll_nil (terms : Terms) : receiveAll terms ⟨[], none⟩ = ([], none) := rfl

end Packet

end BuildFeed
