import BuildFeed.Proofs.Framing.Packet

namespace BuildFeed

variable {α : Type}

theorem StreamError.isDisconnect_of_isEnd {ending : StreamError} (h : ending.isEnd = true) :
    ending.isDisconnect = true := by
  cases ending with
  | broken fault => cases h
  | endInField => rfl
  | endInBody => rfl

namespace ProtocolError

structure IsOfReading (error : ProtocolError) : Prop where
  once : error.isDesync = !error.isDisconnect
  ne_typeMismatch : ∀ expected actual, error ≠ .typeMismatch expected actual
  ne_missingValue : ∀ what, error ≠ .missingValue what
  ne_timestampOutOfRange : error ≠ .timestampOutOfRange

theorem isOfReading_of_isDesync {error : ProtocolError} (h : error.isDesync = true) :
    error.IsOfReading := by
  constructor
  · cases error with
    | stream _ => cases h
    | _ => exact h
  · rintro expected actual rfl
    cases h
  · rintro what rfl
    cases h
  · rintro rfl
    cases h

theorem isOfReading_of_isEnd {ending : StreamError} (h : ending.isEnd = true) :
    (stream ending).IsOfReading := by
  constructor
  · have hgone : (stream ending).isDisconnect = true := ending.isDisconnect_of_isEnd h
    rw [hgone]
    rfl
  · rintro expected actual ⟨⟩
  · rintro what ⟨⟩
  · rintro ⟨⟩

end ProtocolError

namespace Read

theorem Framed.isOfReading {r : Read α} (hr : r.Framed) {bytes : List UInt8}
    {error : ProtocolError} {s : Source} (h : r ⟨bytes, none⟩ = .error error s) :
    error.IsOfReading := by
  rcases hr bytes none with ⟨used, rest, outcome, rfl, hused⟩ | ⟨ending, hend, hout⟩
  · have hread := (hused.extend rest none).symm.trans h
    cases outcome with
    | ok a => cases hread
    | error e =>
        cases hread
        exact ProtocolError.isOfReading_of_isDesync (hused.desync error rfl)
  · cases hout.symm.trans h
    exact ProtocolError.isOfReading_of_isEnd hend

end Read

namespace Packet

theorem receive_isOfReading {terms : Terms} {bytes : List UInt8} {error : ProtocolError}
    {s : Source} (h : receive terms ⟨bytes, none⟩ = .error error s) : error.IsOfReading := by
  by_cases hne : bytes = []
  · subst hne
    cases h
  · rw [receive_of_ne_nil terms hne] at h
    exact ((readOne_framed terms).map some).isOfReading h

end Packet

namespace Codec

theorem instant_parse_word (terms : Terms) {word : List UInt8} (hword : word.length = 8)
    (rest : List UInt8) (fault : Option StreamFault) :
    ∃ t, instant.parse terms ⟨word ++ rest, fault⟩ = .ok t ⟨rest, fault⟩ := by
  have hbytes := Read.bytes_append .endInField word rest fault
  rw [hword] at hbytes
  have hint : int64.parse terms ⟨word ++ rest, fault⟩ =
      .ok (UInt64.ofNat (ofLittleEndian word)).toInt64 ⟨rest, fault⟩ := by
    simp only [parse, int64, uint64, iso, Codec.word, map_eq_pure_bind, bind_assoc, pure_bind]
    exact Read.bind_of_ok hbytes
  rw [parse.eq_def, instant_read, map_eq_pure_bind]
  exact ⟨_, Read.bind_of_ok hint⟩

end Codec

theorem read_failures_are_told_apart (terms : Terms) (bytes : List UInt8) :
    (∀ error s, Packet.receive terms ⟨bytes, none⟩ = .error error s → error.IsOfReading) ∧
    (∀ expected error s, Event.read terms expected ⟨bytes, none⟩ = .error error s →
      error.IsOfReading) ∧
    (∀ slot error s, Codec.projectErrorSlot.read terms slot ⟨bytes, none⟩ = .error error s →
      error.IsOfReading) ∧
    (∀ slot error s, Codec.loggerErrorSlot.read terms slot ⟨bytes, none⟩ = .error error s →
      error.IsOfReading) ∧
    ∀ word : List UInt8, word.length = 8 → ∀ fault,
      ∃ t, Codec.instant.parse terms ⟨word ++ bytes, fault⟩ = .ok t ⟨bytes, fault⟩ := by
  refine ⟨?_, ?_, ?_, ?_, ?_⟩
  · intro error s h
    exact Packet.receive_isOfReading h
  · intro expected error s h
    exact (Event.read_framed terms expected).isOfReading h
  · intro slot error s h
    exact ((Codec.projectError_framed.parse terms).map some).isOfReading h
  · intro slot error s h
    exact ((Codec.loggerError_framed.parse terms).map some).isOfReading h
  · intro word hword fault
    exact Codec.instant_parse_word terms hword bytes fault

theorem broken_bytes_are_told_apart :
    let terms : Terms := { version := 3 }
    let bytes : List UInt8 := [1, 0, 0, 0, 2, 7]
    let flag : ProtocolError := .invalidBool 7
    let shape : ProtocolError := .shapeMismatch .buildStarted 1
    let length : ProtocolError := .lengthOutOfRange "string" 33554432 16777216
    (Packet.receive terms ⟨bytes, none⟩ = .error flag ⟨[], none⟩ ∧ flag.IsOfReading) ∧
      (Event.read terms .buildStarted ⟨bytes, none⟩ = .error shape ⟨[0, 0, 0, 2, 7], none⟩ ∧
        shape.IsOfReading) ∧
      (Codec.projectErrorSlot.read terms none ⟨bytes, none⟩ = .error length ⟨[7], none⟩ ∧
        length.IsOfReading) ∧
      (Codec.loggerErrorSlot.read terms none ⟨bytes, none⟩ = .error length ⟨[7], none⟩ ∧
        length.IsOfReading) ∧
      ∃ t, Codec.instant.parse terms ⟨[0, 0, 0, 0, 0, 0, 0, 128] ++ bytes, none⟩ =
        .ok t ⟨bytes, none⟩ := by
  intro terms bytes flag shape length
  obtain ⟨hpacket, hevent, hproject, hlogger, hinstant⟩ := read_failures_are_told_apart terms bytes
  have hflag : Packet.receive terms ⟨bytes, none⟩ = .error flag ⟨[], none⟩ := by rfl
  have hshape : Event.read terms .buildStarted ⟨bytes, none⟩ =
      .error shape ⟨[0, 0, 0, 2, 7], none⟩ := by rfl
  have hlength : Codec.projectErrorSlot.read terms none ⟨bytes, none⟩ =
      .error length ⟨[7], none⟩ := by rfl
  have hlength' : Codec.loggerErrorSlot.read terms none ⟨bytes, none⟩ =
      .error length ⟨[7], none⟩ := by rfl
  exact ⟨⟨hflag, hpacket _ _ hflag⟩, ⟨hshape, hevent _ _ _ hshape⟩,
    ⟨hlength, hproject _ _ _ hlength⟩, ⟨hlength', hlogger _ _ _ hlength'⟩, hinstant _ rfl none⟩

end BuildFeed
