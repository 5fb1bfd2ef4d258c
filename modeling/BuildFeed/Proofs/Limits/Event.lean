import BuildFeed.Proofs.Limits.Codec
import BuildFeed.Proofs.Transfer.Appended

namespace BuildFeed

open Extent (misfit? misfit?_append misfit?_eq_none misfit?_eq_some IsFirstMisfit)

namespace Codec

variable {version : Int32}

theorem parent_gauges : contextIds.optional.Gauges version (Option.map id) fun _ => [] := by
  refine contextIds_carries.optional.gauges ?_ ?_
  · intro terms c?
    cases c? <;> rfl
  · intro limits limits' c?
    cases c? <;> rfl

theorem context_gauges : context.Gauges version id fun _ => [] := by
  refine context_carries.gauges ?_ ?_
  · intro terms c
    change (contextIds.optional.emit terms (if c.isInvalid then none else some c)).failure = none
    split <;> rfl
  · intro limits limits' c
    change contextIds.optional.emit _ (if c.isInvalid then none else some c) =
      contextIds.optional.emit _ (if c.isInvalid then none else some c)
    split <;> rfl

theorem projectStart_gauges : projectStart.Gauges version ProjectStart.image
    fun start => (EventKind.projectStarted start).extents := by
  refine (int32_gauges.pair (parent_gauges.pair (optionalText_gauges.pair
    (textList_gauges.pair propertyTable_gauges.optional)))).iso ?_ ?_ ?_
  · intro terms
    rfl
  · intro start
    simp [ProjectStart.image]
  · intro start
    rfl

theorem projectFinish_gauges : projectFinish.Gauges version id
    fun finish => (EventKind.projectFinished finish).extents := by
  refine (bool_gauges.pair optionalText_gauges).iso ?_ ?_ ?_
  · intro terms
    rfl
  · intro finish
    rfl
  · intro finish
    rfl

theorem targetStart_gauges : targetStart.Gauges version id
    fun start => (EventKind.targetStarted start).extents := by
  refine (optionalText_gauges.pair (optionalText_gauges.pair (optionalText_gauges.pair
    (optionalText_gauges.pair coded_gauges)))).iso ?_ ?_ ?_
  · intro terms
    rfl
  · intro start
    rfl
  · intro start
    simp only [EventKind.extents, id, Prod.map, List.append_nil]

theorem targetFinish_gauges : targetFinish.Gauges version id
    fun finish => (EventKind.targetFinished finish).extents := by
  refine (optionalText_gauges.pair (optionalText_gauges.pair (optionalText_gauges.pair
    bool_gauges))).iso ?_ ?_ ?_
  · intro terms
    rfl
  · intro finish
    rfl
  · intro finish
    simp only [EventKind.extents, id, Prod.map, List.append_nil]

theorem diagnostic_gauges : diagnostic.Gauges version (Diagnostic.image version)
    fun d => (EventKind.error d).extents := by
  refine (optionalText_gauges.pair (optionalText_gauges.pair (optionalText_gauges.pair
    (optionalText_gauges.pair (span_gauges.pair
      (optionalText_gauges.since rfl rfl helpLinkVersion)))))).iso ?_ ?_ ?_
  · intro terms
    rfl
  · intro d
    rfl
  · intro d
    rfl

theorem note_gauges : note.Gauges version id fun n => (EventKind.message n).extents := by
  refine (optionalText_gauges.pair (optionalText_gauges.pair (optionalText_gauges.pair
    (optionalText_gauges.pair (coded_gauges.pair span_gauges))))).iso ?_ ?_ ?_
  · intro terms
    rfl
  · intro n
    rfl
  · intro n
    simp only [EventKind.extents, id, Prod.map, List.append_nil]

end Codec

namespace EventKind

variable {version : Int32}

theorem emit_failure (limits : Limits) (kind : EventKind) :
    (kind.emit ⟨version, limits⟩).failure = misfit? limits (kind.image version).extents := by
  cases kind with
  | custom => rfl
  | buildStarted => rfl
  | buildFinished succeeded => rfl
  | projectStarted start => exact Codec.projectStart_gauges.writes limits start
  | projectFinished finish => exact Codec.projectFinish_gauges.writes limits finish
  | targetStarted start => exact Codec.targetStart_gauges.writes limits start
  | targetFinished finish => exact Codec.targetFinish_gauges.writes limits finish
  | error d => exact Codec.diagnostic_gauges.writes limits d
  | warning d => exact Codec.diagnostic_gauges.writes limits d
  | message note => exact Codec.note_gauges.writes limits note

theorem read_gauges (writer reader : Limits) (kind : EventKind) :
    (read ⟨version, reader⟩ kind.type).Gauges reader (kind.emit ⟨version, writer⟩)
      (kind.image version).extents (kind.image version) := by
  cases kind with
  | custom => exact (Read.recovers_pure _).gauges reader
  | buildStarted => exact (Read.recovers_pure _).gauges reader
  | buildFinished succeeded => exact (Codec.bool_gauges.reads writer reader succeeded).map _
  | projectStarted start => exact (Codec.projectStart_gauges.reads writer reader start).map _
  | projectFinished finish => exact (Codec.projectFinish_gauges.reads writer reader finish).map _
  | targetStarted start => exact (Codec.targetStart_gauges.reads writer reader start).map _
  | targetFinished finish => exact (Codec.targetFinish_gauges.reads writer reader finish).map _
  | error d => exact (Codec.diagnostic_gauges.reads writer reader d).map _
  | warning d => exact (Codec.diagnostic_gauges.reads writer reader d).map _
  | message note => exact (Codec.note_gauges.reads writer reader note).map _

end EventKind

namespace Codec

def header :
    Codec (Option String × Option String × Option String × Instant × Int32 × Context) :=
  optionalText.pair (optionalText.pair (optionalText.pair (instant.pair (int32.pair context))))

theorem header_gauges {version : Int32} : header.Gauges version
    (fun (text, help, sender, time, thread, context) =>
      (text, help, sender, time.normal, thread, context))
    fun (text, help, sender, time, _, _) =>
      Extent.optionalText text ++ (Extent.optionalText help ++ (Extent.optionalText sender ++
        [.time time.toNanos])) :=
  optionalText_gauges.pair (optionalText_gauges.pair (optionalText_gauges.pair
    (instant_gauges.pair (int32_gauges.pair context_gauges))))

end Codec

namespace Event

theorem emitHeader_eq (terms : Terms) (e : Event) : e.emitHeader terms =
    Codec.header.emit terms (e.sentParts.text, e.help, e.sender, e.time, e.thread, e.context) := rfl

theorem read_eq (terms : Terms) (expected : EventType) : read terms expected = (do
    let shape ← Codec.byte.parse terms
    if shape ≠ expected.shape then throw (.shapeMismatch expected shape)
    let (text, help, sender, time, thread, context) ← Codec.header.parse terms
    let (texts, locale) ← readArgTexts terms expected
    let kind ← EventKind.read terms expected
    let args ← texts.mapM (Arg.readAll terms)
    pure { kind, message := .ofParts ⟨text, args, locale⟩, help, sender, time, thread,
           context }) := by
  have hheader : Codec.header.parse terms = (do
      let text ← Codec.optionalText.parse terms
      let help ← Codec.optionalText.parse terms
      let sender ← Codec.optionalText.parse terms
      let time ← Codec.instant.parse terms
      let thread ← Codec.int32.parse terms
      let context ← Codec.context.parse terms
      pure (text, help, sender, time, thread, context)) := by
    simp only [Codec.header, Codec.pair, Codec.parse, bind_assoc, pure_bind]
  simp only [hheader, bind_assoc, pure_bind]
  rfl

variable {version : Int32}

theorem emitHeader_failure (limits : Limits) (e : Event) :
    (e.emitHeader ⟨version, limits⟩).failure = misfit? limits e.sentHeaderExtents := by
  have hnormal : e.time.normal.toNanos = e.time.toNanos := Instant.toNanos_ofNanos e.time.toNanos
  rw [emitHeader_eq, sentHeaderExtents, ← hnormal]
  exact Codec.header_gauges.writes limits _

theorem header_gauges (writer reader : Limits) (e : Event) :
    (Codec.header.parse ⟨version, reader⟩).Gauges reader (e.emitHeader ⟨version, writer⟩)
      e.sentHeaderExtents
      (e.sentParts.text, e.help, e.sender, e.time.normal, e.thread, e.context) := by
  have hnormal : e.time.normal.toNanos = e.time.toNanos := Instant.toNanos_ofNanos e.time.toNanos
  rw [emitHeader_eq, sentHeaderExtents, ← hnormal]
  exact Codec.header_gauges.reads writer reader _

theorem readArgTexts_gauges (writer reader : Limits) (e : Event) :
    (readArgTexts ⟨version, reader⟩ e.type).Gauges reader
      (if e.type.isLazy then emitArgTexts ⟨version, writer⟩ e.sentParts else ∅) e.sentArgExtents
      (e.sentParts.renderedArgs, e.sentParts.locale) := by
  cases hlazy : e.type.isLazy with
  | true =>
      rw [readArgTexts, if_pos hlazy, if_pos rfl]
      exact (Codec.argTexts_gauges.reads writer reader e.sentParts.renderedArgs).bind
        ((Codec.optionalText_gauges.reads writer reader e.sentParts.locale).bind_pure
          (Prod.mk e.sentParts.renderedArgs))
  | false =>
      have hparts : e.sentParts = ⟨e.message.text, none, none⟩ := by simp [sentParts, hlazy]
      have hread : readArgTexts ⟨version, reader⟩ e.type = pure (none, none) := by
        simp [readArgTexts, hlazy]
      rw [hread, sentArgExtents, hparts]
      exact (Read.recovers_pure (none, none)).gauges reader

theorem emitArgs_failure (limits : Limits) (e : Event) :
    (if e.type.isLazy then emitArgTexts ⟨version, limits⟩ e.sentParts else ∅).failure =
      misfit? limits e.sentArgExtents := by
  cases hlazy : e.type.isLazy with
  | true =>
      rw [if_pos rfl, emitArgTexts, Emission.failure_append_eq_or, sentArgExtents, misfit?_append,
        Codec.argTexts_gauges.writes, Codec.optionalText_gauges.writes]
      rfl
  | false =>
      have hparts : e.sentParts = ⟨e.message.text, none, none⟩ := by simp [sentParts, hlazy]
      rw [sentArgExtents, hparts]
      rfl

theorem typedArgs_gauges (writer reader : Limits) (parts : MessageParts) :
    (parts.renderedArgs.mapM (Arg.readAll ⟨version, reader⟩)).Gauges reader
      (emitTypedArgs ⟨version, writer⟩ parts) [] (parts.argsIn version) := by
  have hsame : emitTypedArgs ⟨version, writer⟩ parts = emitTypedArgs ⟨version, reader⟩ parts := rfl
  rw [hsame]
  exact (Arg.mapM_readAll_recovers ⟨Nat.le_refl _, Nat.le_refl _⟩ parts).gauges reader

theorem emit_failure (limits : Limits) (e : Event) :
    (e.emit ⟨version, limits⟩).failure = misfit? limits (e.sentExtents version) := by
  have hopening : (e.emitOpening ⟨version, limits⟩ e.type).failure = none := by
    rw [emitOpening, if_pos rfl]
    rfl
  rw [emit_eq_front_append, emitFront, sentExtents, misfit?_append, misfit?_append,
    Emission.failure_append_eq_or,
    Emission.failure_of_done_append hopening, Emission.failure_append_eq_or, emitHeader_failure,
    emitArgs_failure, Emission.failure_append_of_done _ (emitTypedArgs_done _ _),
    EventKind.emit_failure, Option.or_assoc]

theorem read_gauges (writer reader : Limits) (e : Event) :
    (read ⟨version, reader⟩ e.type).Gauges reader (e.emit ⟨version, writer⟩)
      (e.sentExtents version) (e.image version) := by
  have hopening : e.emitOpening ⟨version, writer⟩ e.type =
      Codec.byte.emit ⟨version, writer⟩ e.type.shape := if_pos rfl
  have hrest : Read.Gauges (do
      let kind ← EventKind.read ⟨version, reader⟩ e.type
      let args ← e.sentParts.renderedArgs.mapM (Arg.readAll ⟨version, reader⟩)
      pure { kind, message := .ofParts ⟨e.sentParts.text, args, e.sentParts.locale⟩, help := e.help,
             sender := e.sender, time := e.time.normal, thread := e.thread, context := e.context })
      reader (e.kind.emit ⟨version, writer⟩ ++ emitTypedArgs ⟨version, writer⟩ e.sentParts)
      ((e.kind.image version).extents ++ []) (e.image version) := by
    refine (EventKind.read_gauges writer reader e.kind).bind ?_
    rw [image, ← ofParts_sentParts]
    exact (typedArgs_gauges writer reader e.sentParts).bind_pure _
  rw [read_eq, emit_eq_front_append, emitFront, hopening, sentExtents, Emission.append_assoc,
    Emission.append_assoc, ← List.nil_append (e.sentHeaderExtents ++ _)]
  refine (Codec.byte_gauges.reads writer reader e.type.shape).bind ?_
  rw [if_neg fun h => h rfl]
  refine (header_gauges writer reader e).bind ?_
  rw [← List.append_nil (e.kind.image version).extents]
  exact (readArgTexts_gauges writer reader e).bind hrest

theorem read_sent {writer : Limits} {e : Event} (hdone : (e.emit ⟨version, writer⟩).failure = none)
    (reader : Limits) (rest : List UInt8) (fault : Option StreamFault) :
    (∀ x ∈ e.sentExtents version, x.Fits reader) ∧
        read ⟨version, reader⟩ e.type ⟨(e.emit ⟨version, writer⟩).bytes ++ rest, fault⟩ =
          .ok (e.image version) ⟨rest, fault⟩ ∨
      ∃ what length max left,
        IsFirstMisfit reader (e.sentExtents version) (.lengthOutOfRange what length max) ∧
        read ⟨version, reader⟩ e.type ⟨(e.emit ⟨version, writer⟩).bytes ++ rest, fault⟩ =
          .error (.lengthOutOfRange what length max) left := by
  have hfits := misfit?_eq_none.1 ((emit_failure writer e).symm.trans hdone)
  have hresult := read_gauges writer reader e hdone rest fault
  cases hread : misfit? reader (e.sentExtents version) with
  | none =>
      rw [hread] at hresult
      exact .inl ⟨misfit?_eq_none.1 hread, hresult⟩
  | some error =>
      rw [hread] at hresult
      obtain ⟨left, hleft⟩ := hresult
      have hfirst := misfit?_eq_some.1 hread
      obtain ⟨front, x, back, hsent, -, hx, herror⟩ := id hfirst
      -- The range of a time is the same for all limits, and the writer has seen to it.
      have htime (nanos : Int) (h : x = .time nanos) : x.Fits reader := by
        have hwriter : x.Fits writer := hfits x (by simp [hsent])
        subst h
        exact hwriter
      obtain ⟨what, length, max, hlength⟩ := Extent.error_of_fits_time htime hx
      rw [← herror, hlength] at hfirst hleft
      exact .inr ⟨what, length, max, left, hfirst, hleft⟩

theorem event_is_sent_iff_extents_fit (version : Int32) (writer : Limits) (e : Event) :
    let delivery := Sink.endless.deliver (e.emit ⟨version, writer⟩)
    let sent := e.sentExtents version
    (delivery.failure = none ↔ ∀ x ∈ sent, x.Fits writer) ∧
    (∀ error, delivery.failure = some error ↔ IsFirstMisfit writer sent error) ∧
    (delivery.failure = none → ∀ reader rest fault,
      let result := read ⟨version, reader⟩ e.type ⟨delivery.accepted ++ rest, fault⟩
      ((∃ received left, result = .ok received left) ↔ ∀ x ∈ sent, x.Fits reader) ∧
      (∀ received left, result = .ok received left →
        received = e.image version ∧ left = ⟨rest, fault⟩) ∧
      (∀ error left, result = .error error left →
        IsFirstMisfit reader sent error ∧
          ∃ what length max, error = .lengthOutOfRange what length max)) := by
  have hdeliver : Sink.endless.deliver (e.emit ⟨version, writer⟩) =
      ⟨(e.emit ⟨version, writer⟩).bytes, (e.emit ⟨version, writer⟩).failure, .endless⟩ := rfl
  simp only [hdeliver]
  refine ⟨?_, ?_, ?_⟩
  · rw [emit_failure]
    exact misfit?_eq_none
  · intro error
    rw [emit_failure]
    exact misfit?_eq_some
  · intro hdone reader rest fault
    obtain ⟨hfits, hread⟩ | ⟨what, length, max, s, hfirst, hread⟩ :=
      read_sent hdone reader rest fault
    · rw [hread]
      refine ⟨⟨fun _ => hfits, fun _ => ⟨_, _, rfl⟩⟩, ?_, fun _ _ h => nomatch h⟩
      intro received left h
      exact ⟨(EStateM.Result.ok.inj h).1.symm, (EStateM.Result.ok.inj h).2.symm⟩
    · rw [hread]
      refine ⟨⟨fun ⟨_, _, h⟩ => (nomatch h), fun hfits => ?_⟩, fun _ _ h => (nomatch h), ?_⟩
      · obtain ⟨front, x, back, hsent, -, hx, -⟩ := hfirst
        exact absurd (hfits x (by simp [hsent])) hx
      · intro error left h
        obtain ⟨rfl, -⟩ := EStateM.Result.error.inj h
        exact ⟨hfirst, what, length, max, rfl⟩

theorem rendered_argument_has_to_fit :
    let table : PropertyTable := { entries := [("a", "b"), ("unused", "")] }
    let e : Event :=
      { kind := .projectStarted { file := some "p", properties := some table }
        message := .lazyIn "\x7b0\x7d" [.integer 12345] "de" }
    let frame : Limits → Delivery := fun limits => Sink.endless.deliver (e.emit ⟨1, limits⟩)
    let misfit : ProtocolError := .lengthOutOfRange "string" 5 4
    (frame ⟨5, 1⟩).failure = none ∧ (frame ⟨4, 1⟩).failure = some misfit ∧
      ∃ left, read ⟨1, ⟨4, 1⟩⟩ .projectStarted ⟨(frame ⟨5, 1⟩).accepted ++ [7], none⟩ =
        .error misfit left := by
  intro table e frame misfit
  obtain ⟨hsent, -, hread⟩ := event_is_sent_iff_extents_fit 1 ⟨5, 1⟩ e
  obtain ⟨-, hrefused, -⟩ := event_is_sent_iff_extents_fit 1 ⟨4, 1⟩ e
  have hextents : e.sentExtents 1 = [.text "\x7b0\x7d", .time 0, .items "argument list" 1] ++
      .text "12345" :: [.text "de", .text "p", .items "string list" 0,
        .items "property table" 1, .text "a", .text "b"] := by decide +kernel
  have hfirst : IsFirstMisfit ⟨4, 1⟩ (e.sentExtents 1) misfit :=
    ⟨_, _, _, hextents, by decide +kernel, by decide +kernel, by decide +kernel⟩
  have hdone := hsent.2 (by decide +kernel)
  refine ⟨hdone, (hrefused misfit).2 hfirst, ?_⟩
  obtain ⟨hread, -, herror⟩ := hread hdone ⟨4, 1⟩ [7] none
  cases hresult : read ⟨1, ⟨4, 1⟩⟩ .projectStarted ⟨(frame ⟨5, 1⟩).accepted ++ [7], none⟩ with
  | ok received left =>
      have hfits := hread.1 ⟨received, left, hresult⟩
      exact absurd hfits (by decide +kernel)
  | error error left =>
      have hsame := (misfit?_eq_some.2 (herror error left hresult).1).symm.trans
        (misfit?_eq_some.2 hfirst)
      rw [Option.some.inj hsame]
      exact ⟨left, rfl⟩

end Event

end BuildFeed
