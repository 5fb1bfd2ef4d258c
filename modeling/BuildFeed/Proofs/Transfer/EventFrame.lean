import BuildFeed.Proofs.Transfer.Codec
import BuildFeed.Wire.Channel

namespace BuildFeed

namespace Codec

variable {version : Int32}

theorem contextIds_carries : contextIds.Carries version id := by
  refine (int32_carries.pair (int32_carries.pair (int32_carries.pair (int32_carries.pair
    (int32_carries.pair int32_carries))))).iso ?_ ?_
  · intro terms
    rfl
  · intro c
    rfl

theorem context_carries : context.Carries version id := by
  refine contextIds_carries.optional.iso ?_ ?_
  · intro terms
    rfl
  · intro c
    by_cases h : c = .invalid
    · simp [Context.isInvalid, h]
    · simp [Context.isInvalid, h]

theorem span_carries : span.Carries version id := by
  refine (int32_carries.pair (int32_carries.pair (int32_carries.pair int32_carries))).iso ?_ ?_
  · intro terms
    rfl
  · intro s
    rfl

theorem projectStart_carries : projectStart.Carries version ProjectStart.image := by
  refine (int32_carries.pair (contextIds_carries.optional.pair (optionalText_carries.pair
    (textList_carries.pair propertyTable_carries.optional)))).iso ?_ ?_
  · intro terms
    rfl
  · intro p
    simp [ProjectStart.image]

theorem projectFinish_carries : projectFinish.Carries version id := by
  refine (bool_carries.pair optionalText_carries).iso ?_ ?_
  · intro terms
    rfl
  · intro p
    rfl

theorem targetStart_carries : targetStart.Carries version id := by
  refine (optionalText_carries.pair (optionalText_carries.pair (optionalText_carries.pair
    (optionalText_carries.pair coded_carries)))).iso ?_ ?_
  · intro terms
    rfl
  · intro t
    rfl

theorem targetFinish_carries : targetFinish.Carries version id := by
  refine (optionalText_carries.pair (optionalText_carries.pair (optionalText_carries.pair
    bool_carries))).iso ?_ ?_
  · intro terms
    rfl
  · intro t
    rfl

theorem diagnostic_carries : diagnostic.Carries version (Diagnostic.image version) := by
  refine (optionalText_carries.pair (optionalText_carries.pair (optionalText_carries.pair
    (optionalText_carries.pair (span_carries.pair
      (optionalText_carries.since rfl helpLinkVersion)))))).iso ?_ ?_
  · intro terms
    rfl
  · intro d
    rfl

theorem note_carries : note.Carries version id := by
  refine (optionalText_carries.pair (optionalText_carries.pair (optionalText_carries.pair
    (optionalText_carries.pair (coded_carries.pair span_carries))))).iso ?_ ?_
  · intro terms
    rfl
  · intro n
    rfl

theorem argTexts_carries : argTexts.Carries version id := by
  have h : argTexts.Carries version (Option.map (List.map id)) :=
    (presentText_carries.items "argument list").optional
  rwa [List.map_id_fun, Option.map_id] at h

end Codec

theorem EventKind.read_recovers {version : Int32} {writer reader : Limits} (hl : writer ≤ reader)
    (kind : EventKind) :
    (read ⟨version, reader⟩ kind.type).Recovers (kind.emit ⟨version, writer⟩)
      (kind.image version) := by
  cases kind with
  | custom => exact Read.recovers_pure _
  | buildStarted => exact Read.recovers_pure _
  | buildFinished succeeded => exact (Codec.bool_carries _ _ hl succeeded).map _
  | projectStarted start => exact (Codec.projectStart_carries _ _ hl start).map _
  | projectFinished finish => exact (Codec.projectFinish_carries _ _ hl finish).map _
  | targetStarted start => exact (Codec.targetStart_carries _ _ hl start).map _
  | targetFinished finish => exact (Codec.targetFinish_carries _ _ hl finish).map _
  | error d => exact (Codec.diagnostic_carries _ _ hl d).map _
  | warning d => exact (Codec.diagnostic_carries _ _ hl d).map _
  | message note => exact (Codec.note_carries _ _ hl note).map _

namespace Arg

variable {version : Int32} {writer reader : Limits}

theorem readTyped_recovers (hl : writer ≤ reader) (locale : Locale) (arg : Arg) :
    (readTyped ⟨version, reader⟩ (arg.toText locale)).Recovers (arg.emitTyped ⟨version, writer⟩)
      arg := by
  refine (Codec.coded_carries _ _ hl arg.kind).bind ?_
  cases arg with
  | text value =>
      rw [toText_text]
      exact Read.recovers_pure (text value)
  | integer n => exact (Codec.int64_carries _ _ hl n).map integer
  | decimal d => exact (Codec.uint64_carries _ _ hl d.bits).map (decimal ⟨·⟩)

theorem mapM_readTyped_recovers (hl : writer ≤ reader) (locale : Locale) (args : List Arg) :
    ((args.map (toText locale)).mapM (readTyped ⟨version, reader⟩)).Recovers
      (.concat (args.map (emitTyped ⟨version, writer⟩))) args := by
  induction args with
  | nil => exact Read.recovers_pure []
  | cons arg args ih =>
      rw [List.map_cons, List.mapM_cons]
      exact (readTyped_recovers hl locale arg).bind (ih.bind_pure (arg :: ·))

theorem mapM_readAll_recovers (hl : writer ≤ reader) (parts : MessageParts) :
    (parts.renderedArgs.mapM (readAll ⟨version, reader⟩)).Recovers
      (Event.emitTypedArgs ⟨version, writer⟩ parts) (parts.argsIn version) := by
  obtain ⟨text, args?, locale⟩ := parts
  by_cases hv : version < typedArgsVersion
  · have hread (values : List String) :
        readAll ⟨version, reader⟩ values = pure (values.map .text) := if_pos hv
    simp only [Event.emitTypedArgs, MessageParts.argsIn, if_pos hv, funext hread]
    cases args? with
    | none => exact Read.recovers_pure none
    | some args => exact Read.recovers_pure _
  · have hread (values : List String) :
        readAll ⟨version, reader⟩ values = values.mapM (readTyped ⟨version, reader⟩) := if_neg hv
    simp only [Event.emitTypedArgs, MessageParts.argsIn, if_neg hv, funext hread]
    cases args? with
    | none => exact Read.recovers_pure none
    | some args => exact (mapM_readTyped_recovers hl _ args).map some

end Arg

theorem Message.ofParts_argsIn (version : Int32) (message : Message) :
    ofParts ⟨message.toParts.text, message.toParts.argsIn version, message.toParts.locale⟩ =
      if version < typedArgsVersion then message.withTextArgs else message := by
  obtain ⟨state, locale⟩ := message
  by_cases hv : version < typedArgsVersion
  · simp only [MessageParts.argsIn, if_pos hv]
    cases state with
    | raw template args => simp [toParts, ofParts, withTextArgs, MessageParts.renderedArgs,
        MessageParts.renderedArgsWith]
    | formatted text => rfl
  · simp only [MessageParts.argsIn, if_neg hv]
    exact ofParts_toParts _

namespace Event

variable {version : Int32} {writer reader : Limits}

theorem header_recovers {β : Type} (hl : writer ≤ reader) (e : Event) {rest : Emission} {b : β}
    {f : Option String → Option String → Option String → Instant → Int32 → Context → Read β}
    (h : (f e.sentParts.text e.help e.sender e.time.normal e.thread e.context).Recovers rest b) :
    Read.Recovers (do
      let text ← Codec.optionalText.parse ⟨version, reader⟩
      let help ← Codec.optionalText.parse ⟨version, reader⟩
      let sender ← Codec.optionalText.parse ⟨version, reader⟩
      let time ← Codec.instant.parse ⟨version, reader⟩
      let thread ← Codec.int32.parse ⟨version, reader⟩
      let context ← Codec.context.parse ⟨version, reader⟩
      f text help sender time thread context) (e.emitHeader ⟨version, writer⟩ ++ rest) b := by
  simp only [emitHeader, Emission.append_assoc]
  refine (Codec.optionalText_carries _ _ hl e.sentParts.text).bind ?_
  refine (Codec.optionalText_carries _ _ hl e.help).bind ?_
  refine (Codec.optionalText_carries _ _ hl e.sender).bind ?_
  refine (Codec.instant_carries _ _ hl e.time).bind ?_
  refine (Codec.int32_carries _ _ hl e.thread).bind ?_
  exact (Codec.context_carries _ _ hl e.context).bind h

theorem readArgTexts_recovers (hl : writer ≤ reader) {type : EventType} (hlazy : type.isLazy = true)
    (parts : MessageParts) :
    (readArgTexts ⟨version, reader⟩ type).Recovers (emitArgTexts ⟨version, writer⟩ parts)
      (parts.renderedArgs, parts.locale) := by
  rw [readArgTexts, if_pos hlazy]
  exact (Codec.argTexts_carries _ _ hl parts.renderedArgs).bind
    ((Codec.optionalText_carries _ _ hl parts.locale).bind_pure (Prod.mk parts.renderedArgs))

theorem ofParts_sentParts (version : Int32) (e : Event) :
    Message.ofParts ⟨e.sentParts.text, e.sentParts.argsIn version, e.sentParts.locale⟩ =
      e.imageMessage version := by
  cases hlazy : e.type.isLazy with
  | false =>
      simp only [sentParts, imageMessage, hlazy, MessageParts.argsIn, Bool.false_eq_true, if_false]
      split <;> rfl
  | true =>
      simp only [sentParts, imageMessage, hlazy, if_true]
      exact Message.ofParts_argsIn version e.message

theorem rest_recovers (version : Int32) (hl : writer ≤ reader) (e : Event) :
    Read.Recovers (do
      let kind ← EventKind.read ⟨version, reader⟩ e.type
      let args ← e.sentParts.renderedArgs.mapM (Arg.readAll ⟨version, reader⟩)
      pure { kind, message := .ofParts ⟨e.sentParts.text, args, e.sentParts.locale⟩, help := e.help,
             sender := e.sender, time := e.time.normal, thread := e.thread, context := e.context })
      (e.kind.emit ⟨version, writer⟩ ++ emitTypedArgs ⟨version, writer⟩ e.sentParts)
      (e.image version) := by
  refine (EventKind.read_recovers hl e.kind).bind ?_
  rw [image, ← ofParts_sentParts, ← Emission.append_empty (emitTypedArgs _ _)]
  exact (Arg.mapM_readAll_recovers hl e.sentParts).bind (Read.recovers_pure _)

theorem emitTypedArgs_none (terms : Terms) (text locale : Option String) :
    emitTypedArgs terms ⟨text, none, locale⟩ = ∅ := by
  rw [emitTypedArgs]
  split <;> rfl

theorem emitTypedArgs_done (terms : Terms) (parts : MessageParts) :
    (emitTypedArgs terms parts).failure = none := by
  rw [emitTypedArgs]
  split
  · rfl
  · refine Emission.concat_done fun arg _ => ?_
    cases arg <;> rfl

theorem read_recovers (hl : writer ≤ reader) (e : Event) :
    (read ⟨version, reader⟩ e.type).Recovers (e.emit ⟨version, writer⟩) (e.image version) := by
  have hopening : e.emitOpening ⟨version, writer⟩ e.type =
      Codec.byte.emit ⟨version, writer⟩ e.type.shape := if_pos rfl
  have hrest := rest_recovers version hl e
  rw [emit, emitAs, hopening]
  unfold read
  refine (Codec.byte_carries _ _ hl e.type.shape).bind ?_
  rw [if_neg fun h => h rfl]
  cases hlazy : e.type.isLazy with
  | false =>
      have hparts : e.sentParts = ⟨e.message.text, none, none⟩ := by simp [sentParts, hlazy]
      have htexts : readArgTexts ⟨version, reader⟩ e.type = pure (none, none) := by
        simp [readArgTexts, hlazy]
      have hbody : e.emitBody ⟨version, writer⟩ =
          e.emitHeader ⟨version, writer⟩ ++ e.kind.emit ⟨version, writer⟩ := by
        simp [emitBody, hlazy]
      rw [hparts, emitTypedArgs_none, Emission.append_empty] at hrest
      rw [hbody]
      refine header_recovers hl e ?_
      rw [htexts, hparts]
      exact hrest
  | true =>
      have hbody : e.emitBody ⟨version, writer⟩ = e.emitHeader ⟨version, writer⟩ ++
          (emitArgTexts ⟨version, writer⟩ e.sentParts ++
            (e.kind.emit ⟨version, writer⟩ ++ emitTypedArgs ⟨version, writer⟩ e.sentParts)) := by
        simp [emitBody, hlazy]
      rw [hbody]
      refine header_recovers hl e ?_
      exact (readArgTexts_recovers hl hlazy e.sentParts).bind hrest

theorem encoded_event_reads_as_image (version : Int32) (writer reader : Limits)
    (hl : writer ≤ reader) (e : Event) (bytes : List UInt8)
    (h : e.encode ⟨version, writer⟩ = .ok bytes) :
    (∀ rest fault, read ⟨version, reader⟩ e.type ⟨bytes ++ rest, fault⟩ =
      .ok (e.image version) ⟨rest, fault⟩) ∧
    (e.image version).time.toNanos = e.time.toNanos ∧
    (e.time.nanos < Instant.nanosPerSecond → (e.image version).time = e.time) ∧
    (typedArgsVersion ≤ version → (e.image version).message.text = e.message.text) := by
  obtain ⟨hdone, rfl⟩ := bytes_of_encode h
  refine ⟨read_recovers hl e hdone, ?_, ?_, ?_⟩
  · exact Instant.toNanos_ofNanos e.time.toNanos
  · exact Instant.normal_of_lt
  · intro hv
    exact text_image hv e

theorem encoded_project_start_reads_as_image :
    let start : ProjectStart :=
      { id := 4, properties := some { entries := [("", "1"), ("B", "2"), ("C", ""), ("A", "3")] } }
    let e : Event :=
      { kind := .projectStarted start
        message := .lazyIn "{0}" [.decimal ⟨0x7FF8000000000001⟩] "de"
        time := ⟨-1, 1500000000⟩ }
    let bytes : List UInt8 :=
      [2, 1, 3, 0, 0, 0, 123, 48, 125, 0, 0, 0, 101, 205, 29, 0, 0, 0, 0, 0, 0, 0, 0, 0, 1, 1, 0, 0,
        0, 1, 3, 0, 0, 0, 78, 97, 78, 1, 2, 0, 0, 0, 100, 101, 4, 0, 0, 0, 0, 0, 0, 0, 0, 0, 1, 2, 0,
        0, 0, 1, 0, 0, 0, 66, 1, 0, 0, 0, 50, 1, 0, 0, 0, 65, 1, 0, 0, 0, 51, 2, 0, 0, 0, 1, 0, 0,
        0, 0, 0, 248, 127]
    let kept : ProjectStart :=
      { id := 4, properties := some { entries := [("B", "2"), ("A", "3")] } }
    e.encode ⟨3, {}⟩ = .ok bytes ∧
      read ⟨3, {}⟩ .projectStarted ⟨bytes ++ [7], none⟩ =
        .ok { e with kind := .projectStarted kept, time := ⟨0, 500000000⟩ } ⟨[7], none⟩ := by
  intro start e bytes kept
  have hdone : (e.emit ⟨3, {}⟩).failure = none := by decide
  have hbytes : (e.emit ⟨3, {}⟩).bytes = bytes := by decide
  have hencode : e.encode ⟨3, {}⟩ = .ok bytes := by
    simp only [encode, hdone, hbytes]
  have himage : e.image 3 = { e with kind := .projectStarted kept, time := ⟨0, 500000000⟩ } := by
    decide
  have hlimits : ({} : Limits) ≤ {} := ⟨Nat.le_refl _, Nat.le_refl _⟩
  have h := (encoded_event_reads_as_image 3 {} {} hlimits e bytes hencode).1 [7] none
  exact ⟨hencode, himage ▸ h⟩

end Event

end BuildFeed
