import BuildFeed.Proofs.InPlace.Sending
import BuildFeed.Wire.InPlace.Frame

namespace BuildFeed

namespace InPlace

variable {σ τ α β : Type} {s s' : σ} {t t' : τ} {a : α} {b : β} {e e' opening rest : Emission}
  {terms : Terms}

theorem sends_contextIds (c : Context) :
    Sends (contextIds terms) c (Codec.contextIds.emit terms c) () := by
  refine .of_value (Sends.bind_silent (Sends.apart ?_ c) (sends_assign c))
  exact ((sends_int32 c.node).part rfl).bind (((sends_int32 c.project).part rfl).bind
    (((sends_int32 c.target).part rfl).bind (((sends_int32 c.task).part rfl).bind
      (((sends_int32 c.submission).part rfl).bind ((sends_int32 c.instanceId).part rfl)))))

theorem sends_context (c : Context) :
    Sends (context terms) c (Codec.context.emit terms c) () := by
  refine .of_value ?_
  cases h : c.isInvalid with
  | true =>
      have hc : c = .invalid := of_decide_eq_true h
      have hemit : Codec.context.emit terms c = Codec.bool.emit terms false := by
        simp only [Codec.context, Codec.iso, Codec.optional, h, if_true]
      rw [hemit, hc]
      exact (sends_flag false Context.invalid).bind_silent (sends_assign Context.invalid)
  | false =>
      have hemit : Codec.context.emit terms c =
          Codec.bool.emit terms true ++ Codec.contextIds.emit terms c := by
        simp only [Codec.context, Codec.iso, Codec.optional, h, Bool.false_eq_true, if_false]
      rw [hemit]
      exact (sends_flag true c).bind (sends_contextIds c)

theorem sends_span (s : Span) : Sends (span terms) s (Codec.span.emit terms s) () :=
  ((sends_int32 s.line).part rfl).bind (((sends_int32 s.column).part rfl).bind
    (((sends_int32 s.endLine).part rfl).bind ((sends_int32 s.endColumn).part rfl)))

theorem sends_projectStart (p : ProjectStart) :
    Sends (projectStart terms) p (Codec.projectStart.emit terms p) () :=
  ((sends_int32 p.id).part rfl).bind
    ((Sends.optional sends_contextIds p.parent |>.part rfl).bind
      (((sends_optionalText p.file).part rfl).bind
        (((sends_textList p.targets).part rfl).bind ((sends_properties p.properties).part rfl))))

theorem sends_projectFinish (p : ProjectFinish) :
    Sends (projectFinish terms) p (Codec.projectFinish.emit terms p) () :=
  ((sends_bool p.succeeded).part rfl).bind ((sends_optionalText p.file).part rfl)

theorem sends_targetStart (t : TargetStart) :
    Sends (targetStart terms) t (Codec.targetStart.emit terms t) () :=
  ((sends_optionalText t.name).part rfl).bind (((sends_optionalText t.projectFile).part rfl).bind
    (((sends_optionalText t.file).part rfl).bind (((sends_optionalText t.parent).part rfl).bind
      ((sends_coded t.reason).part rfl))))

theorem sends_targetFinish (t : TargetFinish) :
    Sends (targetFinish terms) t (Codec.targetFinish.emit terms t) () :=
  ((sends_optionalText t.projectFile).part rfl).bind (((sends_optionalText t.file).part rfl).bind
    (((sends_optionalText t.name).part rfl).bind ((sends_bool t.succeeded).part rfl)))

theorem sends_diagnostic (d : Diagnostic) :
    Sends (diagnostic terms) d (Codec.diagnostic.emit terms d) () :=
  ((sends_optionalText d.subcategory).part rfl).bind (((sends_optionalText d.code).part rfl).bind
    (((sends_optionalText d.file).part rfl).bind (((sends_optionalText d.projectFile).part rfl).bind
      (((sends_span d.span).part rfl).bind ((sends_since helpLinkVersion d.helpLink).part rfl)))))

theorem sends_note (n : Note) : Sends (note terms) n (Codec.note.emit terms n) () :=
  ((sends_optionalText n.subcategory).part rfl).bind (((sends_optionalText n.code).part rfl).bind
    (((sends_optionalText n.file).part rfl).bind (((sends_optionalText n.projectFile).part rfl).bind
      (((sends_coded n.importance).part rfl).bind ((sends_span n.span).part rfl)))))

theorem sends_eventKind (kind : EventKind) :
    Sends (eventKind terms) kind (kind.emit terms) () := by
  cases kind with
  | custom => exact .of_value (sends_pure _ ())
  | buildStarted => exact .of_value (sends_pure _ ())
  | buildFinished succeeded => exact .of_value ((sends_bool succeeded).through rfl)
  | projectStarted start => exact .of_value ((sends_projectStart start).through rfl)
  | projectFinished finish => exact .of_value ((sends_projectFinish finish).through rfl)
  | targetStarted start => exact .of_value ((sends_targetStart start).through rfl)
  | targetFinished finish => exact .of_value ((sends_targetFinish finish).through rfl)
  | error d => exact .of_value ((sends_diagnostic d).through rfl)
  | warning d => exact .of_value ((sends_diagnostic d).through rfl)
  | message n => exact .of_value ((sends_note n).through rfl)

theorem sends_typedArg (arg : Arg) : Sends (typedArg terms) arg (arg.emitTyped terms) () := by
  refine .of_value (((sends_coded arg.kind).apart arg).bind ?_)
  cases arg with
  | text value => exact sends_pure _ ()
  | integer n => exact ((sends_move Codec.int64 n).apart _).bind_silent (sends_assign _)
  | decimal d =>
      have hbits : d.bits.toInt64.toUInt64 = d.bits := UInt64.toUInt64_toInt64 d.bits
      have hemit : Codec.uint64.emit terms d.bits = Codec.int64.emit terms d.bits.toInt64 :=
        congrArg (Codec.uint64.emit terms) hbits.symm
      change Sends _ _ (Codec.uint64.emit terms d.bits) ()
      rw [hemit]
      refine ((sends_move Codec.int64 d.bits.toInt64).apart _).bind_silent ?_
      rw [hbits]
      exact sends_assign _

theorem sends_typedArgs (args? : Option (List Arg)) :
    Sends (typedArgs terms) args? (.concat ((args?.getD []).map (Arg.emitTyped terms))) () := by
  cases args? with
  | none => exact .of_value (sends_pure none ())
  | some args => exact .of_value ((Sends.each sends_typedArg args).through rfl)

theorem sends_argTextsAndLocale (parts : MessageParts) :
    Sends (argTextsAndLocale terms) parts (Event.emitArgTexts terms parts) () :=
  .of_value (((sends_argTexts parts.renderedArgs).apart parts).bind
    (((sends_optionalText parts.locale).part rfl).bind_silent (sends_whenReading _ parts)))

theorem sends_lazyParts {expected : EventType} (hlazy : expected.isLazy = true)
    (parts : MessageParts) (e : Event) :
    Sends (lazyParts terms expected parts) e (Event.emitArgTexts terms parts) parts := by
  rw [lazyParts, if_pos hlazy]
  exact (sends_argTextsAndLocale parts).apart e

theorem sends_typedParts {expected : EventType} (hlazy : expected.isLazy = true)
    (parts : MessageParts) (e : Event) :
    Sends (typedParts terms expected parts) e (Event.emitTypedArgs terms parts) parts := by
  by_cases hversion : terms.version < typedArgsVersion
  · rw [typedParts, if_neg fun h => h.2 hversion, Event.emitTypedArgs, if_pos hversion]
    exact sends_pure e parts
  · rw [typedParts, if_pos ⟨hlazy, hversion⟩, Event.emitTypedArgs, if_neg hversion]
    exact ((sends_typedArgs parts.args).part rfl).apart e

theorem sends_header (parts : MessageParts) (e : Event) :
    Sends (header terms parts) e
      (Codec.optionalText.emit terms parts.text ++ (Codec.optionalText.emit terms e.help ++
        (Codec.optionalText.emit terms e.sender ++ (Codec.instant.emit terms e.time ++
          (Codec.int32.emit terms e.thread ++ Codec.context.emit terms e.context))))) parts :=
  (((sends_optionalText parts.text).part rfl).apart e).bind
    (((sends_optionalText e.help).part rfl).bind (((sends_optionalText e.sender).part rfl).bind
      (((sends_instant e.time).part rfl).bind (((sends_int32 e.thread).part rfl).bind
        (((sends_context e.context).part rfl).bind_silent (sends_pure e parts))))))

theorem sends_lazyParts_final {expected : EventType} (hfinal : expected.isLazy = false)
    (parts : MessageParts) (e : Event) :
    Sends (lazyParts terms expected parts) e ∅ parts := by
  rw [lazyParts, hfinal]
  exact sends_pure e parts

theorem sends_typedParts_final {expected : EventType} (hfinal : expected.isLazy = false)
    (parts : MessageParts) (e : Event) :
    Sends (typedParts terms expected parts) e ∅ parts := by
  rw [typedParts, hfinal]
  exact sends_pure e parts

theorem sends_prepare (e : Event) : Sends (prepare e.type) e ∅ () := by
  refine .of_value ?_
  rw [if_pos rfl]
  exact sends_pure e ()

theorem sends_prepare_fail {expected : EventType} {e : Event} (h : e.type ≠ expected) :
    Sends (prepare expected) e (.fail (.typeMismatch expected e.type)) () := by
  refine .of_value ?_
  rw [if_neg h]
  exact sends_throw e _ ()

theorem sends_shape (expected : EventType) (e : Event) :
    Sends (shape terms expected) e (Codec.byte.emit terms expected.shape) () := by
  refine ((sends_move Codec.byte expected.shape).apart e).bind_silent ?_
  rw [if_pos rfl]
  exact sends_pure e ()

theorem sentParts_run (e : Event) (outlet : Outlet) :
    sentParts e.type (outlet, e.copy) = .ok e.sentParts (outlet, e.sent) := by
  cases hlazy : e.type.isLazy with
  | true =>
      simp only [Event.sentParts, Event.sent, hlazy, if_true]
      unfold sentParts
      rw [hlazy]
      rfl
  | false =>
      simp only [Event.sentParts, Event.sent, hlazy, Bool.false_eq_true, if_false]
      unfold sentParts
      rw [hlazy]
      rfl

theorem sends_sentHeader (e : Event) :
    Sends (header terms e.sentParts) e.sent (e.emitHeader terms) e.sentParts := by
  unfold Event.sent
  split
  · exact sends_header e.sentParts e.copy
  · exact sends_header e.sentParts { e.copy with message := e.message.settled }

theorem sends_sentKind (e : Event) :
    Sends (part Event.kind (fun e kind => { e with kind }) (eventKind terms)) e.sent
      (e.kind.emit terms) () := by
  have hkind : e.sent.kind = e.kind := by
    unfold Event.sent
    split <;> rfl
  exact hkind ▸ (sends_eventKind e.sent.kind).part rfl

theorem sends_sentBody (e : Event) :
    Sends (do
        let parts ← header terms e.sentParts
        let parts ← lazyParts terms e.type parts
        part Event.kind (fun e kind => { e with kind }) (eventKind terms)
        let parts ← typedParts terms e.type parts
        whenReading (part Event.message (fun e message => { e with message })
          (assign (.ofParts parts))))
      e.sent (e.emitBody terms) () := by
  cases hlazy : e.type.isLazy with
  | true =>
      rw [Event.emitBody, if_pos hlazy]
      exact (sends_sentHeader e).bind ((sends_lazyParts hlazy _ _).bind
        ((sends_sentKind e).bind
          ((sends_typedParts hlazy _ _).bind_silent (sends_whenReading _ _))))
  | false =>
      rw [Event.emitBody, if_neg (Bool.not_eq_true _ ▸ hlazy)]
      exact (sends_sentHeader e).bind ((sends_lazyParts_final hlazy _ _).silent_bind
        ((sends_sentKind e).bind_silent
          ((sends_typedParts_final hlazy _ _).silent_bind (sends_whenReading _ _))))

theorem passes_event (expected : EventType) (e : Event) :
    Passes (event terms expected) e (e.emitOpening terms expected) e.sent (e.emitBody terms)
      () := by
  by_cases htype : e.type = expected
  · subst htype
    have hopening : e.emitOpening terms e.type = Codec.byte.emit terms e.type.shape ++ ∅ := by
      rw [Event.emitOpening, if_pos rfl, Emission.append_empty]
    rw [hopening]
    refine (sends_prepare e).silent_passes ((sends_shape e.type e).bind_passes
      ((sends_sentBody e).passes_of_eq fun outlet => ?_))
    exact (bind_of_ok rfl).trans ((bind_of_ok rfl).trans (bind_of_ok (sentParts_run e outlet)))
  -- an event of another type is given up before anything is written or forgotten
  · rw [Event.emitOpening, if_neg htype]
    exact (sends_prepare_fail htype).bind_failed_passes

theorem passes_optionalEvent (e? : Option Event) :
    Passes (optionalEvent terms) e? (Codec.optionalEventOpening terms e?) (e?.map Event.sent)
      (Codec.optionalEventRest terms e?) () := by
  cases e? with
  | none => exact (Sends.of_value ((sends_flag false none).bind_silent (sends_assign none))).passes
  | some e =>
      refine (sends_value (some e)).silent_passes ((sends_flag true _).bind_passes
        (((sends_int32 (Coded.code e.type)).apart _).bind_passes ?_))
      rw [Coded.ofCode?_code]
      exact (passes_event e.type e).through rfl

theorem sends_required {c : Codec τ} {what : String} {blank : τ} {r : InPlace Outlet τ Unit}
    (h : ∀ t, Sends r t (c.emit terms t) ()) (slot : Option τ) :
    Sends (required what blank r) slot ((c.required what).emit terms slot) () := by
  cases slot with
  | none => exact (sends_whenReading _ none).silent_bind (.of_value (sends_throw none _ ()))
  | some t => exact (sends_whenReading _ (some t)).silent_bind (.of_value ((h t).through rfl))

theorem sends_projectError (e : ProjectError) :
    Sends (projectError terms) e (Codec.projectError.emit terms e) () :=
  ((sends_optionalText e.message).part rfl).bind
    (((sends_optionalText e.projectFile).part rfl).bind (((sends_span e.span).part rfl).bind
      (((sends_optionalText e.subcategory).part rfl).bind
        (((sends_optionalText e.code).part rfl).bind (((sends_optionalText e.help).part rfl).bind
          ((sends_bool e.logged).part rfl))))))

theorem passes_loggerError (e : LoggerError) :
    Passes (loggerError terms) e (Codec.loggerErrorOpening terms e)
      { e with event := e.event.map Event.sent } (Codec.loggerErrorRest terms e) () := by
  let after := { e with event := e.event.map Event.sent }
  have hrest : Sends (do
        part LoggerError.errorCode (fun e errorCode => { e with errorCode }) (optionalText terms)
        part LoggerError.help (fun e help => { e with help }) (optionalText terms)
        part LoggerError.initialization (fun e initialization => { e with initialization })
          (bool terms)) after
      (Codec.optionalText.emit terms e.errorCode ++
        (Codec.optionalText.emit terms e.help ++ Codec.bool.emit terms e.initialization)) () :=
    ((sends_optionalText after.errorCode).part rfl).bind
      (((sends_optionalText after.help).part rfl).bind
        ((sends_bool after.initialization).part rfl))
  exact ((sends_optionalText e.message).part rfl).bind_passes
    (((sends_optionalText e.inner).part rfl).bind_passes
      (((passes_optionalEvent e.event).part rfl).bind hrest))

variable (terms : Terms) (sink : Sink)

theorem write_event (expected : EventType) (e : Event) :
    write (event terms expected) e sink = e.writeAs terms expected sink :=
  (passes_event expected e).write sink

theorem write_optionalEvent (e? : Option Event) :
    write (optionalEvent terms) e? sink = Codec.writeOptionalEvent terms e? sink :=
  (passes_optionalEvent e?).write sink

theorem write_projectErrorSlot (slot : Option ProjectError) :
    write (projectErrorSlot terms) slot sink = Codec.projectErrorSlot.write terms slot sink :=
  (sends_required sends_projectError slot).write sink

theorem write_loggerErrorSlot (slot : Option LoggerError) :
    write (loggerErrorSlot terms) slot sink = Codec.writeLoggerErrorSlot terms slot sink := by
  cases slot with
  | none =>
      exact ((sends_whenReading _ none).silent_bind (.of_value (sends_throw none _ ()))).write sink
  | some e =>
      exact ((sends_whenReading _ (some e)).silent_passes
        ((sends_value (some e)).silent_passes ((passes_loggerError e).through rfl))).write sink

end InPlace

/-- What becomes of an event that is written. Its frame is opened once the byte for the shape is
through: then a custom event has its message formatted, and any event forgets its local time. -/
structure Event.Kept (opened : Prop) (before after : Event) : Prop where
  kind : after.kind = before.kind
  help : after.help = before.help
  sender : after.sender = before.sender
  time : after.time = before.time
  thread : after.thread = before.thread
  context : after.context = before.context
  formatted : opened → before.type = .custom →
    after.message = ⟨.formatted before.message.text, before.message.locale⟩
  message : ¬(opened ∧ before.type = .custom) → after.message = before.message
  forgotten : opened → after.localTime = none
  localTime : ¬opened → after.localTime = before.localTime

structure LoggerError.Kept (opened : Prop) (before after : LoggerError) : Prop where
  message : after.message = before.message
  inner : after.inner = before.inner
  event : Option.Rel (Event.Kept opened) before.event after.event
  errorCode : after.errorCode = before.errorCode
  help : after.help = before.help
  initialization : after.initialization = before.initialization

theorem Message.settled_eq (message : Message) :
    message.settled = ⟨.formatted message.text, message.locale⟩ := by
  cases message with
  | mk state locale =>
      cases state with
      | formatted text => rfl
      | raw template args => cases template <;> rfl

namespace Event

variable {opened : Prop} {before after : Event}

theorem kept_self (e : Event) (h : ¬opened) : e.Kept opened e where
  kind := rfl
  help := rfl
  sender := rfl
  time := rfl
  thread := rfl
  context := rfl
  formatted hopened := absurd hopened h
  message _ := rfl
  forgotten hopened := absurd hopened h
  localTime _ := rfl

theorem kept_sent (e : Event) (h : opened) : e.Kept opened e.sent := by
  unfold sent
  split
  case isTrue hlazy =>
    have hcustom : e.type ≠ .custom := EventType.isLazy_iff.1 hlazy
    exact ⟨rfl, rfl, rfl, rfl, rfl, rfl, fun _ htype => absurd htype hcustom, fun _ => rfl,
      fun _ => rfl, fun hnot => absurd h hnot⟩
  case isFalse hfinal =>
    have hcustom : e.type = .custom :=
      Decidable.not_not.1 fun hother => hfinal (EventType.isLazy_iff.2 hother)
    exact ⟨rfl, rfl, rfl, rfl, rfl, rfl, fun _ _ => e.message.settled_eq,
      fun hnot => absurd ⟨h, hcustom⟩ hnot, fun _ => rfl, fun hnot => absurd h hnot⟩

end Event

namespace LoggerError

variable {opened : Prop} {e : LoggerError}

theorem kept_of_event {event : Option Event} (h : Option.Rel (Event.Kept opened) e.event event) :
    e.Kept opened { e with event } :=
  ⟨rfl, rfl, h, rfl, rfl, rfl⟩

def front (terms : Terms) (e : LoggerError) : Emission :=
  Codec.optionalText.emit terms e.message ++ Codec.optionalText.emit terms e.inner

end LoggerError

namespace Sink

def HasRoom (n : Nat) : Sink → Prop
  | endless => True
  | limited room _ => n ≤ room

theorem failure_deliver_eq_none {sink : Sink} {e : Emission} :
    (sink.deliver e).failure = none ↔ e.failure = none ∧ sink.HasRoom e.bytes.length := by
  cases sink with
  | endless => exact (and_iff_left trivial).symm
  | limited room fault =>
      by_cases hroom : e.bytes.length ≤ room
      · simp [deliver, accept, HasRoom, hroom]
      · simp [deliver, accept, HasRoom, hroom]

end Sink

namespace Written

variable {α : Type}

theorem inParts_delivery (sink : Sink) (opening rest : Emission) (before after : α) :
    (inParts sink opening rest before after).delivery = sink.deliver (opening ++ rest) := by
  cases hopening : (sink.deliver opening).failure with
  | none => rw [inParts_of_done hopening, Sink.deliver_append_of_done hopening]
  | some error => rw [inParts_of_failed hopening, Sink.deliver_append_of_failed hopening]

theorem inParts_slot_self (sink : Sink) (opening rest : Emission) (a : α) :
    (inParts sink opening rest a a).slot = a := by
  unfold inParts
  extract_lets first
  cases first.failure <;> rfl

theorem inParts_slot (kept : α → α → Prop) {opened : Prop} {sink : Sink} {opening : Emission}
    (h : (sink.deliver opening).failure = none ↔ opened) {before after : α}
    (hbefore : ¬opened → kept before before) (hafter : opened → kept before after)
    (rest : Emission) : kept before (inParts sink opening rest before after).slot := by
  cases hopening : (sink.deliver opening).failure with
  | none =>
      rw [inParts_of_done hopening]
      exact hafter (h.1 hopening)
  | some error =>
      have hclosed : ¬opened := fun hopened => by cases hopening.symm.trans (h.2 hopened)
      rw [inParts_of_failed hopening]
      exact hbefore hclosed

end Written

namespace Codec

variable {terms : Terms} {sink : Sink}

theorem event_opened_iff {expected : EventType} {e : Event} :
    (sink.deliver (e.emitOpening terms expected)).failure = none ↔
      e.type = expected ∧ sink.HasRoom 1 := by
  rw [Sink.failure_deliver_eq_none, Event.emitOpening]
  split
  case isTrue htype => exact and_congr_left fun _ => iff_of_true rfl htype
  case isFalse htype =>
    constructor
    · rintro ⟨⟨⟩, -⟩
    · exact fun h => absurd h.1 htype

theorem optionalEventOpening_done (terms : Terms) (e : Event) :
    (optionalEventOpening terms (some e)).failure = none ∧
      (optionalEventOpening terms (some e)).bytes.length = 6 := by
  rw [optionalEventOpening, Event.emitOpening, if_pos rfl]
  exact ⟨rfl, rfl⟩

theorem optionalEvent_opened_iff {e : Event} :
    (sink.deliver (optionalEventOpening terms (some e))).failure = none ↔ sink.HasRoom 6 := by
  obtain ⟨hdone, hlength⟩ := optionalEventOpening_done terms e
  rw [Sink.failure_deliver_eq_none, hlength]
  exact and_iff_right hdone

theorem loggerError_opened_iff {e : LoggerError} {event : Event} (h : e.event = some event) :
    (sink.deliver (loggerErrorOpening terms e)).failure = none ↔
      (e.front terms).failure = none ∧ sink.HasRoom ((e.front terms).bytes.length + 6) := by
  obtain ⟨hdone, hlength⟩ := optionalEventOpening_done terms event
  have hopening : loggerErrorOpening terms e =
      e.front terms ++ optionalEventOpening terms (some event) := by
    rw [loggerErrorOpening, LoggerError.front, Emission.append_assoc, h]
  rw [Sink.failure_deliver_eq_none, hopening, Emission.failure_append_of_done _ hdone]
  refine and_congr_right fun hfront => ?_
  rw [Emission.bytes_append hfront, List.length_append, hlength]

end Codec

namespace InPlace

/-- On a writer the routine delivers what is to be emitted, as far as the sink takes it, and what
it has made of the value by then is what `kept` says. -/
def Delivers {σ : Type} (r : InPlace Outlet σ Unit) (emit : σ → Emission)
    (kept : Sink → σ → σ → Prop) : Prop :=
  ∀ a sink, (write r a sink).delivery = sink.deliver (emit a) ∧ kept sink a (write r a sink).slot

variable (terms : Terms)

theorem delivers_event (expected : EventType) :
    Delivers (event terms expected) (Event.emitAs terms expected) fun sink before after =>
      before.Kept (before.type = expected ∧ sink.HasRoom 1) after := by
  intro e sink
  rw [write_event]
  exact ⟨Written.inParts_delivery sink _ _ e _,
    Written.inParts_slot (Event.Kept _) Codec.event_opened_iff e.kept_self e.kept_sent _⟩

theorem delivers_optionalEvent :
    Delivers (optionalEvent terms) (Codec.optionalEvent.emit terms) fun sink =>
      Option.Rel (Event.Kept (sink.HasRoom 6)) := by
  intro e? sink
  rw [write_optionalEvent, Codec.optionalEvent_emit]
  refine ⟨Written.inParts_delivery sink _ _ e? _, ?_⟩
  cases e? with
  | none =>
      rw [Codec.writeOptionalEvent, Option.map_none, Written.inParts_slot_self]
      exact .none
  | some e =>
      exact Written.inParts_slot (Option.Rel _) Codec.optionalEvent_opened_iff
        (fun h => .some (e.kept_self h)) (fun h => .some (e.kept_sent h)) _

theorem delivers_projectErrorSlot :
    Delivers (projectErrorSlot terms) (Codec.projectErrorSlot.emit terms)
      fun _ before after => after = before := by
  intro slot sink
  rw [write_projectErrorSlot]
  exact ⟨rfl, rfl⟩

theorem delivers_loggerErrorSlot :
    Delivers (loggerErrorSlot terms) (Codec.loggerErrorSlot.emit terms) fun sink =>
      Option.Rel fun before after => before.Kept ((before.front terms).failure = none ∧
        sink.HasRoom ((before.front terms).bytes.length + 6)) after := by
  intro slot sink
  rw [write_loggerErrorSlot]
  cases slot with
  | none => exact ⟨rfl, .none⟩
  | some e =>
      have hemit : Codec.loggerErrorSlot.emit terms (some e) =
          Codec.loggerErrorOpening terms e ++ Codec.loggerErrorRest terms e :=
        Codec.loggerError_emit terms e
      rw [hemit]
      refine ⟨Written.inParts_delivery sink _ _ (some e) _, ?_⟩
      cases hevent : e.event with
      | none =>
          have hsame : { e with event := e.event.map Event.sent } = e := by
            rw [hevent, Option.map_none, ← hevent]
          rw [Codec.writeLoggerErrorSlot, hsame, Written.inParts_slot_self]
          exact .some (e.kept_of_event (hevent ▸ .none))
      | some event =>
          refine Written.inParts_slot (Option.Rel _) (Codec.loggerError_opened_iff hevent)
            (fun h => .some ?_) (fun h => .some ?_) _
          · exact LoggerError.kept_of_event (hevent ▸ .some (event.kept_self h))
          · exact LoggerError.kept_of_event (hevent ▸ .some (event.kept_sent h))

end InPlace

theorem written_values_are_kept (terms : Terms) :
    (∀ expected,
      InPlace.Delivers (InPlace.event terms expected) (Event.emitAs terms expected)
        fun sink before after => before.Kept (before.type = expected ∧ sink.HasRoom 1) after) ∧
    InPlace.Delivers (InPlace.optionalEvent terms) (Codec.optionalEvent.emit terms)
      (fun sink => Option.Rel (Event.Kept (sink.HasRoom 6))) ∧
    InPlace.Delivers (InPlace.projectErrorSlot terms) (Codec.projectErrorSlot.emit terms)
      (fun _ before after => after = before) ∧
    InPlace.Delivers (InPlace.loggerErrorSlot terms) (Codec.loggerErrorSlot.emit terms)
      (fun sink => Option.Rel fun before after =>
        before.Kept ((before.front terms).failure = none ∧
          sink.HasRoom ((before.front terms).bytes.length + 6)) after) :=
  ⟨InPlace.delivers_event terms, InPlace.delivers_optionalEvent terms,
    InPlace.delivers_projectErrorSlot terms, InPlace.delivers_loggerErrorSlot terms⟩

theorem written_event_forgets_local_time :
    let asked : Event := (Event.readLocalTime (fun _ => 3600) (.blank .buildStarted)).2
    let written := InPlace.write (InPlace.event ⟨3, {}⟩ .buildStarted) asked .endless
    asked.type ≠ .custom ∧ asked.localTime = some ⟨.epoch, 3600⟩ ∧
      written.delivery.failure = none ∧ written.slot.localTime = none := by
  decide

end BuildFeed
