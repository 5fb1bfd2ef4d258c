import BuildFeed.Wire.ErrorFrame

namespace BuildFeed

structure Written (α : Type) where
  slot : α
  delivery : Delivery

def Codec.write {α : Type} (c : Codec α) (terms : Terms) (a : α) (sink : Sink) : Written α :=
  ⟨a, sink.deliver (c.emit terms a)⟩

/-- Writes an emission in two parts. The slot changes only once the first part is through. -/
def Written.inParts {α : Type} (sink : Sink) (opening rest : Emission) (before after : α) :
    Written α :=
  let first := sink.deliver opening
  match first.failure with
  | some _ => ⟨before, first⟩
  | none =>
      let second := first.sink.deliver rest
      ⟨after, { second with accepted := first.accepted ++ second.accepted }⟩

namespace Event

def writeAs (terms : Terms) (expected : EventType) (e : Event) (sink : Sink) : Written Event :=
  .inParts sink (e.emitOpening terms expected) (e.emitBody terms) e e.sent

end Event

namespace Codec

def optionalEventOpening (terms : Terms) : Option Event → Emission
  | none => bool.emit terms false
  | some e =>
      bool.emit terms true ++
        (int32.emit terms (Coded.code e.type) ++ e.emitOpening terms e.type)

def optionalEventRest (terms : Terms) : Option Event → Emission
  | none => ∅
  | some e => e.emitBody terms

def writeOptionalEvent (terms : Terms) (e? : Option Event) (sink : Sink) :
    Written (Option Event) :=
  .inParts sink (optionalEventOpening terms e?) (optionalEventRest terms e?) e?
    (e?.map Event.sent)

def loggerErrorOpening (terms : Terms) (e : LoggerError) : Emission :=
  optionalText.emit terms e.message ++
    (optionalText.emit terms e.inner ++ optionalEventOpening terms e.event)

def loggerErrorRest (terms : Terms) (e : LoggerError) : Emission :=
  optionalEventRest terms e.event ++
    (optionalText.emit terms e.errorCode ++
      (optionalText.emit terms e.help ++ bool.emit terms e.initialization))

def writeLoggerErrorSlot (terms : Terms) (slot : Option LoggerError) (sink : Sink) :
    Written (Option LoggerError) :=
  match slot with
  | none => loggerErrorSlot.write terms none sink
  | some e =>
      .inParts sink (loggerErrorOpening terms e) (loggerErrorRest terms e) slot
        (some { e with event := e.event.map Event.sent })

theorem optionalEvent_emit (terms : Terms) (e? : Option Event) :
    optionalEvent.emit terms e? = optionalEventOpening terms e? ++ optionalEventRest terms e? := by
  cases e? with
  | none => exact (Emission.append_empty _).symm
  | some e =>
      simp only [optionalEvent, optionalEventOpening, optionalEventRest, Event.emit, Event.emitAs,
        Emission.append_assoc]

theorem loggerError_emit (terms : Terms) (e : LoggerError) :
    loggerError.emit terms e = loggerErrorOpening terms e ++ loggerErrorRest terms e := by
  change optionalText.emit terms e.message ++ (optionalText.emit terms e.inner ++
    (optionalEvent.emit terms e.event ++ (optionalText.emit terms e.errorCode ++
      (optionalText.emit terms e.help ++ bool.emit terms e.initialization)))) = _
  simp only [optionalEvent_emit, loggerErrorOpening, loggerErrorRest, Emission.append_assoc]

end Codec

end BuildFeed
