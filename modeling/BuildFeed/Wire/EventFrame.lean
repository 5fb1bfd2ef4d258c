import BuildFeed.Event.Basic
import BuildFeed.Wire.EventKind

/-!
Frames of build events:

* a byte for the shape, 1 for custom events and 2 for all others;
* the header: message, help, sender, time, thread, context;
* of the lazy shape, the arguments as text and the locale;
* the block of the event's kind;
* of the lazy shape, from version 3 on, the kind of each argument and the value of each number.

A frame does not name the type of its event; the reader has to know it.
-/

namespace BuildFeed

def typedArgsVersion : Int32 := 3

inductive ArgKind where
  | text
  | integer
  | decimal
  deriving DecidableEq, Inhabited

instance : Coded ArgKind where
  title := "argument kind"
  all := [.text, .integer, .decimal]
  code
    | .text => 0
    | .integer => 1
    | .decimal => 2
  mem_all a := by cases a <;> decide
  code_inj {a b} h := by revert h; cases a <;> cases b <;> decide

namespace Arg

def kind : Arg → ArgKind
  | text _ => .text
  | integer _ => .integer
  | decimal _ => .decimal

def emitTyped (terms : Terms) (arg : Arg) : Emission :=
  Codec.coded.emit terms arg.kind ++
    match arg with
    | text _ => ∅
    | integer n => Codec.int64.emit terms n
    | decimal d => Codec.uint64.emit terms d.bits

def readTyped (terms : Terms) (value : String) : Read Arg := do
  match (← Codec.coded.parse terms : ArgKind) with
  | .text => pure (text value)
  | .integer => integer <$> Codec.int64.parse terms
  | .decimal => (decimal ⟨·⟩) <$> Codec.uint64.parse terms

def readAll (terms : Terms) (values : List String) : Read (List Arg) :=
  if terms.version < typedArgsVersion then pure (values.map text)
  else values.mapM (readTyped terms)

end Arg

def EventType.shape (type : EventType) : UInt8 :=
  if type.isLazy then 2 else 1

namespace Event

def sentParts (e : Event) : MessageParts :=
  if e.type.isLazy then e.message.toParts else ⟨e.message.text, none, none⟩

def emitOpening (terms : Terms) (expected : EventType) (e : Event) : Emission :=
  if e.type = expected then Codec.byte.emit terms expected.shape
  else .fail (.typeMismatch expected e.type)

def emitHeader (terms : Terms) (e : Event) : Emission :=
  Codec.optionalText.emit terms e.sentParts.text ++
    (Codec.optionalText.emit terms e.help ++
      (Codec.optionalText.emit terms e.sender ++
        (Codec.instant.emit terms e.time ++
          (Codec.int32.emit terms e.thread ++ Codec.context.emit terms e.context))))

def emitArgTexts (terms : Terms) (parts : MessageParts) : Emission :=
  Codec.argTexts.emit terms parts.renderedArgs ++ Codec.optionalText.emit terms parts.locale

def emitTypedArgs (terms : Terms) (parts : MessageParts) : Emission :=
  if terms.version < typedArgsVersion then ∅
  else .concat ((parts.args.getD []).map (Arg.emitTyped terms))

def emitBody (terms : Terms) (e : Event) : Emission :=
  if e.type.isLazy then
    e.emitHeader terms ++
      (emitArgTexts terms e.sentParts ++ (e.kind.emit terms ++ emitTypedArgs terms e.sentParts))
  else e.emitHeader terms ++ e.kind.emit terms

def emitAs (terms : Terms) (expected : EventType) (e : Event) : Emission :=
  e.emitOpening terms expected ++ e.emitBody terms

def emit (terms : Terms) (e : Event) : Emission :=
  e.emitAs terms e.type

def readArgTexts (terms : Terms) (type : EventType) :
    Read (Option (List String) × Option String) := do
  if type.isLazy then
    let texts ← Codec.argTexts.parse terms
    let locale ← Codec.optionalText.parse terms
    pure (texts, locale)
  else pure (none, none)

def read (terms : Terms) (expected : EventType) : Read Event := do
  let shape ← Codec.byte.parse terms
  if shape ≠ expected.shape then throw (.shapeMismatch expected shape)
  let text ← Codec.optionalText.parse terms
  let help ← Codec.optionalText.parse terms
  let sender ← Codec.optionalText.parse terms
  let time ← Codec.instant.parse terms
  let thread ← Codec.int32.parse terms
  let context ← Codec.context.parse terms
  let (texts, locale) ← readArgTexts terms expected
  let kind ← EventKind.read terms expected
  let args ← texts.mapM (Arg.readAll terms)
  pure { kind, message := .ofParts ⟨text, args, locale⟩, help, sender, time, thread, context }

def sent (e : Event) : Event :=
  if e.type.isLazy then e.copy else { e.copy with message := e.message.settled }

end Event

def Codec.event (expected : EventType) : Codec Event where
  emit terms e := e.emitAs terms expected
  read terms _ := Event.read terms expected
  blank := .blank expected

def Codec.optionalEvent : Codec (Option Event) where
  emit terms
    | none => bool.emit terms false
    | some e => bool.emit terms true ++ (int32.emit terms (Coded.code e.type) ++ e.emit terms)
  read terms e? := do
    if ← bool.read terms e?.isSome then
      let code ← int32.read terms ((e?.map fun e => Coded.code e.type).getD 0)
      match Coded.ofCode? code with
      | some type => some <$> Event.read terms type
      | none => throw (.unknownEventType code)
    else pure none
  blank := none

end BuildFeed
