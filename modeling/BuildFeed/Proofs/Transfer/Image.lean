import BuildFeed.Packet

namespace BuildFeed

def Instant.normal (t : Instant) : Instant :=
  ofNanos t.toNanos

theorem Instant.normal_of_lt {t : Instant} (h : t.nanos < nanosPerSecond) : t.normal = t := by
  cases t with
  | mk seconds nanos =>
      simp only [normal, ofNanos, toNanos, nanosPerSecond, Instant.mk.injEq] at h ⊢
      omega

def MessageParts.argsIn (version : Int32) (parts : MessageParts) : Option (List Arg) :=
  if version < typedArgsVersion then parts.renderedArgs.map (·.map .text) else parts.args

def Message.withTextArgs (message : Message) : Message :=
  match message.state with
  | .raw template args =>
      let locale := Locale.resolve (message.locale.getD "")
      { message with state := .raw template (args.map fun arg => .text (arg.toText locale)) }
  | .formatted _ => message

def PropertyTable.image (t : PropertyTable) : PropertyTable where
  entries := t.entries.filter fun entry => entry.1 ≠ "" ∧ entry.2 ≠ ""
  nodup := (List.filter_sublist.map _).nodup t.nodup

theorem PropertyTable.filled_eq_image (t : PropertyTable) : t.filled = t.image :=
  rfl

theorem PropertyTable.image_image (t : PropertyTable) : t.image.image = t.image := by
  apply eq_of_entries
  simp only [image, List.filter_filter, Bool.and_self]

def ProjectStart.image (start : ProjectStart) : ProjectStart :=
  { start with properties := start.properties.map PropertyTable.image }

def Diagnostic.image (version : Int32) (d : Diagnostic) : Diagnostic :=
  { d with helpLink := if version < helpLinkVersion then none else d.helpLink }

def EventKind.image (version : Int32) : EventKind → EventKind
  | projectStarted start => projectStarted start.image
  | error d => error (d.image version)
  | warning d => warning (d.image version)
  | kind => kind

theorem EventKind.type_image (version : Int32) (kind : EventKind) :
    (kind.image version).type = kind.type := by
  cases kind <;> rfl

namespace Event

def imageMessage (version : Int32) (e : Event) : Message :=
  if e.type.isLazy then
    if version < typedArgsVersion then e.message.withTextArgs else e.message
  else .plain e.message.text

def image (version : Int32) (e : Event) : Event :=
  { e with
    kind := e.kind.image version
    message := e.imageMessage version
    time := e.time.normal
    localTime := none }

theorem type_image (version : Int32) (e : Event) : (e.image version).type = e.type :=
  EventKind.type_image version e.kind

theorem text_image {version : Int32} (h : typedArgsVersion ≤ version) (e : Event) :
    (e.image version).message.text = e.message.text := by
  simp only [image, imageMessage, if_neg (Int32.not_lt.2 h)]
  split
  · rfl
  · rfl

end Event

def LoggerError.image (version : Int32) (e : LoggerError) : LoggerError :=
  { e with event := e.event.map (Event.image version) }

theorem LoggerError.type_image (version : Int32) (e : LoggerError) :
    (e.image version).event.map Event.type = e.event.map Event.type := by
  cases h : e.event with
  | none => simp [image, h]
  | some event => simp [image, h, Event.type_image]

def Packet.image (version : Int32) : Packet → Packet
  | event e => event (e.image version)
  | projectError e => projectError e
  | loggerError e => loggerError (e.image version)

end BuildFeed
