import BuildFeed.Event.Kind
import BuildFeed.Instant
import BuildFeed.Message.Lazy

namespace BuildFeed

structure Event where
  kind : EventKind
  message : Message
  help : Option String := none
  sender : Option String := none
  time : Instant := .epoch
  thread : Int32 := 0
  context : Context := .invalid
  localTime : Option LocalTime := none
  deriving DecidableEq

inductive Event.Assignment where
  | kind (value : EventKind)
  | message (value : Message)
  | help (value : Option String)
  | sender (value : Option String)
  | time (value : Instant)
  | thread (value : Int32)
  | context (value : Context)

namespace Event

def buildSender : String := "buildwire"

def of (kind : EventKind) (message : Message) (time : Instant) (thread : Int32) : Event :=
  { kind, message, time, thread }

def isStatus : EventType → Bool
  | .custom | .error | .warning | .message => false
  | _ => true

def raised (kind : EventKind) (message : Message) (time : Instant) (thread : Int32) : Event :=
  let sender := if isStatus kind.type then some buildSender else none
  { kind, message, sender, time, thread }

def blank (type : EventType) : Event :=
  { kind := .blank type, message := .plain none }

def type (e : Event) : EventType :=
  e.kind.type

def withHelp (e : Event) (help : String) : Event :=
  { e with help := some help }

def withSender (e : Event) (sender : String) : Event :=
  { e with sender := some sender }

def withTime (e : Event) (time : Instant) : Event :=
  { e with time, localTime := none }

def withThread (e : Event) (thread : Int32) : Event :=
  { e with thread }

def withContext (e : Event) (context : Context) : Event :=
  { e with context }

def assign (e : Event) (assignment : Assignment) : Event :=
  let e := { e with localTime := none }
  match assignment with
  | .kind kind => { e with kind }
  | .message message => { e with message }
  | .help help => { e with help }
  | .sender sender => { e with sender }
  | .time time => { e with time }
  | .thread thread => { e with thread }
  | .context context => { e with context }

def copy (e : Event) : Event :=
  { e with localTime := none }

def readLocalTime (zone : Zone) (e : Event) : LocalTime × Event :=
  let t := e.localTime.getD (e.time.inZone zone)
  (t, { e with localTime := some t })

def readMessage (e : Event) : Option String × Event :=
  let (text, message) := e.message.read
  (text, { e with message })

def attributedTo (e : Event) (node : Int32) : Event :=
  { e with context := e.context.attributedTo node }

def summary (e : Event) : String :=
  e.kind.summary

def same (a b : Event) : Bool :=
  a.message.same b.message && a.help = b.help && a.sender = b.sender && a.time = b.time &&
    a.thread = b.thread && a.context = b.context && a.kind.same b.kind

end Event

end BuildFeed
