import BuildFeed.Message.Template

namespace BuildFeed

inductive MessageState where
  | raw (template : Option String) (args : List Arg)
  | formatted (text : Option String)
  deriving DecidableEq, Inhabited

structure Message where
  state : MessageState
  locale : Option String
  deriving DecidableEq

structure MessageParts where
  text : Option String
  args : Option (List Arg)
  locale : Option String
  deriving DecidableEq, Inhabited

abbrev Formatter (m : Type → Type) :=
  Locale → String → List Arg → m (Except FormatError String)

abbrev Resolver := String → Locale

def MessageParts.renderedArgsWith (resolve : Resolver) (parts : MessageParts) :
    Option (List String) :=
  parts.args.map (·.map (Arg.toText (resolve (parts.locale.getD ""))))

def MessageParts.renderedArgs (parts : MessageParts) : Option (List String) :=
  parts.renderedArgsWith Locale.resolve

namespace Message

def plain (text : Option String) : Message :=
  ⟨.formatted text, none⟩

instance : Inhabited Message := ⟨plain none⟩

def lazyIn (template : String) (args : List Arg) (locale : String) : Message :=
  ⟨.raw (some template) args, some locale⟩

def lazyHere (env : Environment) (template : String) (args : List Arg) : Message :=
  lazyIn template args (Locale.currentName env)

def ofParts (parts : MessageParts) : Message :=
  match parts.args with
  | some args => ⟨.raw parts.text args, parts.locale⟩
  | none => ⟨.formatted parts.text, parts.locale⟩

def toParts (message : Message) : MessageParts :=
  match message.state with
  | .raw template args => ⟨template, some args, message.locale⟩
  | .formatted text => ⟨text, none, message.locale⟩

def isFormatted (message : Message) : Bool :=
  match message.state with
  | .raw _ _ => false
  | .formatted _ => true

def args (message : Message) : Option (List Arg) :=
  message.toParts.args

def readWith {m : Type → Type} [Monad m] (format : Formatter m) (resolve : Resolver)
    (message : Message) : m (Option String × Message) := do
  match message.state with
  | .formatted text => pure (text, message)
  | .raw none _ => pure (none, { message with state := .formatted none })
  | .raw (some template) args =>
      let outcome ← format (resolve (message.locale.getD "")) template args
      let text := match outcome with
        | .ok text => text
        | .error error => error.diagnostic template
      pure (some text, { message with state := .formatted (some text) })

def read (message : Message) : Option String × Message :=
  message.readWith (m := Id) Template.format Locale.resolve

def text (message : Message) : Option String :=
  message.read.1

def settled (message : Message) : Message :=
  message.read.2

def sameState : MessageState → MessageState → Bool
  | .raw s as, .raw t bs => s = t && as.length = bs.length && (as.zip bs).all fun (a, b) => a.same b
  | .formatted s, .formatted t => s = t
  | _, _ => false

def same (a b : Message) : Bool :=
  a.locale = b.locale && sameState a.state b.state

theorem ofParts_toParts (message : Message) : ofParts message.toParts = message := by
  cases message with
  | mk state locale => cases state <;> rfl

theorem toParts_locale (message : Message) : message.toParts.locale = message.locale := by
  cases message with
  | mk state locale => cases state <;> rfl

theorem toParts_ofParts (parts : MessageParts) : (ofParts parts).toParts = parts := by
  cases parts with
  | mk text args locale => cases args <;> rfl

end Message

end BuildFeed
