import BuildFeed.Locale
import BuildFeed.Toml.Document
import BuildFeed.Wire.Codec

namespace BuildFeed

inductive ConfigError where
  | unreadable
  | malformed
  | unsupportedVersion (version : Int32)
  | zeroQueueDepth
  deriving DecidableEq

def ConfigError.message : ConfigError → String
  | unreadable => "configuration file cannot be read"
  | malformed => "invalid config file"
  | unsupportedVersion version => "unsupported protocol version " ++ toString version
  | zeroQueueDepth => "queue depth must be at least 1"

namespace Environment

def int32? (env : Environment) (name : String) : Option Int32 :=
  (env.value? name).bind fun s => Text.int32? s.toList

def word64? (env : Environment) (name : String) : Option Nat :=
  (env.value? name).bind fun s => Text.word64? s.toList

def version? (env : Environment) : Option Int32 :=
  env.int32? "BW_PROTOCOL_VERSION"

def queueDepth? (env : Environment) : Option Nat :=
  env.word64? "BW_QUEUE_DEPTH"

def maxText? (env : Environment) : Option Nat :=
  env.word64? "BW_MAX_STRING_LEN"

def maxItems? (env : Environment) : Option Nat :=
  env.word64? "BW_MAX_COLLECTION_LEN"

def locale? (env : Environment) : Option String :=
  env.value? "BW_LOCALE"

def logFilter? (env : Environment) : Option String :=
  env.value? "BW_LOG"

end Environment

structure Config where
  version : Int32 := currentVersion
  queueDepth : Nat := 1024
  limits : Limits := {}
  locale : Option String := none
  deriving DecidableEq

namespace Config

def fault? (c : Config) : Option ConfigError :=
  if c.version < oldestVersion ∨ currentVersion < c.version then
    some (.unsupportedVersion c.version)
  else if c.queueDepth = 0 then some .zeroQueueDepth
  else none

def checked (c : Config) : Except ConfigError Config :=
  match c.fault? with
  | some error => .error error
  | none => .ok c

def overridden (c : Config) (env : Environment) : Config :=
  { version := env.version?.getD c.version
    queueDepth := env.queueDepth?.getD c.queueDepth
    limits :=
      { maxText := env.maxText?.getD c.limits.maxText
        maxItems := env.maxItems?.getD c.limits.maxItems }
    locale := env.locale? <|> c.locale }

def withEnvironment (c : Config) (env : Environment) : Except ConfigError Config :=
  (c.overridden env).checked

def ofEnvironment (env : Environment) : Except ConfigError Config :=
  withEnvironment {} env

def localeName (c : Config) (env : Environment) : String :=
  match c.locale with
  | some name => Locale.normalizeName name
  | none => Locale.currentName env

def nat? : Toml.Node → Option Nat
  | .integer n => if 0 ≤ n then some n.toNat else none
  | _ => none

def int32? : Toml.Node → Option Int32
  | .integer n =>
      if Int32.minValue.toInt ≤ n ∧ n ≤ Int32.maxValue.toInt then some (Int32.ofInt n) else none
  | _ => none

def text? : Toml.Node → Option String
  | .text s => some s
  | _ => none

def addLimit (limits : Limits) (entry : String × Toml.Node) : Option Limits :=
  match entry.1 with
  | "max_string_len" => (nat? entry.2).map fun maxText => { limits with maxText }
  | "max_collection_len" => (nat? entry.2).map fun maxItems => { limits with maxItems }
  | _ => some limits

def limits? : Toml.Node → Option Limits
  | .table _ entries => entries.foldlM addLimit {}
  | .array [] | .dateTime => some {}
  | .array [maxText] => (nat? maxText).map fun maxText => { maxText }
  | .array (maxText :: maxItems :: _) => do pure ⟨← nat? maxText, ← nat? maxItems⟩
  | _ => none

def addSetting (c : Config) (entry : String × Toml.Node) : Option Config :=
  match entry.1 with
  | "protocol_version" => (int32? entry.2).map fun version => { c with version }
  | "queue_depth" => (nat? entry.2).map fun queueDepth => { c with queueDepth }
  | "limits" => (limits? entry.2).map fun limits => { c with limits }
  | "locale" => (text? entry.2).map fun locale => { c with locale := some locale }
  | _ => none

def ofToml (text : String) : Except ConfigError Config :=
  match Toml.parse text >>= List.foldlM addSetting {} with
  | some c => c.checked
  | none => .error .malformed

def load (file : Option String) : Except ConfigError Config :=
  match file with
  | some text => ofToml text
  | none => .error .unreadable

end Config

end BuildFeed
