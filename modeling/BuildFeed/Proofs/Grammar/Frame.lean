import BuildFeed.Wire.EventFrame
import Mathlib.Computability.Language
import Mathlib.Data.Nat.Digits.Defs

namespace BuildFeed.Grammar

variable {α : Type}

def given (p : Prop) (l : Language UInt8) : Language UInt8 :=
  {bytes | p ∧ bytes ∈ l}

theorem mem_given {p : Prop} {l : Language UInt8} {bytes : List UInt8} :
    bytes ∈ given p l ↔ p ∧ bytes ∈ l :=
  Iff.rfl

theorem given_of {p : Prop} (h : p) (l : Language UInt8) : given p l = l := by
  ext bytes
  exact and_iff_right h

theorem mul_given (p : Prop) (l m : Language UInt8) : l * given p m = given p (l * m) := by
  ext bytes
  constructor
  · intro h
    obtain ⟨front, hfront, back, ⟨hp, hback⟩, rfl⟩ := Language.mem_mul.1 h
    exact ⟨hp, Language.append_mem_mul hfront hback⟩
  · rintro ⟨hp, h⟩
    obtain ⟨front, hfront, back, hback, rfl⟩ := Language.mem_mul.1 h
    exact Language.append_mem_mul hfront ⟨hp, hback⟩

def any (spell : α → Language UInt8) : Language UInt8 :=
  {bytes | ∃ a, bytes ∈ spell a}

def word (width n : Nat) : Language UInt8 :=
  {bytes | bytes.length = width ∧ Nat.ofDigits 256 (bytes.map UInt8.toNat) = n}

def int32 (n : Int32) : Language UInt8 :=
  word 4 n.toUInt32.toNat

def int64 (n : Int64) : Language UInt8 :=
  word 8 n.toUInt64.toNat

def flag (b : Bool) : Language UInt8 :=
  {[if b then 1 else 0]}

def optional (spell : α → Language UInt8) : Option α → Language UInt8
  | none => flag false
  | some a => flag true * spell a

def coded [Coded α] (a : α) : Language UInt8 :=
  int32 (Coded.code a)

def encoded (s : String) : List UInt8 :=
  s.toList.flatMap String.utf8EncodeChar

def text (limits : Limits) (s : String) : Language UInt8 :=
  given ((encoded s).length ≤ limits.maxText) (word 4 (encoded s).length * {encoded s})

def optionalText (limits : Limits) : Option String → Language UInt8 :=
  optional (text limits)

def counted (limits : Limits) (spell : α → Language UInt8) (as : List α) : Language UInt8 :=
  {bytes | ∃ n : Int32, n.toInt = as.length ∧ as.length ≤ limits.maxItems ∧
    bytes ∈ int32 n * (as.map spell).prod}

def contextIds (c : Context) : Language UInt8 :=
  int32 c.node * int32 c.project * int32 c.target * int32 c.task * int32 c.submission *
    int32 c.instanceId

/-- An absent context is the invalid one, which may also be spelled out. -/
def context (c : Context) : Language UInt8 :=
  {bytes | ∃ ids? : Option Context, ids?.getD .invalid = c ∧ bytes ∈ optional contextIds ids?}

def instant (t : Instant) : Language UInt8 :=
  {bytes | ∃ n : Int64, t.toNanos = n.toInt ∧ t.nanos < Instant.nanosPerSecond ∧ bytes ∈ int64 n}

def span (s : Span) : Language UInt8 :=
  int32 s.line * int32 s.column * int32 s.endLine * int32 s.endColumn

def header (limits : Limits) (e : Event) : Language UInt8 :=
  optionalText limits e.message.toParts.text * optionalText limits e.help *
    optionalText limits e.sender * instant e.time * int32 e.thread * context e.context

def argument (limits : Limits) (value : String) : Language UInt8 :=
  {bytes | ∃ value? : Option String, value?.getD "" = value ∧ bytes ∈ optionalText limits value?}

def arguments (limits : Limits) : Option (List String) → Language UInt8 :=
  optional (counted limits (argument limits))

/-- What pairs of names and values come to: a name stands where it was first given, with the value
it was given last. -/
def Gathers (pairs : List (String × String)) (t : PropertyTable) : Prop :=
  t.entries.map Prod.fst = (pairs.map Prod.fst).eraseDups ∧
    ∀ entry ∈ t.entries, pairs.reverse.lookup entry.1 = some entry.2

def property (limits : Limits) (pair : String × String) : Language UInt8 :=
  text limits pair.1 * text limits pair.2

def propertyTable (limits : Limits) (t : PropertyTable) : Language UInt8 :=
  {bytes | ∃ pairs, Gathers pairs t ∧ bytes ∈ counted limits (property limits) pairs}

def projectStart (limits : Limits) (p : ProjectStart) : Language UInt8 :=
  int32 p.id * optional contextIds p.parent * optionalText limits p.file *
    counted limits (text limits) p.targets * optional (propertyTable limits) p.properties

def projectFinish (limits : Limits) (p : ProjectFinish) : Language UInt8 :=
  flag p.succeeded * optionalText limits p.file

def targetStart (limits : Limits) (t : TargetStart) : Language UInt8 :=
  optionalText limits t.name * optionalText limits t.projectFile * optionalText limits t.file *
    optionalText limits t.parent * coded t.reason

def targetFinish (limits : Limits) (t : TargetFinish) : Language UInt8 :=
  optionalText limits t.projectFile * optionalText limits t.file * optionalText limits t.name *
    flag t.succeeded

def helpLink (terms : Terms) (link : Option String) : Language UInt8 :=
  if 2 ≤ terms.version then optionalText terms.limits link else given (link = none) 1

theorem helpLink_of_lt {terms : Terms} (h : terms.version < helpLinkVersion)
    (link : Option String) : helpLink terms link = given (link = none) 1 :=
  if_neg (Int32.not_le.2 h)

def diagnostic (terms : Terms) (d : Diagnostic) : Language UInt8 :=
  optionalText terms.limits d.subcategory * optionalText terms.limits d.code *
    optionalText terms.limits d.file * optionalText terms.limits d.projectFile * span d.span *
      helpLink terms d.helpLink

def note (limits : Limits) (n : Note) : Language UInt8 :=
  optionalText limits n.subcategory * optionalText limits n.code * optionalText limits n.file *
    optionalText limits n.projectFile * coded n.importance * span n.span

def kindData (terms : Terms) : EventKind → Language UInt8
  | .custom | .buildStarted => 1
  | .buildFinished succeeded => flag succeeded
  | .projectStarted start => projectStart terms.limits start
  | .projectFinished finish => projectFinish terms.limits finish
  | .targetStarted start => targetStart terms.limits start
  | .targetFinished finish => targetFinish terms.limits finish
  | .error d | .warning d => diagnostic terms d
  | .message n => note terms.limits n

def block (terms : Terms) (expected : EventType) (kind : EventKind) : Language UInt8 :=
  given (kind.type = expected) (kindData terms kind)

def argKind : Arg → Int32
  | .text _ => 0
  | .integer _ => 1
  | .decimal _ => 2

def argValue (value : String) : Arg → Language UInt8
  | .text s => given (s = value) 1
  | .integer n => int64 n
  | .decimal d => word 8 d.bits.toNat

def typedArg (value : String) (arg : Arg) : Language UInt8 :=
  int32 (argKind arg) * argValue value arg

def typedArgs (version : Int32) : Option (List String) → Option (List Arg) → Language UInt8
  | none, none => 1
  | some values, some args =>
      if 3 ≤ version then
        given (values.length = args.length) (List.zipWith typedArg values args).prod
      else given (args = values.map .text) 1
  | _, _ => 0

theorem typedArgs_of_lt {version : Int32} (h : version < typedArgsVersion) (values : List String)
    (args : List Arg) :
    typedArgs version (some values) (some args) = given (args = values.map .text) 1 :=
  if_neg (Int32.not_le.2 h)

theorem typedArgs_of_not_lt {version : Int32} (h : ¬version < typedArgsVersion)
    (values : List String) (args : List Arg) :
    typedArgs version (some values) (some args) =
      given (values.length = args.length) (List.zipWith typedArg values args).prod :=
  if_pos (Int32.not_lt.1 h)

def body (terms : Terms) (expected : EventType) (e : Event) : Language UInt8 :=
  let parts := e.message.toParts
  if expected = .custom then
    given (parts.args = none ∧ parts.locale = none) (block terms expected e.kind)
  else
    any fun values => arguments terms.limits values * optionalText terms.limits parts.locale *
      block terms expected e.kind * typedArgs terms.version values parts.args

def frame (terms : Terms) (expected : EventType) (e : Event) : Language UInt8 :=
  given (e.localTime = none)
    ({[if expected = .custom then 1 else 2]} * header terms.limits e * body terms expected e)

end BuildFeed.Grammar
