import BuildFeed.Wire.InPlace.Value

namespace BuildFeed.InPlace

variable {π σ : Type} [Port π] (terms : Terms)

def contextIds : InPlace π Context Unit := do
  let ids ← apart (← value) do
    part Context.node (fun c node => { c with node }) (int32 terms)
    part Context.project (fun c project => { c with project }) (int32 terms)
    part Context.target (fun c target => { c with target }) (int32 terms)
    part Context.task (fun c task => { c with task }) (int32 terms)
    part Context.submission (fun c submission => { c with submission }) (int32 terms)
    part Context.instanceId (fun c instanceId => { c with instanceId }) (int32 terms)
  assign ids

def context : InPlace π Context Unit := do
  let c ← value
  if ← flag terms !c.isInvalid then contextIds terms
  else assign .invalid

def span : InPlace π Span Unit := do
  part Span.line (fun s line => { s with line }) (int32 terms)
  part Span.column (fun s column => { s with column }) (int32 terms)
  part Span.endLine (fun s endLine => { s with endLine }) (int32 terms)
  part Span.endColumn (fun s endColumn => { s with endColumn }) (int32 terms)

def projectStart : InPlace π ProjectStart Unit := do
  part ProjectStart.id (fun p id => { p with id }) (int32 terms)
  part ProjectStart.parent (fun p parent => { p with parent })
    (optional terms .invalid (contextIds terms))
  part ProjectStart.file (fun p file => { p with file }) (optionalText terms)
  part ProjectStart.targets (fun p targets => { p with targets }) (textList terms)
  part ProjectStart.properties (fun p properties => { p with properties }) (properties terms)

def projectFinish : InPlace π ProjectFinish Unit := do
  part ProjectFinish.succeeded (fun p succeeded => { p with succeeded }) (bool terms)
  part ProjectFinish.file (fun p file => { p with file }) (optionalText terms)

def targetStart : InPlace π TargetStart Unit := do
  part TargetStart.name (fun t name => { t with name }) (optionalText terms)
  part TargetStart.projectFile (fun t projectFile => { t with projectFile }) (optionalText terms)
  part TargetStart.file (fun t file => { t with file }) (optionalText terms)
  part TargetStart.parent (fun t parent => { t with parent }) (optionalText terms)
  part TargetStart.reason (fun t reason => { t with reason }) (coded terms)

def targetFinish : InPlace π TargetFinish Unit := do
  part TargetFinish.projectFile (fun t projectFile => { t with projectFile }) (optionalText terms)
  part TargetFinish.file (fun t file => { t with file }) (optionalText terms)
  part TargetFinish.name (fun t name => { t with name }) (optionalText terms)
  part TargetFinish.succeeded (fun t succeeded => { t with succeeded }) (bool terms)

def diagnostic : InPlace π Diagnostic Unit := do
  part Diagnostic.subcategory (fun d subcategory => { d with subcategory }) (optionalText terms)
  part Diagnostic.code (fun d code => { d with code }) (optionalText terms)
  part Diagnostic.file (fun d file => { d with file }) (optionalText terms)
  part Diagnostic.projectFile (fun d projectFile => { d with projectFile }) (optionalText terms)
  part Diagnostic.span (fun d span => { d with span }) (span terms)
  part Diagnostic.helpLink (fun d helpLink => { d with helpLink }) (since terms helpLinkVersion)

def note : InPlace π Note Unit := do
  part Note.subcategory (fun n subcategory => { n with subcategory }) (optionalText terms)
  part Note.code (fun n code => { n with code }) (optionalText terms)
  part Note.file (fun n file => { n with file }) (optionalText terms)
  part Note.projectFile (fun n projectFile => { n with projectFile }) (optionalText terms)
  part Note.importance (fun n importance => { n with importance }) (coded terms)
  part Note.span (fun n span => { n with span }) (span terms)

def eventKind : InPlace π EventKind Unit := do
  match ← value with
  | .custom | .buildStarted => pure ()
  | .buildFinished succeeded => through .buildFinished succeeded (bool terms)
  | .projectStarted start => through .projectStarted start (projectStart terms)
  | .projectFinished finish => through .projectFinished finish (projectFinish terms)
  | .targetStarted start => through .targetStarted start (targetStart terms)
  | .targetFinished finish => through .targetFinished finish (targetFinish terms)
  | .error d => through .error d (diagnostic terms)
  | .warning d => through .warning d (diagnostic terms)
  | .message n => through .message n (note terms)

def typedArg : InPlace π Arg Unit := do
  let arg ← value
  match ← apart arg.kind (coded terms) with
  | .text => pure ()
  | .integer =>
      let n ← apart (match arg with | .integer n => n | _ => 0) (int64 terms)
      assign (.integer n)
  | .decimal =>
      let bits ← apart (match arg with | .decimal d => d.bits.toInt64 | _ => 0) (int64 terms)
      assign (.decimal ⟨bits.toUInt64⟩)

def typedArgs : InPlace π (Option (List Arg)) Unit := do
  match ← value with
  | some args => through some args (each (typedArg terms) args)
  | none => pure ()

def argTextsAndLocale : InPlace π MessageParts Unit := do
  let parts ← value
  let texts ← apart (if Port.isReader π then none else parts.renderedArgs) (argTexts terms)
  part MessageParts.locale (fun p locale => { p with locale }) (optionalText terms)
  whenReading (part MessageParts.args (fun p args => { p with args })
    (assign (texts.map (·.map .text))))

def lazyParts (expected : EventType) (parts : MessageParts) : InPlace π Event MessageParts :=
  if expected.isLazy then apart parts (argTextsAndLocale terms) else pure parts

def typedParts (expected : EventType) (parts : MessageParts) : InPlace π Event MessageParts :=
  if expected.isLazy ∧ ¬terms.version < typedArgsVersion then
    apart parts (part MessageParts.args (fun p args => { p with args }) (typedArgs terms))
  else pure parts

def prepare (expected : EventType) : InPlace π Event Unit := do
  if Port.isReader π then assign (.blank expected)
  else
    let e ← value
    if e.type = expected then pure () else throw (.typeMismatch expected e.type)

def shape (expected : EventType) : InPlace π Event Unit := do
  let found ← apart expected.shape (Port.move Codec.byte terms)
  if found = expected.shape then pure () else throw (.shapeMismatch expected found)

def sentParts (expected : EventType) : InPlace π Event MessageParts := do
  if Port.isReader π then pure ⟨none, none, none⟩
  else
    let e ← value
    if expected.isLazy then pure e.message.toParts
    else
      assign e.readMessage.2
      pure ⟨e.readMessage.1, none, none⟩

def header (parts : MessageParts) : InPlace π Event MessageParts := do
  let parts ← apart parts
    (part MessageParts.text (fun p text => { p with text }) (optionalText terms))
  part Event.help (fun e help => { e with help }) (optionalText terms)
  part Event.sender (fun e sender => { e with sender }) (optionalText terms)
  part Event.time (fun e time => { e with time }) (instant terms)
  part Event.thread (fun e thread => { e with thread }) (int32 terms)
  part Event.context (fun e context => { e with context }) (context terms)
  pure parts

def event (expected : EventType) : InPlace π Event Unit := do
  prepare expected
  shape terms expected
  assign (← value).copy
  let parts ← sentParts expected
  let parts ← header terms parts
  let parts ← lazyParts terms expected parts
  part Event.kind (fun e kind => { e with kind }) (eventKind terms)
  let parts ← typedParts terms expected parts
  whenReading (part Event.message (fun e message => { e with message }) (assign (.ofParts parts)))

def optionalEvent : InPlace π (Option Event) Unit := do
  let e? ← value
  if ← flag terms e?.isSome then
    let code ← apart ((e?.map fun e => Coded.code e.type).getD 0) (int32 terms)
    match Coded.ofCode? code with
    | some type => through some (e?.getD (.blank type)) (event terms type)
    | none => throw (.unknownEventType code)
  else assign none

def required (what : String) (blank : σ) (r : InPlace π σ Unit) : InPlace π (Option σ) Unit := do
  whenReading (assign (some blank))
  match ← value with
  | some a => through some a r
  | none => throw (.missingValue what)

def projectError : InPlace π ProjectError Unit := do
  part ProjectError.message (fun e message => { e with message }) (optionalText terms)
  part ProjectError.projectFile (fun e projectFile => { e with projectFile }) (optionalText terms)
  part ProjectError.span (fun e span => { e with span }) (span terms)
  part ProjectError.subcategory (fun e subcategory => { e with subcategory }) (optionalText terms)
  part ProjectError.code (fun e code => { e with code }) (optionalText terms)
  part ProjectError.help (fun e help => { e with help }) (optionalText terms)
  part ProjectError.logged (fun e logged => { e with logged }) (bool terms)

def loggerError : InPlace π LoggerError Unit := do
  part LoggerError.message (fun e message => { e with message }) (optionalText terms)
  part LoggerError.inner (fun e inner => { e with inner }) (optionalText terms)
  part LoggerError.event (fun e event => { e with event }) (optionalEvent terms)
  part LoggerError.errorCode (fun e errorCode => { e with errorCode }) (optionalText terms)
  part LoggerError.help (fun e help => { e with help }) (optionalText terms)
  part LoggerError.initialization (fun e initialization => { e with initialization }) (bool terms)

def projectErrorSlot : InPlace π (Option ProjectError) Unit :=
  required "invalid project file error" {} (projectError terms)

def loggerErrorSlot : InPlace π (Option LoggerError) Unit :=
  required "internal logger error" {} (loggerError terms)

end BuildFeed.InPlace
