import BuildFeed.Wire.InPlace.Frame

namespace BuildFeed

namespace InPlace

variable {σ τ α β : Type} {terms : Terms}

def run (r : InPlace Source σ α) (s : σ) : Read (α × σ) := fun source =>
  match r (source, s) with
  | .ok a (rest, s) => .ok (a, s) rest
  | .error error (rest, _) => .error error rest

theorem run_eq_read (r : InPlace Source σ Unit) (s : σ) :
    run r s = (do let s ← read r s; pure ((), s)) := by
  funext source
  change _ = EStateM.bind (read r s) (fun s => pure ((), s)) source
  simp only [read, run, EStateM.bind]
  cases r (source, s) <;> rfl

theorem read_bind (r : InPlace Source σ α) (f : α → InPlace Source σ Unit) (s : σ) :
    read (r >>= f) s = (do let (a, s) ← run r s; read (f a) s) := by
  funext source
  cases h : r (source, s) with
  | ok a t =>
      have hrun : run r s source = .ok (a, t.2) t.1 := by simp only [run, h]
      rw [Read.bind_of_ok hrun]
      simp only [read, bind_of_ok h]
  | error error t =>
      have hrun : run r s source = .error error t.1 := by simp only [run, h]
      rw [Read.bind_of_error hrun]
      simp only [read, bind_of_error h]

@[simp] theorem read_pure (s : σ) : read (pure ()) s = pure s :=
  rfl

@[simp] theorem read_throw (error : ProtocolError) (s : σ) : read (throw error) s = throw error :=
  rfl

@[simp] theorem read_assign (t s : σ) : read (assign t) s = pure t :=
  rfl

@[simp] theorem read_move (c : Codec τ) (t : τ) : read (Port.move c terms) t = c.read terms t := by
  funext source
  simp only [read, Port.move]
  cases c.read terms t source <;> rfl

@[simp] theorem read_then (r : InPlace Source σ Unit) (f : Unit → InPlace Source σ Unit) (s : σ) :
    read (r >>= f) s = (do let s ← read r s; read (f ()) s) := by
  simp only [read_bind, run_eq_read, bind_assoc, pure_bind]

@[simp] theorem read_value (f : σ → InPlace Source σ Unit) (s : σ) :
    read (value >>= f) s = read (f s) s :=
  read_bind value f s

@[simp] theorem read_within (wrap : τ → σ) (t : τ) (r : InPlace Source τ Unit)
    (f : τ → InPlace Source σ Unit) (s : σ) :
    read (within wrap t r >>= f) s = (do let t ← read r t; read (f t) (wrap t)) := by
  have hrun : run (within wrap t r) s = (do let t ← read r t; pure (t, wrap t)) := by
    funext source
    change _ = EStateM.bind (read r t) (fun t => pure (t, wrap t)) source
    simp only [read, run, within, EStateM.bind]
    cases r (source, t) <;> rfl
  simp only [read_bind, hrun, bind_assoc, pure_bind]

@[simp] theorem read_through (wrap : τ → σ) (t : τ) (r : InPlace Source τ Unit) (s : σ) :
    read (through wrap t r) s = wrap <$> read r t := by
  rw [map_eq_pure_bind]
  exact read_within wrap t r (fun _ => pure ()) s

@[simp] theorem read_apart (t : τ) (r : InPlace Source τ Unit) (f : τ → InPlace Source σ Unit)
    (s : σ) : read (apart t r >>= f) s = (do let t ← read r t; read (f t) s) := by
  simp only [apart, bind_assoc, read_value, read_within]

@[simp] theorem read_part (get : σ → τ) (set : σ → τ → σ) (r : InPlace Source τ Unit) (s : σ) :
    read (part get set r) s = set s <$> read r (get s) := by
  simp only [part, read_value, read_through]

@[simp] theorem read_flag (present : Bool) (f : Bool → InPlace Source σ Unit) (s : σ) :
    read (flag terms present >>= f) s =
      (do let b ← Codec.bool.read terms present; read (f b) s) := by
  simp only [flag, read_apart, read_move]

theorem read_each (r : InPlace Source τ Unit) (ts : List τ) :
    read (each r ts) ts = ts.mapM (read r) := by
  induction ts with
  | nil => rfl
  | cons t ts ih =>
      simp only [each, read_within, read_through, ih, List.mapM_cons, map_eq_pure_bind]

theorem read_optional {c : Codec τ} {blank : τ} {r : InPlace Source τ Unit}
    (h : ∀ t, read r t = c.read terms t) (hblank : c.read terms blank = c.parse terms)
    (t? : Option τ) : read (optional terms blank r) t? = c.optional.read terms t? := by
  have hstart : c.read terms (t?.getD blank) = c.read terms (t?.getD c.blank) := by
    cases t? with
    | none => exact hblank
    | some t => rfl
  simp only [optional, read_value, read_flag, Codec.optional]
  congr
  funext present
  cases present with
  | true => exact (read_through _ _ _ _).trans (congrArg (some <$> ·) ((h _).trans hstart))
  | false => rfl

theorem read_text (s : String) : read (text terms) s = Codec.text.read terms s :=
  read_move Codec.text s

theorem read_int32 (n : Int32) : read (int32 terms) n = Codec.int32.read terms n :=
  read_move Codec.int32 n

theorem read_int64 (n : Int64) : read (int64 terms) n = Codec.int64.read terms n :=
  read_move Codec.int64 n

theorem read_bool (b : Bool) : read (bool terms) b = Codec.bool.read terms b :=
  read_move Codec.bool b

theorem read_count (what : String) (n : Nat) :
    read (count terms what) n = (Codec.count what).read terms n := by
  simp only [count, Codec.count, read_value, countChecked]
  cases Codec.countFault? what terms.limits n with
  | some error => rfl
  | none =>
      simp only [pure_bind, read_apart, read_int32]
      congr
      funext stated
      split <;> rfl

theorem read_optionalText (text? : Option String) :
    read (optionalText terms) text? = Codec.optionalText.read terms text? :=
  read_optional read_text rfl text?

theorem read_instant (t : Instant) :
    read (instant terms) t = Codec.instant.read terms t := by
  have hword : (wordToMove : InPlace Source Instant Int64) = pure 0 := rfl
  simp only [instant, hword, pure_bind, read_apart, read_int64, whenReading_source, assignWord,
    Codec.instant, Codec.parse]
  congr
  funext n
  cases Instant.ofWord? n <;> rfl

theorem read_coded [Coded τ] [Inhabited τ] (t : τ) :
    read (coded terms) t = Codec.coded.read terms t := by
  simp only [coded, read_value, read_apart, read_int32, Codec.coded]
  congr
  funext code
  cases (Coded.ofCode? code : Option τ) <;> rfl

theorem read_places (what : String) (blank : τ) (ts : List τ) :
    read (places terms what blank) ts =
      (do let n ← (Codec.count what).read terms ts.length; pure (List.replicate n blank)) := by
  simp only [places, read_value, read_apart, read_count, whenReading_source, read_assign]

theorem mapM_replicate (f : α → Read β) (n : Nat) (a : α) :
    (List.replicate n a).mapM f = Read.times n (f a) := by
  induction n with
  | zero => rfl
  | succ n ih => rw [List.replicate_succ, List.mapM_cons, ih, Read.times]

theorem read_textList (texts : List String) :
    read (textList terms) texts = Codec.textList.read terms texts := by
  simp only [textList, read_then, read_places, read_value, read_each, mapM_replicate, bind_assoc,
    pure_bind, Codec.textList, Codec.items, read_text]
  rfl

theorem read_presentText : read (presentText terms) "" = Codec.presentText.parse terms := by
  simp only [presentText, read_flag, Codec.parse, Codec.presentText, Codec.iso, Codec.optionalText,
    Codec.optional, map_eq_pure_bind, bind_assoc]
  congr
  funext present
  cases present with
  | true =>
      simp only [if_true, bind_assoc, pure_bind, Option.getD_some, bind_pure]
      exact read_text ""
  | false => rfl

theorem read_argTexts (texts? : Option (List String)) :
    read (argTexts terms) texts? = Codec.argTexts.read terms texts? := by
  refine read_optional (c := Codec.presentText.items "argument list") (fun texts => ?_) rfl texts?
  simp only [read_then, read_places, read_value, read_each, mapM_replicate, bind_assoc,
    pure_bind, Codec.items, read_presentText]

theorem read_property (p : String × String) :
    read (property terms) p = (Codec.text.pair Codec.text).read terms p := by
  simp only [property, read_then, read_part, read_text, Codec.pair, map_eq_pure_bind, bind_assoc,
    pure_bind]

theorem read_insertions (n : Nat) (t : PropertyTable) :
    read (insertions terms n) t =
      (do
        let entries ← Read.times n ((Codec.text.pair Codec.text).parse terms)
        pure (entries.foldl (fun t entry => t.insert entry.1 entry.2) t)) := by
  induction n generalizing t with
  | zero => rfl
  | succ n ih =>
      simp only [insertions, read_apart, read_value, read_then, read_assign, read_property, ih,
        pure_bind, Read.times, bind_assoc, List.foldl_cons]
      rfl

theorem read_propertyTable (t : PropertyTable) :
    read (propertyTable terms) t = Codec.propertyTable.read terms t := by
  have hreader : (propertyTable terms : InPlace Source PropertyTable Unit) = readTable terms := rfl
  simp only [hreader, readTable, read_apart, read_count, read_then, read_assign, pure_bind,
    read_insertions, Codec.propertyTable, Codec.items, Codec.parse, map_eq_pure_bind, bind_assoc]
  rfl

theorem read_properties (t? : Option PropertyTable) :
    read (properties terms) t? = Codec.properties.read terms t? :=
  read_optional read_propertyTable rfl t?

theorem read_since (version : Int32) (text? : Option String) :
    read (since terms version) text? = (Codec.optionalText.since version).read terms text? := by
  by_cases hversion : terms.version < version
  · simp only [since, if_pos hversion, whenReading_source, read_assign, Codec.since]
  · simp only [since, if_neg hversion, read_optionalText, Codec.since]

theorem read_contextIds (c : Context) :
    read (contextIds terms) c = Codec.contextIds.read terms c := by
  simp only [contextIds, read_value, read_apart, read_then, read_part, read_assign, read_int32,
    Codec.contextIds, Codec.iso, Codec.pair, map_eq_pure_bind, bind_assoc, pure_bind]

theorem read_context (c : Context) : read (context terms) c = Codec.context.read terms c := by
  simp only [context, read_value, read_flag, Codec.context, Codec.iso, Codec.optional,
    map_eq_pure_bind, bind_assoc]
  refine bind_congr (m := Read) (x := Codec.bool.parse terms) fun present => ?_
  cases present with
  | true =>
      simp only [if_true, bind_assoc, pure_bind, Option.getD_some, bind_pure]
      exact read_contextIds c
  | false => rfl

theorem read_span (s : Span) : read (span terms) s = Codec.span.read terms s := by
  simp only [span, read_then, read_part, read_int32, Codec.span, Codec.iso, Codec.pair,
    map_eq_pure_bind, bind_assoc, pure_bind]

theorem read_optionalContextIds (c? : Option Context) :
    read (optional terms .invalid (contextIds terms)) c? =
      Codec.contextIds.optional.read terms c? :=
  have hblank : Codec.contextIds.read terms .invalid = Codec.contextIds.parse terms := rfl
  read_optional read_contextIds hblank c?

theorem read_projectStart (p : ProjectStart) :
    read (projectStart terms) p = Codec.projectStart.read terms p := by
  simp only [projectStart, read_then, read_part, read_int32, read_optionalContextIds,
    read_optionalText, read_textList, read_properties, Codec.projectStart, Codec.iso, Codec.pair,
    map_eq_pure_bind, bind_assoc, pure_bind]

theorem read_projectFinish (p : ProjectFinish) :
    read (projectFinish terms) p = Codec.projectFinish.read terms p := by
  simp only [projectFinish, read_then, read_part, read_bool, read_optionalText,
    Codec.projectFinish, Codec.iso, Codec.pair, map_eq_pure_bind, bind_assoc, pure_bind]

theorem read_targetStart (t : TargetStart) :
    read (targetStart terms) t = Codec.targetStart.read terms t := by
  simp only [targetStart, read_then, read_part, read_optionalText, read_coded, Codec.targetStart,
    Codec.iso, Codec.pair, map_eq_pure_bind, bind_assoc, pure_bind]

theorem read_targetFinish (t : TargetFinish) :
    read (targetFinish terms) t = Codec.targetFinish.read terms t := by
  simp only [targetFinish, read_then, read_part, read_optionalText, read_bool, Codec.targetFinish,
    Codec.iso, Codec.pair, map_eq_pure_bind, bind_assoc, pure_bind]

theorem read_diagnostic (d : Diagnostic) :
    read (diagnostic terms) d = Codec.diagnostic.read terms d := by
  simp only [diagnostic, read_then, read_part, read_optionalText, read_span, read_since,
    Codec.diagnostic, Codec.iso, Codec.pair, map_eq_pure_bind, bind_assoc, pure_bind]

theorem read_note (n : Note) : read (note terms) n = Codec.note.read terms n := by
  simp only [note, read_then, read_part, read_optionalText, read_span, read_coded, Codec.note,
    Codec.iso, Codec.pair, map_eq_pure_bind, bind_assoc, pure_bind]

theorem read_eventKind (type : EventType) :
    read (eventKind terms) (.blank type) = EventKind.read terms type := by
  cases type <;>
    simp only [eventKind, read_value, EventKind.blank, EventKind.read, read_pure, read_through,
      read_bool, read_projectStart, read_projectFinish, read_targetStart, read_targetFinish,
      read_diagnostic, read_note] <;> rfl

theorem read_typedArg (value : String) :
    read (typedArg terms) (.text value) = Arg.readTyped terms value := by
  simp only [typedArg, read_value, read_apart, read_coded, Arg.readTyped]
  refine bind_congr (m := Read) (x := Codec.coded.parse terms) fun kind => ?_
  cases kind with
  | text => rfl
  | integer =>
      simp only [read_apart, read_int64, read_assign, map_eq_pure_bind]
      rfl
  | decimal =>
      simp only [read_apart, read_int64, read_assign, map_eq_pure_bind, Codec.int64, Codec.iso,
        bind_assoc, pure_bind, UInt64.toUInt64_toInt64]
      rfl

theorem read_typedArgs (texts? : Option (List String)) :
    read (typedArgs terms) (texts?.map (·.map .text)) =
      texts?.mapM fun texts => texts.mapM (Arg.readTyped terms) := by
  cases texts? with
  | none => rfl
  | some texts =>
      have hread : read (typedArg terms) ∘ Arg.text = Arg.readTyped terms := funext read_typedArg
      simp only [typedArgs, Option.map_some, read_value, read_through, read_each, List.mapM_map,
        hread, Option.mapM_some]

theorem read_argTextsAndLocale (parts : MessageParts) :
    read (argTextsAndLocale terms) parts =
      (do
        let texts ← Codec.argTexts.parse terms
        let locale ← Codec.optionalText.read terms parts.locale
        pure { parts with args := texts.map (·.map .text), locale }) := by
  have hnone : (if Port.isReader Source then none else parts.renderedArgs) = none := rfl
  simp only [argTextsAndLocale, read_value, hnone, read_apart, read_argTexts, read_then, read_part,
    read_optionalText, whenReading_source, read_assign, map_eq_pure_bind, bind_assoc, pure_bind]
  rfl

theorem read_header (parts : MessageParts) (f : MessageParts → InPlace Source Event Unit)
    (e : Event) :
    read (header terms parts >>= f) e =
      (do
        let text ← Codec.optionalText.read terms parts.text
        let help ← Codec.optionalText.read terms e.help
        let sender ← Codec.optionalText.read terms e.sender
        let time ← Codec.instant.read terms e.time
        let thread ← Codec.int32.read terms e.thread
        let context ← Codec.context.read terms e.context
        read (f { parts with text }) { e with help, sender, time, thread, context }) := by
  simp only [header, bind_assoc, pure_bind, read_apart, read_then, read_part, read_optionalText,
    read_instant, read_int32, read_context, map_eq_pure_bind]

theorem read_typedParts {expected : EventType} (hlazy : expected.isLazy = true)
    (text locale : Option String) (texts? : Option (List String))
    (f : MessageParts → InPlace Source Event Unit) (e : Event) :
    read (typedParts terms expected ⟨text, texts?.map (·.map .text), locale⟩ >>= f) e =
      (do
        let args ← texts?.mapM (Arg.readAll terms)
        read (f ⟨text, args, locale⟩) e) := by
  by_cases hversion : terms.version < typedArgsVersion
  · have hplain : texts?.mapM (Arg.readAll terms) = pure (texts?.map (·.map .text)) := by
      have hall : Arg.readAll terms = fun values => pure (values.map .text) :=
        funext fun values => if_pos hversion
      rw [hall]
      cases texts? <;> rfl
    rw [typedParts, if_neg fun h => h.2 hversion, hplain, pure_bind, pure_bind]
  · have hall : Arg.readAll terms = fun values => values.mapM (Arg.readTyped terms) :=
      funext fun values => if_neg hversion
    rw [typedParts, if_pos ⟨hlazy, hversion⟩, hall]
    simp only [read_apart, read_part, read_typedArgs, map_eq_pure_bind, bind_assoc, pure_bind]

theorem read_blocks (expected : EventType) (text : Option String) (message : Message)
    (help sender : Option String) (time : Instant) (thread : Int32) (context : Context) :
    read (do
        let parts ← lazyParts terms expected ⟨text, none, none⟩
        part Event.kind (fun e kind => { e with kind }) (eventKind terms)
        let parts ← typedParts terms expected parts
        whenReading (part Event.message (fun e message => { e with message })
          (assign (.ofParts parts))))
        ⟨.blank expected, message, help, sender, time, thread, context, none⟩ =
      (do
        let (texts, locale) ← Event.readArgTexts terms expected
        let kind ← EventKind.read terms expected
        let args ← texts.mapM (Arg.readAll terms)
        pure { kind, message := .ofParts ⟨text, args, locale⟩, help, sender, time, thread,
               context }) := by
  cases hlazy : expected.isLazy with
  | false =>
      simp only [lazyParts, typedParts, Event.readArgTexts, hlazy, Bool.false_eq_true, false_and,
        if_false, pure_bind, read_then, read_part, read_eventKind, whenReading_source,
        read_assign, map_eq_pure_bind, bind_assoc, Option.mapM_none]
  | true =>
      simp only [lazyParts, Event.readArgTexts, hlazy, if_true, read_apart, read_argTextsAndLocale,
        read_then, read_part, read_eventKind, read_typedParts hlazy, whenReading_source,
        read_assign, map_eq_pure_bind, bind_assoc, pure_bind]
      rfl

theorem read_event (expected : EventType) (e : Event) :
    read (event terms expected) e = Event.read terms expected := by
  have hprepare : (prepare expected : InPlace Source Event Unit) = assign (.blank expected) := rfl
  have hparts : (sentParts expected : InPlace Source Event MessageParts) =
    pure ⟨none, none, none⟩ := rfl
  simp only [event, hprepare, hparts, shape, bind_assoc, pure_bind, read_then, read_assign,
    read_apart, read_move, read_value, read_header]
  refine bind_congr (m := Read) (x := Codec.byte.parse terms) fun found => ?_
  by_cases hfound : found = expected.shape
  · simp only [hfound, if_true, read_pure, pure_bind, ne_eq, not_true, if_false, Event.blank,
      Event.copy, read_blocks]
    rfl
  · simp only [hfound, if_false, read_throw, ne_eq, not_false_eq_true, if_true]
    rfl

theorem read_optionalEvent (e? : Option Event) :
    read (optionalEvent terms) e? = Codec.optionalEvent.read terms e? := by
  simp only [optionalEvent, read_value, read_flag, Codec.optionalEvent]
  congr
  funext present
  cases present with
  | false => rfl
  | true =>
      simp only [if_true, read_apart, read_int32]
      congr
      funext code
      cases (Coded.ofCode? code : Option EventType) with
      | none => rfl
      | some type => simp only [read_through, read_event]

theorem read_required {c : Codec τ} {what : String} {blank : τ} {r : InPlace Source τ Unit}
    (h : read r blank = c.parse terms) (slot : Option τ) :
    read (required what blank r) slot = (c.required what).read terms slot := by
  simp only [required, whenReading_source, read_then, read_assign, pure_bind, read_value,
    read_through, h, Codec.required]

theorem read_projectErrorSlot (slot : Option ProjectError) :
    read (projectErrorSlot terms) slot = Codec.projectErrorSlot.read terms slot := by
  refine read_required ?_ slot
  simp only [projectError, read_then, read_part, read_optionalText, read_span, read_bool,
    Codec.projectError, Codec.iso, Codec.pair, Codec.parse, map_eq_pure_bind, bind_assoc, pure_bind]
  rfl

theorem read_loggerErrorSlot (slot : Option LoggerError) :
    read (loggerErrorSlot terms) slot = Codec.loggerErrorSlot.read terms slot := by
  refine read_required ?_ slot
  simp only [loggerError, read_then, read_part, read_optionalText, read_optionalEvent, read_bool,
    Codec.loggerError, Codec.iso, Codec.pair, Codec.parse, map_eq_pure_bind, bind_assoc, pure_bind]
  rfl

def Overwrites (r : InPlace Source σ Unit) : Prop :=
  ∀ a b, read r a = read r b

theorem overwrites_of_codec {c : Codec σ} {r : InPlace Source σ Unit}
    (h : ∀ a, read r a = c.read terms a) (hc : ∀ a, c.read terms a = c.parse terms) :
    Overwrites r := by
  intro a b
  rw [h, h, hc a, hc b]

theorem optional_read {c : Codec τ} (hc : ∀ t, c.read terms t = c.parse terms) (t? : Option τ) :
    c.optional.read terms t? = c.optional.parse terms := by
  cases t? with
  | none => rfl
  | some t =>
      refine bind_congr (m := Read) (x := Codec.bool.parse terms) fun present => ?_
      rw [Option.getD_some, hc t]
      rfl

theorem overwrites_coded [Coded τ] : Overwrites (coded terms : InPlace Source τ Unit) := by
  intro a b
  have : Inhabited τ := ⟨a⟩
  rw [read_coded, read_coded]
  rfl

theorem overwrites_since (version : Int32) : Overwrites (since terms version) := by
  refine overwrites_of_codec (read_since version) fun text? => ?_
  by_cases hversion : terms.version < version
  · simp only [Codec.since, Codec.parse, if_pos hversion]
  · simp only [Codec.since, Codec.parse, if_neg hversion]
    exact optional_read (fun _ => rfl) text?

theorem count_read (what : String) (n : Nat) :
    (Codec.count what).read terms n =
      match Codec.countFault? what terms.limits n with
      | some error => throw error
      | none => (Codec.count what).parse terms := by
  simp only [Codec.parse, Codec.count, Codec.countFault?_zero]
  cases Codec.countFault? what terms.limits n <;> rfl

theorem items_read (c : Codec τ) (what : String) (ts : List τ) :
    (c.items what).read terms ts =
      match Codec.countFault? what terms.limits ts.length with
      | some error => throw error
      | none => (c.items what).parse terms := by
  have hcounted : (c.items what).read terms ts =
      (do
        let n ← (Codec.count what).read terms ts.length
        Read.times n (c.parse terms)) := rfl
  rw [hcounted, count_read]
  cases Codec.countFault? what terms.limits ts.length <;> rfl

theorem read_count_prior (what : String) (n : Nat) :
    read (count terms what) n =
      match Codec.countFault? what terms.limits n with
      | some error => throw error
      | none => read (count terms what) 0 := by
  rw [read_count, read_count, count_read]
  rfl

theorem read_textList_prior (texts : List String) :
    read (textList terms) texts =
      match Codec.countFault? "string list" terms.limits texts.length with
      | some error => throw error
      | none => read (textList terms) [] := by
  rw [read_textList, read_textList]
  exact items_read Codec.text "string list" texts

theorem read_argTexts_prior (texts? : Option (List String)) :
    read (argTexts terms) texts? =
      match Codec.countFault? "argument list" terms.limits (texts?.getD []).length with
      | some error => do if ← Codec.bool.parse terms then throw error else pure none
      | none => read (argTexts terms) none := by
  have hcases : Codec.argTexts.read terms texts? =
      (do
        if ← Codec.bool.parse terms then
          some <$> (Codec.presentText.items "argument list").read terms (texts?.getD [])
        else pure none) := rfl
  rw [read_argTexts, read_argTexts, hcases, items_read]
  cases Codec.countFault? "argument list" terms.limits (texts?.getD []).length with
  | some error => rfl
  | none => rfl

end InPlace

/-- What a reader is given to fill makes no difference to it, with one exception: a list of texts
or a count that is there already and could not be stated is refused before it is overwritten. -/
theorem reading_overwrites_but_prior_counts (terms : Terms) :
    InPlace.Overwrites (InPlace.optionalText terms) ∧
    InPlace.Overwrites (InPlace.instant terms) ∧
    (∀ (α : Type) [Coded α], InPlace.Overwrites (InPlace.coded terms : InPlace Source α Unit)) ∧
    InPlace.Overwrites (InPlace.properties terms) ∧
    (∀ version, InPlace.Overwrites (InPlace.since terms version)) ∧
    (∀ expected, InPlace.Overwrites (InPlace.event terms expected)) ∧
    InPlace.Overwrites (InPlace.optionalEvent terms) ∧
    InPlace.Overwrites (InPlace.projectErrorSlot terms) ∧
    InPlace.Overwrites (InPlace.loggerErrorSlot terms) ∧
    (∀ what n, InPlace.read (InPlace.count terms what) n =
      match Codec.countFault? what terms.limits n with
      | some error => throw error
      | none => InPlace.read (InPlace.count terms what) 0) ∧
    (∀ texts, InPlace.read (InPlace.textList terms) texts =
      match Codec.countFault? "string list" terms.limits texts.length with
      | some error => throw error
      | none => InPlace.read (InPlace.textList terms) []) ∧
    (∀ texts?, InPlace.read (InPlace.argTexts terms) texts? =
      match Codec.countFault? "argument list" terms.limits (texts?.getD []).length with
      | some error => do if ← Codec.bool.parse terms then throw error else pure none
      | none => InPlace.read (InPlace.argTexts terms) none) := by
  refine ⟨?_, ?_, ?_, ?_, ?_, ?_, ?_, ?_, ?_, ?_, ?_, ?_⟩
  · exact InPlace.overwrites_of_codec InPlace.read_optionalText (InPlace.optional_read fun _ => rfl)
  · exact InPlace.overwrites_of_codec InPlace.read_instant fun _ => rfl
  · exact fun _ _ => InPlace.overwrites_coded
  · exact InPlace.overwrites_of_codec InPlace.read_properties (InPlace.optional_read fun _ => rfl)
  · exact InPlace.overwrites_since
  · exact fun type a b => (InPlace.read_event type a).trans (InPlace.read_event type b).symm
  · exact InPlace.overwrites_of_codec InPlace.read_optionalEvent fun _ => rfl
  · exact InPlace.overwrites_of_codec InPlace.read_projectErrorSlot fun _ => rfl
  · exact InPlace.overwrites_of_codec InPlace.read_loggerErrorSlot fun _ => rfl
  · exact InPlace.read_count_prior
  · exact InPlace.read_textList_prior
  · exact InPlace.read_argTexts_prior

theorem textList_refuses_prior_count :
    let terms : Terms := ⟨currentVersion, { maxItems := 1 }⟩
    let source : Source := ⟨[0, 0, 0, 0], none⟩
    InPlace.read (InPlace.textList terms) ["a", "b"] source =
        .error (.lengthOutOfRange "string list" 2 1) source ∧
      InPlace.read (InPlace.textList terms) [] source = .ok [] ⟨[], none⟩ := by
  decide

end BuildFeed
