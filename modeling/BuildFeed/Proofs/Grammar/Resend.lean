import BuildFeed.Proofs.Grammar.Event
import BuildFeed.Proofs.Transfer.Appended

namespace BuildFeed

open Codec (Fits)

variable {terms : Terms} {bytes : List UInt8}

namespace EventKind

variable {type : EventType} {kind : EventKind}

def filled : EventKind → EventKind
  | projectStarted start => projectStarted start.image
  | kind => kind

theorem type_filled (kind : EventKind) : kind.filled.type = kind.type := by
  cases kind <;> rfl

theorem emit_filled (terms : Terms) (kind : EventKind) :
    kind.filled.emit terms = kind.emit terms := by
  cases kind with
  | projectStarted start =>
      have hproperties : Codec.properties.emit terms (start.properties.map .image) =
          Codec.properties.emit terms start.properties := by
        cases start.properties with
        | none => rfl
        | some t =>
            simp only [Option.map_some, Codec.properties, Codec.optional, Codec.propertyTable,
              PropertyTable.filled_eq_image, PropertyTable.image_image]
      simp only [filled, ProjectStart.image, emit, Codec.projectStart, Codec.iso, Codec.pair,
        hproperties]
  | _ => rfl

theorem image_of_block (h : bytes ∈ Grammar.block terms type kind) :
    kind.image terms.version = kind.filled := by
  have hdiagnostic {d : Diagnostic} (hd : bytes ∈ Grammar.diagnostic terms d) :
      d.image terms.version = d := by
    obtain ⟨_, -, part, hlink, -⟩ := Language.mem_mul.1 hd
    by_cases hv : terms.version < helpLinkVersion
    · rw [Grammar.helpLink_of_lt hv] at hlink
      rw [Diagnostic.image, if_pos hv, ← hlink.1]
    · rw [Diagnostic.image, if_neg hv]
  obtain ⟨-, hdata⟩ := h
  cases kind with
  | error d => exact congrArg error (hdiagnostic hdata)
  | warning d => exact congrArg warning (hdiagnostic hdata)
  | _ => rfl

end EventKind

theorem Arg.text_of_kind {arg : Arg} (h : arg.kind = .text) (locale : Locale) :
    text (arg.toText locale) = arg := by
  cases arg with
  | text s => rw [toText_text]
  | integer n => cases h
  | decimal d => cases h

theorem Message.withTextArgs_of_text {message : Message}
    (h : ∀ args, message.args = some args → ∀ arg ∈ args, arg.kind = .text) :
    message.withTextArgs = message := by
  obtain ⟨state, locale⟩ := message
  cases state with
  | formatted text => rfl
  | raw template args =>
      have hargs (locale : Locale) : args.map (fun arg => .text (arg.toText locale)) = args := by
        refine (List.map_congr_left fun arg harg => ?_).trans (List.map_id args)
        exact Arg.text_of_kind (h args rfl arg harg) locale
      simp only [withTextArgs, hargs]

namespace Grammar

variable {version : Int32}

theorem mem_of_text_mem {values : List String} {args : List Arg} {s : String}
    (h : bytes ∈ (List.zipWith typedArg values args).prod) (hlength : values.length = args.length)
    (hs : .text s ∈ args) : s ∈ values := by
  induction values generalizing args bytes with
  | nil =>
      obtain rfl := List.eq_nil_of_length_eq_zero hlength.symm
      cases hs
  | cons value values ih =>
      cases args with
      | nil => cases hs
      | cons arg args =>
          rw [List.zipWith_cons_cons, List.prod_cons] at h
          obtain ⟨front, hfront, back, hback, -⟩ := Language.mem_mul.1 h
          rcases List.mem_cons.1 hs with rfl | hs
          · obtain ⟨_, -, _, ⟨rfl, -⟩, -⟩ := Language.mem_mul.1 hfront
            exact List.mem_cons_self ..
          · exact List.mem_cons_of_mem value (ih hback (Nat.succ.inj hlength) hs)

/-- Arguments and the texts they came with. Text among them is text that came. -/
structure ArgsFrom (version : Int32) (values : List String) (args : List Arg) : Prop where
  length_eq : values.length = args.length
  text_mem : ∀ s, .text s ∈ args → s ∈ values
  all_text : version < typedArgsVersion → ∀ arg ∈ args, arg.kind = .text

theorem argsFrom_of_mem {values : Option (List String)} {args : List Arg}
    (h : bytes ∈ typedArgs version values (some args)) :
    ∃ texts, values = some texts ∧ ArgsFrom version texts args := by
  cases values with
  | none => cases h
  | some texts =>
      refine ⟨texts, rfl, ?_⟩
      by_cases hv : version < typedArgsVersion
      · rw [typedArgs_of_lt hv] at h
        obtain ⟨rfl, -⟩ := h
        constructor
        · exact (List.length_map ..).symm
        · simp
        · intro _ arg harg
          obtain ⟨value, -, rfl⟩ := List.mem_map.1 harg
          rfl
      · rw [typedArgs_of_not_lt hv] at h
        obtain ⟨hlength, h⟩ := h
        exact ⟨hlength, fun s hs => mem_of_text_mem h hlength hs, fun hlt => absurd hlt hv⟩

theorem body_cases {expected : EventType} {e : Event} (h : bytes ∈ body terms expected e) :
    e.type = expected ∧ (∃ part, part ∈ block terms expected e.kind) ∧
      ((e.type.isLazy = false ∧ ∃ text, e.message = .plain text) ∨
        (e.type.isLazy = true ∧ ∃ values, (∃ part, part ∈ arguments terms.limits values) ∧
          (∃ part, part ∈ optionalText terms.limits e.message.toParts.locale) ∧
            ∃ part, part ∈ typedArgs terms.version values e.message.args)) := by
  by_cases hcustom : expected = .custom
  · simp only [body, if_pos hcustom] at h
    obtain ⟨⟨hargs, hlocale⟩, hblock⟩ := h
    have htype : e.type = expected := hblock.1
    refine ⟨htype, ⟨bytes, hblock⟩, .inl ⟨?_, e.message.toParts.text, ?_⟩⟩
    · rw [htype, hcustom]
      rfl
    · rw [← Message.ofParts_toParts e.message, Message.toParts_ofParts, Message.ofParts, hargs,
        hlocale]
      rfl
  · simp only [body, if_neg hcustom] at h
    obtain ⟨values, h⟩ := h
    obtain ⟨front, hfront, typed, htyped, -⟩ := Language.mem_mul.1 h
    obtain ⟨front, hfront, part, hblock, -⟩ := Language.mem_mul.1 hfront
    obtain ⟨texts, htexts, locale, hlocale, -⟩ := Language.mem_mul.1 hfront
    have htype : e.type = expected := hblock.1
    have hlazy : e.type.isLazy = true := EventType.isLazy_iff.2 (htype ▸ hcustom)
    exact ⟨htype, ⟨part, hblock⟩, .inr ⟨hlazy, values, ⟨texts, htexts⟩, ⟨locale, hlocale⟩, typed,
      htyped⟩⟩

end Grammar

namespace Codec

theorem argTexts_emit_failure {values : List String} {args : List Arg} {version : Int32}
    (hvalues : bytes ∈ Grammar.arguments terms.limits (some values))
    (hargs : Grammar.ArgsFrom version values args) (locale : Locale) {error : ProtocolError}
    (h : (argTexts.emit terms (some (args.map (Arg.toText locale)))).failure = some error) :
    ∃ arg ∈ args, arg.kind ≠ .text ∧ ¬Fits terms.limits (arg.toText locale) ∧
      error = .lengthOutOfRange "string" (Text.utf8 (arg.toText locale)).length
        terms.limits.maxText := by
  obtain ⟨_, -, _, ⟨stated, hstated, hle, hitems⟩, -⟩ := Language.mem_mul.1 hvalues
  obtain ⟨_, -, items, hitems, -⟩ := Language.mem_mul.1 hitems
  have hcount : ((count "argument list").emit terms (args.map (Arg.toText locale)).length).failure =
      none := by
    refine count_done ?_ hstated hle
    rw [List.length_map, hargs.length_eq]
  change (_ ++ (_ ++ Emission.concat _)).failure = some error at h
  rw [Emission.failure_of_done_append rfl, Emission.failure_of_done_append hcount] at h
  obtain ⟨value, hvalue, hfailure⟩ := Emission.concat_failure h
  obtain ⟨arg, harg, rfl⟩ := List.mem_map.1 hvalue
  change (_ ++ text.emit terms (arg.toText locale)).failure = some error at hfailure
  rw [Emission.failure_of_done_append rfl] at hfailure
  obtain ⟨hfits, rfl⟩ := text_emit_failure hfailure
  refine ⟨arg, harg, ?_, hfits, rfl⟩
  intro hkind
  obtain ⟨part, hpart⟩ :=
    exists_mem_of_mem_prod hitems _ (hargs.text_mem _ ((Arg.text_of_kind hkind locale).symm ▸ harg))
  exact hfits (argument_fits hpart)

end Codec

namespace Event

variable {expected : EventType} {e : Event}

def filled (e : Event) : Event :=
  { e with kind := e.kind.filled }

def Refuses (limits : Limits) (e : Event) (error : ProtocolError) : Prop :=
  ∃ args arg text, e.message.args = some args ∧ arg ∈ args ∧ arg.kind ≠ .text ∧
    text = arg.toText (Locale.resolve (e.message.locale.getD "")) ∧ ¬Fits limits text ∧
      error = .lengthOutOfRange "string" (Text.utf8 text).length limits.maxText

theorem emit_filled (terms : Terms) (e : Event) : e.filled.emit terms = e.emit terms := by
  have htype : e.filled.type = e.type := e.kind.type_filled
  have hparts : e.filled.sentParts = e.sentParts := by
    simp only [sentParts, htype]
    rfl
  have hfront : e.filled.emitFront terms = e.emitFront terms := by
    simp only [emitFront, emitOpening, emitHeader, htype, hparts]
    rfl
  have hkind : e.filled.kind.emit terms = e.kind.emit terms := e.kind.emit_filled terms
  rw [emit_eq_front_append, emit_eq_front_append, hfront, hparts, hkind]

theorem sentParts_of_body (h : bytes ∈ Grammar.body terms expected e) :
    e.sentParts = e.message.toParts := by
  obtain ⟨-, -, ⟨hfinal, text, hmessage⟩ | ⟨hlazy, -⟩⟩ := Grammar.body_cases h
  · rw [sentParts, hfinal, hmessage]
    rfl
  · exact if_pos hlazy

theorem imageMessage_of_body (h : bytes ∈ Grammar.body terms expected e) :
    e.imageMessage terms.version = e.message := by
  obtain ⟨-, -, ⟨hfinal, text, hmessage⟩ | ⟨hlazy, values, -, -, _, htyped⟩⟩ :=
    Grammar.body_cases h
  · rw [imageMessage, hfinal, hmessage]
    rfl
  · rw [imageMessage, if_pos hlazy]
    split
    · next hv =>
        refine Message.withTextArgs_of_text fun args hargs => ?_
        rw [hargs] at htyped
        obtain ⟨texts, -, hargsFrom⟩ := Grammar.argsFrom_of_mem htyped
        exact hargsFrom.all_text hv
    · rfl

theorem type_of_frame (h : bytes ∈ Grammar.frame terms expected e) : e.type = expected := by
  obtain ⟨_, -, _, hbody, -⟩ := Language.mem_mul.1 h.2
  exact (Grammar.body_cases hbody).1

theorem time_of_header (h : bytes ∈ Grammar.header terms.limits e) : e.time.normal = e.time := by
  obtain ⟨_, h, _, -, -⟩ := Language.mem_mul.1 h
  obtain ⟨_, h, _, -, -⟩ := Language.mem_mul.1 h
  obtain ⟨_, -, _, ⟨_, -, hnanos, -⟩, -⟩ := Language.mem_mul.1 h
  exact Instant.normal_of_lt hnanos

theorem image_of_frame (h : bytes ∈ Grammar.frame terms expected e) :
    e.image terms.version = e.filled := by
  obtain ⟨hlocal, h⟩ := h
  obtain ⟨_, hfront, _, hbody, -⟩ := Language.mem_mul.1 h
  obtain ⟨_, -, _, hheader, -⟩ := Language.mem_mul.1 hfront
  obtain ⟨-, ⟨_, hblock⟩, -⟩ := Grammar.body_cases hbody
  rw [image, filled, EventKind.image_of_block hblock, imageMessage_of_body hbody,
    time_of_header hheader, ← hlocal]

theorem emitHeader_done (h : bytes ∈ Grammar.header terms.limits e)
    (hparts : e.sentParts = e.message.toParts) : (e.emitHeader terms).failure = none := by
  obtain ⟨_, h, _, hcontext, -⟩ := Language.mem_mul.1 h
  obtain ⟨_, h, _, hthread, -⟩ := Language.mem_mul.1 h
  obtain ⟨_, h, _, htime, -⟩ := Language.mem_mul.1 h
  obtain ⟨_, h, _, hsender, -⟩ := Language.mem_mul.1 h
  obtain ⟨_, htext, _, hhelp, -⟩ := Language.mem_mul.1 h
  rw [emitHeader, hparts]
  refine Emission.failure_append.2 ⟨Codec.optionalText_speaks.writes htext, ?_⟩
  refine Emission.failure_append.2 ⟨Codec.optionalText_speaks.writes hhelp, ?_⟩
  refine Emission.failure_append.2 ⟨Codec.optionalText_speaks.writes hsender, ?_⟩
  refine Emission.failure_append.2 ⟨Codec.instant_speaks.writes htime, ?_⟩
  exact Emission.failure_append.2 ⟨Codec.int32_speaks.writes hthread,
    Codec.context_speaks.writes hcontext⟩

theorem refuses_of_frame {error : ProtocolError} (h : bytes ∈ Grammar.frame terms expected e)
    (hfailure : (e.emit terms).failure = some error) : e.Refuses terms.limits error := by
  obtain ⟨-, h⟩ := h
  obtain ⟨_, hfront, _, hbody, -⟩ := Language.mem_mul.1 h
  obtain ⟨_, -, _, hheader, -⟩ := Language.mem_mul.1 hfront
  obtain ⟨rfl, ⟨_, hblock⟩, hmessage⟩ := Grammar.body_cases hbody
  have hparts := sentParts_of_body hbody
  have hrest : (e.kind.emit terms ++ emitTypedArgs terms e.sentParts).failure = none :=
    Emission.failure_append.2 ⟨EventKind.emit_done hblock, emitTypedArgs_done terms e.sentParts⟩
  have hopening : (e.emitOpening terms e.type).failure = none := by
    rw [emitOpening, if_pos rfl]
    rfl
  rw [emit_eq_front_append, Emission.failure_append_of_done _ hrest, emitFront,
    Emission.failure_of_done_append hopening,
    Emission.failure_of_done_append (emitHeader_done hheader hparts), hparts] at hfailure
  rcases hmessage with ⟨hfinal, -⟩ | ⟨hlazy, values, ⟨_, hvalues⟩, ⟨_, hlocale⟩, _, htyped⟩
  · rw [hfinal] at hfailure
    cases hfailure
  · rw [if_pos hlazy, emitArgTexts,
      Emission.failure_append_of_done _ (Codec.optionalText_speaks.writes hlocale)] at hfailure
    cases hargs : e.message.args with
    | none =>
        have hrendered : e.message.toParts.renderedArgs = none := congrArg (Option.map _) hargs
        rw [hrendered] at hfailure
        cases hfailure
    | some args =>
        have hrendered : e.message.toParts.renderedArgs =
            some (args.map (Arg.toText (Locale.resolve (e.message.locale.getD "")))) := by
          rw [← e.message.toParts_locale]
          exact congrArg (Option.map _) hargs
        rw [hrendered] at hfailure
        rw [hargs] at htyped
        obtain ⟨texts, rfl, hargsFrom⟩ := Grammar.argsFrom_of_mem htyped
        obtain ⟨arg, harg, hkind, hfits, herror⟩ :=
          Codec.argTexts_emit_failure hvalues hargsFrom _ hfailure
        exact ⟨args, arg, _, hargs, harg, hkind, rfl, hfits, herror⟩

theorem received_event_is_sent_on (version : Int32) (limits : Limits) (expected : EventType)
    (bytes : List UInt8) (fault : Option StreamFault) (e : Event) (s : Source)
    (h : read ⟨version, limits⟩ expected ⟨bytes, fault⟩ = .ok e s) :
    (∃ sent, e.encode ⟨version, limits⟩ = .ok sent ∧
      (∀ rest fault, read ⟨version, limits⟩ expected ⟨sent ++ rest, fault⟩ =
        .ok e.filled ⟨rest, fault⟩) ∧
      e.filled.encode ⟨version, limits⟩ = .ok sent) ∨
    ∃ error, e.encode ⟨version, limits⟩ = .error error ∧ e.Refuses limits error := by
  obtain ⟨used, -, -, -, hused⟩ := (read_accepts ..).1 h
  cases hfailure : (e.emit ⟨version, limits⟩).failure with
  | none =>
      left
      have hfilled : (e.filled.emit ⟨version, limits⟩).failure = none := by
        rw [emit_filled]
        exact hfailure
      refine ⟨_, encode_of_done hfailure, ?_, ?_⟩
      · intro rest fault
        rw [← type_of_frame hused, ← image_of_frame hused]
        exact read_recovers ⟨le_rfl, le_rfl⟩ e hfailure rest fault
      · rw [encode_of_done hfilled, emit_filled]
  | some error =>
      right
      exact ⟨error, encode_of_failed hfailure, refuses_of_frame hused hfailure⟩

theorem lax_frame_is_sent_on :
    let bytes : List UInt8 :=
      [2, 0, 0, 0, 5, 0, 0, 0, 0, 0, 0, 0, 9, 0, 0, 0, 1, 254, 255, 255, 255, 254, 255, 255, 255,
        255, 255, 255, 255, 255, 255, 255, 255, 255, 255, 255, 255, 255, 255, 255, 255, 1, 2, 0, 0,
        0, 0, 1, 1, 0, 0, 0, 120, 0, 4, 0, 0, 0, 0, 0, 0, 0, 0, 0, 1, 3, 0, 0, 0, 1, 0, 0, 0, 65, 1,
        0, 0, 0, 49, 0, 0, 0, 0, 1, 0, 0, 0, 50, 1, 0, 0, 0, 65, 1, 0, 0, 0, 51, 0, 0, 0, 0, 1, 0,
        0, 0, 7, 0, 0, 0, 0, 0, 0, 0]
    let start : ProjectStart := { id := 4, properties := some { entries := [("A", "3"), ("", "2")] } }
    let e : Event :=
      { kind := .projectStarted start, message := ⟨.raw none [.text "", .integer 7], none⟩
        time := ⟨0, 5⟩, thread := 9 }
    let sent : List UInt8 :=
      [2, 0, 0, 0, 5, 0, 0, 0, 0, 0, 0, 0, 9, 0, 0, 0, 0, 1, 2, 0, 0, 0, 1, 0, 0, 0, 0, 1, 1, 0, 0,
        0, 55, 0, 4, 0, 0, 0, 0, 0, 0, 0, 0, 0, 1, 1, 0, 0, 0, 1, 0, 0, 0, 65, 1, 0, 0, 0, 51, 0, 0,
        0, 0, 1, 0, 0, 0, 7, 0, 0, 0, 0, 0, 0, 0]
    read ⟨3, {}⟩ .projectStarted ⟨bytes, none⟩ = .ok e ⟨[], none⟩ ∧ e.encode ⟨3, {}⟩ = .ok sent ∧
      (∀ rest fault, read ⟨3, {}⟩ .projectStarted ⟨sent ++ rest, fault⟩ =
        .ok e.filled ⟨rest, fault⟩) ∧ e.filled.encode ⟨3, {}⟩ = .ok sent := by
  intro bytes start e sent
  have hread : read ⟨3, {}⟩ .projectStarted ⟨bytes, none⟩ = .ok e ⟨[], none⟩ := by decide +kernel
  have hdone : (e.emit ⟨3, {}⟩).failure = none := by decide +kernel
  have hbytes : (e.emit ⟨3, {}⟩).bytes = sent := by decide +kernel
  have hencode : e.encode ⟨3, {}⟩ = .ok sent := by rw [encode_of_done hdone, hbytes]
  rcases received_event_is_sent_on 3 {} .projectStarted bytes none e ⟨[], none⟩ hread with
    ⟨written, hwritten, hback, hagain⟩ | ⟨error, hfailed, -⟩
  · cases hencode.symm.trans hwritten
    exact ⟨hread, hencode, hback, hagain⟩
  · cases hencode.symm.trans hfailed

example :
    let bytes : List UInt8 :=
      [2, 0, 0, 0, 0, 0, 0, 0, 0, 0, 0, 0, 0, 0, 0, 0, 0, 1, 1, 0, 0, 0, 0, 0, 1, 0, 0, 0, 100, 0, 0,
        0, 0, 0, 0, 0]
    let e : Event := { kind := .buildStarted, message := ⟨.raw none [.integer 100], none⟩ }
    let limits : Limits := { maxText := 2 }
    read ⟨3, limits⟩ .buildStarted ⟨bytes, none⟩ = .ok e ⟨[], none⟩ ∧
      (e.emit ⟨3, limits⟩).failure = some (.lengthOutOfRange "string" 3 2) := by
  decide +kernel

end Event

end BuildFeed
