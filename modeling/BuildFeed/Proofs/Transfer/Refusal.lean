import BuildFeed.Proofs.Transfer.PacketStream

namespace BuildFeed

variable {α β : Type}

def ProtocolError.isRefusal : ProtocolError → Bool
  | lengthOutOfRange _ _ _ | timestampOutOfRange => true
  | _ => false

namespace Read

def Waits (r : Read α) (e : Emission) : Prop :=
  ∀ error, e.failure = some error →
    error.isRefusal = true ∧ ∀ fault, r.RunsOut ⟨e.bytes, fault⟩

theorem waits_of_done {e : Emission} (h : e.failure = none) (r : Read α) : r.Waits e := by
  intro error herror
  rw [h] at herror
  cases herror

theorem waits_fail {r : Read α} {error : ProtocolError} (herror : error.isRefusal = true)
    (hr : ∀ fault, r.RunsOut ⟨[], fault⟩) : r.Waits (.fail error) := by
  intro e he
  cases he
  exact ⟨herror, hr⟩

theorem Waits.bind_read {r : Read α} {e : Emission} (hr : r.Waits e) (f : α → Read β) :
    (r >>= f).Waits e := by
  intro error herror
  obtain ⟨hrefusal, hout⟩ := hr error herror
  exact ⟨hrefusal, fun fault => (hout fault).bind f⟩

theorem Waits.map {r : Read α} {e : Emission} (hr : r.Waits e) (f : α → β) : (f <$> r).Waits e := by
  rw [map_eq_pure_bind]
  exact hr.bind_read _

theorem Waits.bind {r : Read α} {f : α → Read β} {e e' : Emission} {a : α} (hr : r.Waits e)
    (hread : r.Recovers e a) (hf : (f a).Waits e') : (r >>= f).Waits (e ++ e') := by
  cases he : e.failure with
  | some error =>
      rw [Emission.append_of_failed he]
      exact hr.bind_read f
  | none =>
      intro error herror
      rw [Emission.failure_of_done_append he] at herror
      obtain ⟨hrefusal, hout⟩ := hf error herror
      refine ⟨hrefusal, fun fault => ?_⟩
      obtain ⟨ending, hend, hstop⟩ := hout fault
      rw [Emission.bytes_append he]
      exact ⟨ending, hend, (bind_of_ok (hread he e'.bytes fault)).trans hstop⟩

theorem Waits.append_of_done {r : Read α} {e e' : Emission} (hr : r.Waits e)
    (h : e'.failure = none) : r.Waits (e ++ e') := by
  intro error herror
  rw [Emission.failure_append_of_done e h] at herror
  rw [Emission.append_of_failed herror]
  exact hr error herror

theorem waits_times {r : Read β} {emit : α → Emission} {image : α → β} {as : List α}
    (hread : ∀ a ∈ as, r.Recovers (emit a) (image a)) (h : ∀ a ∈ as, r.Waits (emit a)) :
    (times as.length r).Waits (.concat (as.map emit)) := by
  induction as with
  | nil => exact waits_of_done rfl _
  | cons a as ih =>
      have hrest : (times as.length r).Waits (.concat (as.map emit)) :=
        ih (fun b hb => hread b (List.mem_cons_of_mem a hb))
          (fun b hb => h b (List.mem_cons_of_mem a hb))
      have hfirst : a ∈ a :: as := List.mem_cons_self ..
      exact (h a hfirst).bind (hread a hfirst) (hrest.map (image a :: ·))

theorem runsOut_nil {ending : StreamError} (hend : ending.isEnd = true) {width : Nat}
    (hwidth : 0 < width) (fault : Option StreamFault) : (bytes ending width).RunsOut ⟨[], fault⟩ :=
  ⟨ending, hend, bytes_of_lt fault hwidth⟩

end Read

namespace Codec

def Waits (c : Codec α) (version : Int32) : Prop :=
  ∀ writer reader : Limits, writer ≤ reader → ∀ a,
    (c.parse ⟨version, reader⟩).Waits (c.emit ⟨version, writer⟩ a)

variable {c : Codec α} {d : Codec β} {image : α → α} {version : Int32}

theorem waits_of_total (h : ∀ terms a, (c.emit terms a).failure = none) : c.Waits version := by
  intro writer reader _ a
  exact Read.waits_of_done (h _ a) _

theorem int32_waits : int32.Waits version :=
  waits_of_total fun _ _ => rfl

theorem bool_waits : bool.Waits version :=
  waits_of_total fun _ _ => rfl

theorem coded_waits [Coded α] [Inhabited α] : (coded (α := α)).Waits version :=
  waits_of_total fun _ _ => rfl

theorem span_waits : span.Waits version :=
  waits_of_total fun _ _ => rfl

theorem contextIds_waits : contextIds.Waits version :=
  waits_of_total fun _ _ => rfl

theorem word_runsOut {width : Nat} (hwidth : 0 < width) (terms : Terms)
    (fault : Option StreamFault) : ((word width).parse terms).RunsOut ⟨[], fault⟩ :=
  (Read.runsOut_nil rfl hwidth fault).map _

theorem sized_waits (what : String) : (sized what).Waits version := by
  intro writer reader _ bytes
  by_cases h : bytes.length ≤ writer.maxText ∧ bytes.length < UInt32.size
  · have hdone : ((sized what).emit ⟨version, writer⟩ bytes).failure = none := by
      simp only [sized, if_pos h]
      rfl
    exact Read.waits_of_done hdone _
  · have hemit : (sized what).emit ⟨version, writer⟩ bytes =
        .fail (.lengthOutOfRange what bytes.length writer.maxText) := if_neg h
    rw [hemit]
    exact Read.waits_fail rfl fun fault => (word_runsOut (by decide) _ fault).bind _

theorem text_waits : text.Waits version := by
  intro writer reader hl s
  exact (sized_waits "string" _ _ hl (Text.utf8 s)).bind_read _

theorem count_waits (what : String) : (count what).Waits version := by
  intro writer reader _ n
  by_cases h : n ≤ writer.maxItems ∧ n < Nat.pow 2 31
  · have hdone : ((count what).emit ⟨version, writer⟩ n).failure = none := by
      simp only [count, countFault?, if_pos h]
      rfl
    exact Read.waits_of_done hdone _
  · have hemit : (count what).emit ⟨version, writer⟩ n =
        .fail (.lengthOutOfRange what n writer.maxItems) := by
      simp only [count, countFault?, if_neg h]
    rw [hemit, count_parse]
    exact Read.waits_fail rfl fun fault => ((word_runsOut (by decide) _ fault).map _).bind _

theorem instant_waits : instant.Waits version := by
  intro writer reader _ t
  cases hword : t.toWord? with
  | some n =>
      have hdone : (instant.emit ⟨version, writer⟩ t).failure = none := by
        simp only [instant, hword]
        rfl
      exact Read.waits_of_done hdone _
  | none =>
      have hemit : instant.emit ⟨version, writer⟩ t = .fail .timestampOutOfRange := by
        simp only [instant, hword]
      rw [hemit, parse.eq_def, instant_read]
      exact Read.waits_fail rfl fun fault =>
        (((word_runsOut (by decide) _ fault).map _).map _).map _

theorem Waits.iso (h : c.Waits version) {wrap : α → β} {unwrap : β → α}
    (hblank : ∀ terms, c.read terms (unwrap (wrap c.blank)) = c.parse terms) :
    (c.iso wrap unwrap).Waits version := by
  intro writer reader hl b
  have hparse : (c.iso wrap unwrap).parse ⟨version, reader⟩ = wrap <$> c.parse ⟨version, reader⟩ :=
    congrArg (wrap <$> ·) (hblank ⟨version, reader⟩)
  rw [hparse]
  exact (h _ _ hl (unwrap b)).map wrap

theorem Waits.optional (h : c.Waits version) : c.optional.Waits version := by
  intro writer reader hl a?
  cases a? with
  | none => exact Read.waits_of_done rfl _
  | some a => exact (bool_waits _ _ hl true).bind (bool_carries _ _ hl true) ((h _ _ hl a).map some)

theorem Waits.since {c : Codec (Option α)} (h : c.Waits version) (hblank : c.blank = none)
    (first : Int32) : (c.since first).Waits version := by
  intro writer reader hl a?
  by_cases hv : version < first
  · have hemit : (c.since first).emit ⟨version, writer⟩ a? = ∅ := if_pos hv
    rw [hemit]
    exact Read.waits_of_done rfl _
  · have hemit : (c.since first).emit ⟨version, writer⟩ a? = c.emit ⟨version, writer⟩ a? :=
      if_neg hv
    have hparse : (c.since first).parse ⟨version, reader⟩ = c.parse ⟨version, reader⟩ := by
      rw [parse.eq_def c, hblank]
      exact if_neg hv
    rw [hemit, hparse]
    exact h _ _ hl a?

theorem Waits.items (h : c.Waits version) (hc : c.Carries version image) (what : String) :
    (c.items what).Waits version := by
  intro writer reader hl as
  refine (count_waits what _ _ hl as.length).bind (count_carries what _ _ hl as.length) ?_
  exact Read.waits_times (fun a _ => hc _ _ hl a) fun a _ => h _ _ hl a

theorem Waits.pair (h : c.Waits version) (hc : c.Carries version image) (hd : d.Waits version) :
    (c.pair d).Waits version := by
  intro writer reader hl p
  exact (h _ _ hl p.1).bind (hc _ _ hl p.1) ((hd _ _ hl p.2).bind_read _)

theorem optionalText_waits : optionalText.Waits version :=
  text_waits.optional

theorem Waits.text_pair (hd : d.Waits version) : (optionalText.pair d).Waits version :=
  optionalText_waits.pair optionalText_carries hd

theorem textList_waits : textList.Waits version :=
  text_waits.items text_carries "string list"

theorem properties_waits : properties.Waits version := by
  have htable : propertyTable.Waits version := by
    intro writer reader hl t
    have hpair : (text.pair text).Waits version := text_waits.pair text_carries text_waits
    exact ((hpair.items (text_carries.pair text_carries) "property table") _ _ hl
      t.filled.entries).map PropertyTable.ofList
  exact htable.optional

theorem context_waits : context.Waits version :=
  contextIds_waits.optional.iso fun _ => rfl

theorem argTexts_waits : argTexts.Waits version := by
  have hpresent : presentText.Waits version := optionalText_waits.iso fun _ => rfl
  exact (hpresent.items presentText_carries "argument list").optional

theorem projectStart_waits : projectStart.Waits version := by
  refine (int32_waits.pair int32_carries ?_).iso fun _ => rfl
  refine contextIds_waits.optional.pair contextIds_carries.optional ?_
  exact (textList_waits.pair textList_carries properties_waits).text_pair

theorem projectFinish_waits : projectFinish.Waits version :=
  (bool_waits.pair bool_carries optionalText_waits).iso fun _ => rfl

theorem targetStart_waits : targetStart.Waits version :=
  coded_waits.text_pair.text_pair.text_pair.text_pair.iso fun _ => rfl

theorem targetFinish_waits : targetFinish.Waits version :=
  bool_waits.text_pair.text_pair.text_pair.iso fun _ => rfl

theorem diagnostic_waits : diagnostic.Waits version := by
  have hlink : (optionalText.since helpLinkVersion).Waits version :=
    optionalText_waits.since rfl helpLinkVersion
  exact (span_waits.pair span_carries hlink).text_pair.text_pair.text_pair.text_pair.iso fun _ => rfl

theorem note_waits : note.Waits version := by
  have hplace : (coded.pair span : Codec (Importance × Span)).Waits version :=
    coded_waits.pair coded_carries span_waits
  exact hplace.text_pair.text_pair.text_pair.text_pair.iso fun _ => rfl

end Codec

theorem EventKind.read_waits {version : Int32} {writer reader : Limits} (hl : writer ≤ reader)
    (kind : EventKind) :
    (read ⟨version, reader⟩ kind.type).Waits (kind.emit ⟨version, writer⟩) := by
  cases kind with
  | custom => exact Read.waits_of_done rfl _
  | buildStarted => exact Read.waits_of_done rfl _
  | buildFinished succeeded => exact Read.waits_of_done rfl _
  | projectStarted start => exact (Codec.projectStart_waits _ _ hl start).map _
  | projectFinished finish => exact (Codec.projectFinish_waits _ _ hl finish).map _
  | targetStarted start => exact (Codec.targetStart_waits _ _ hl start).map _
  | targetFinished finish => exact (Codec.targetFinish_waits _ _ hl finish).map _
  | error d => exact (Codec.diagnostic_waits _ _ hl d).map _
  | warning d => exact (Codec.diagnostic_waits _ _ hl d).map _
  | message note => exact (Codec.note_waits _ _ hl note).map _

namespace Event

variable {version : Int32} {writer reader : Limits}

theorem header_waits (hl : writer ≤ reader) (e : Event) {rest : Emission}
    {f : Option String → Option String → Option String → Instant → Int32 → Context → Read β}
    (h : (f e.sentParts.text e.help e.sender e.time.normal e.thread e.context).Waits rest) :
    Read.Waits (do
      let text ← Codec.optionalText.parse ⟨version, reader⟩
      let help ← Codec.optionalText.parse ⟨version, reader⟩
      let sender ← Codec.optionalText.parse ⟨version, reader⟩
      let time ← Codec.instant.parse ⟨version, reader⟩
      let thread ← Codec.int32.parse ⟨version, reader⟩
      let context ← Codec.context.parse ⟨version, reader⟩
      f text help sender time thread context) (e.emitHeader ⟨version, writer⟩ ++ rest) := by
  have htext : Codec.optionalText.Carries version id := Codec.optionalText_carries
  have hwaits : Codec.optionalText.Waits version := Codec.optionalText_waits
  simp only [emitHeader, Emission.append_assoc]
  refine (hwaits _ _ hl e.sentParts.text).bind (htext _ _ hl e.sentParts.text) ?_
  refine (hwaits _ _ hl e.help).bind (htext _ _ hl e.help) ?_
  refine (hwaits _ _ hl e.sender).bind (htext _ _ hl e.sender) ?_
  refine (Codec.instant_waits _ _ hl e.time).bind (Codec.instant_carries _ _ hl e.time) ?_
  refine (Codec.int32_waits _ _ hl e.thread).bind (Codec.int32_carries _ _ hl e.thread) ?_
  exact (Codec.context_waits _ _ hl e.context).bind (Codec.context_carries _ _ hl e.context) h

theorem readArgTexts_waits (hl : writer ≤ reader) {type : EventType} (hlazy : type.isLazy = true)
    (parts : MessageParts) :
    (readArgTexts ⟨version, reader⟩ type).Waits (emitArgTexts ⟨version, writer⟩ parts) := by
  rw [readArgTexts, if_pos hlazy]
  refine (Codec.argTexts_waits _ _ hl parts.renderedArgs).bind
    (Codec.argTexts_carries _ _ hl parts.renderedArgs) ?_
  exact (Codec.optionalText_waits _ _ hl parts.locale).bind_read _

theorem read_waits (hl : writer ≤ reader) (e : Event) :
    (read ⟨version, reader⟩ e.type).Waits (e.emit ⟨version, writer⟩) := by
  have hopening : e.emitOpening ⟨version, writer⟩ e.type =
      Codec.byte.emit ⟨version, writer⟩ e.type.shape := if_pos rfl
  have hkind : (EventKind.read ⟨version, reader⟩ e.type).Waits
      (e.kind.emit ⟨version, writer⟩) := EventKind.read_waits hl e.kind
  rw [emit, emitAs, hopening]
  unfold read
  refine (Read.waits_of_done rfl _).bind (Codec.byte_carries _ _ hl e.type.shape) ?_
  rw [if_neg fun h => h rfl]
  cases hlazy : e.type.isLazy with
  | false =>
      have htexts : readArgTexts ⟨version, reader⟩ e.type = pure (none, none) := by
        simp [readArgTexts, hlazy]
      have hbody : e.emitBody ⟨version, writer⟩ =
          e.emitHeader ⟨version, writer⟩ ++ e.kind.emit ⟨version, writer⟩ := by
        simp [emitBody, hlazy]
      rw [hbody]
      refine header_waits hl e ?_
      rw [htexts]
      exact hkind.bind_read _
  | true =>
      have hbody : e.emitBody ⟨version, writer⟩ = e.emitHeader ⟨version, writer⟩ ++
          (emitArgTexts ⟨version, writer⟩ e.sentParts ++
            (e.kind.emit ⟨version, writer⟩ ++ emitTypedArgs ⟨version, writer⟩ e.sentParts)) := by
        simp [emitBody, hlazy]
      rw [hbody]
      refine header_waits hl e ?_
      refine (readArgTexts_waits hl hlazy e.sentParts).bind
        (readArgTexts_recovers hl hlazy e.sentParts) ?_
      exact (hkind.bind_read _).append_of_done (emitTypedArgs_done _ _)

end Event

namespace Codec

variable {version : Int32}

theorem optionalEvent_waits : optionalEvent.Waits version := by
  intro writer reader hl e?
  cases e? with
  | none => exact Read.waits_of_done rfl _
  | some e =>
      refine (bool_waits _ _ hl true).bind (bool_carries _ _ hl true) ?_
      refine (int32_waits _ _ hl (Coded.code e.type)).bind (int32_carries _ _ hl _) ?_
      simp only [id_eq, Coded.ofCode?_code]
      exact (Event.read_waits hl e).map some

theorem projectError_waits : projectError.Waits version := by
  have htail : (span.pair (optionalText.pair (optionalText.pair (optionalText.pair bool)))).Waits
      version := span_waits.pair span_carries bool_waits.text_pair.text_pair.text_pair
  exact htail.text_pair.text_pair.iso fun _ => rfl

theorem loggerError_waits : loggerError.Waits version := by
  have htail : (optionalEvent.pair (optionalText.pair (optionalText.pair bool))).Waits version :=
    optionalEvent_waits.pair optionalEvent_carries bool_waits.text_pair.text_pair
  exact htail.text_pair.text_pair.iso fun _ => rfl

end Codec

namespace Packet

variable {version : Int32} {writer reader : Limits}

theorem readTagged_waits (hl : writer ≤ reader) (p : Packet) :
    (readTagged ⟨version, reader⟩ p.tag).Waits (p.emitFrame ⟨version, writer⟩) := by
  cases p with
  | event e =>
      rw [readTagged_event]
      exact (Event.read_waits hl e).map event
  | projectError e => exact (Codec.projectError_waits _ _ hl e).map projectError
  | loggerError e => exact (Codec.loggerError_waits _ _ hl e).map loggerError

theorem readOne_waits (hl : writer ≤ reader) (p : Packet) :
    (readOne ⟨version, reader⟩).Waits (p.emit ⟨version, writer⟩) :=
  (Codec.int32_waits _ _ hl p.tag).bind (Codec.int32_carries _ _ hl p.tag) (readTagged_waits hl p)

theorem receive_short (hl : writer ≤ reader) (p : Packet) {front back : List UInt8}
    (hsplit : front ++ back = (p.emit ⟨version, writer⟩).bytes) (hfront : front ≠ [])
    (hshort : back ≠ [] ∨ (p.emit ⟨version, writer⟩).failure ≠ none) (fault : Option StreamFault) :
    (receive ⟨version, reader⟩).RunsOut ⟨front, fault⟩ := by
  cases hfailure : (p.emit ⟨version, writer⟩).failure with
  -- a whole frame has been cut
  | none =>
      have hback := hshort.resolve_right (· hfailure)
      have hread := readOne_recovers hl p hfailure [] none
      rw [List.append_nil] at hread
      obtain ⟨used, rest, hused, hrest, hsettles⟩ := (readOne_framed _).settles_of_ok hread
      cases hrest
      rw [List.append_nil] at hused
      exact receive_cut hsettles (hsplit.trans hused) hfront hback fault
  -- the frame was never completed, whether or not it has been cut as well
  | some error =>
      obtain ⟨_, hout⟩ := readOne_waits hl p error hfailure
      exact receive_runsOut hfront ((readOne_framed _).runsOut_front (hsplit ▸ hout fault) fault)

end Packet

end BuildFeed
