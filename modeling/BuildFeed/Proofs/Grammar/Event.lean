import BuildFeed.Proofs.Grammar.Kind

namespace BuildFeed

open Grammar (given given_of mem_given)

namespace Arg

theorem readTyped_accepts (terms : Terms) (value : String) :
    (readTyped terms value).Accepts (Grammar.typedArg value) := by
  have hkind : (Codec.coded.parse terms).Accepts fun kind : ArgKind => Grammar.coded kind :=
    Codec.coded_speaks.reads
  have hint : (Codec.int64.parse terms).Accepts Grammar.int64 := Codec.int64_speaks.reads
  have hword : (Codec.uint64.parse terms).Accepts fun n => Grammar.word 8 n.toNat :=
    Codec.uint64_speaks.reads
  have hread : (readTyped terms value).Accepts fun arg =>
      given True (Grammar.coded arg.kind * Grammar.argValue value arg) := by
    refine hkind.field Arg.kind fun kind => ?_
    cases kind with
    | text =>
        refine (Read.accepts_pure (text value)).congr fun arg => ?_
        ext bytes
        cases arg <;> simp [mem_given, Arg.kind, Grammar.argValue]
    | integer =>
        refine hint.wrapped ?_ fun n => rfl
        intro arg
        cases arg <;> simp [Arg.kind]
    | decimal =>
        refine hword.wrapped ?_ fun n => rfl
        intro arg
        cases arg with
        | decimal d => simp [Arg.kind]
        | _ => simp [Arg.kind]
  refine hread.congr fun arg => ?_
  rw [given_of trivial]
  cases arg <;> rfl

theorem readAll_accepts (terms : Terms) (texts : Option (List String)) :
    (texts.mapM (readAll terms)).Accepts (Grammar.typedArgs terms.version texts) := by
  cases texts with
  | none =>
      refine (Read.accepts_pure none).congr fun args => ?_
      ext bytes
      cases args <;> simp [mem_given, Grammar.typedArgs]
  | some values =>
      have hmap : (some values).mapM (readAll terms) = some <$> readAll terms values := rfl
      rw [hmap, readAll]
      split
      · next hv =>
          exact (Read.accepts_pure (values.map text)).some rfl (Grammar.typedArgs_of_lt hv values)
      · next hv =>
          exact (Read.accepts_mapM (readTyped_accepts terms) values).some rfl
            (Grammar.typedArgs_of_not_lt hv values)

end Arg

namespace Event

variable {terms : Terms} {expected : EventType}

def Shows (e : Event) (text help sender : Option String) (time : Instant) (thread : Int32)
    (context : Context) : Prop :=
  (((((e.localTime = none ∧ e.message.toParts.text = text) ∧ e.help = help) ∧ e.sender = sender) ∧
    e.time = time) ∧ e.thread = thread) ∧ e.context = context

theorem header_accepts {next : Event → Language UInt8}
    {f : Option String → Option String → Option String → Instant → Int32 → Context → Read Event}
    (h : ∀ text help sender time thread context, (f text help sender time thread context).Accepts
      fun e => given (e.Shows text help sender time thread context) (next e)) :
    Read.Accepts (do
      let text ← Codec.optionalText.parse terms
      let help ← Codec.optionalText.parse terms
      let sender ← Codec.optionalText.parse terms
      let time ← Codec.instant.parse terms
      let thread ← Codec.int32.parse terms
      let context ← Codec.context.parse terms
      f text help sender time thread context)
      fun e => given (e.localTime = none) (Grammar.header terms.limits e * next e) := by
  have htext : (Codec.optionalText.parse terms).Accepts (Grammar.optionalText terms.limits) :=
    Codec.optionalText_speaks.reads
  have htime : (Codec.instant.parse terms).Accepts Grammar.instant := Codec.instant_speaks.reads
  have hthread : (Codec.int32.parse terms).Accepts Grammar.int32 := Codec.int32_speaks.reads
  have hcontext : (Codec.context.parse terms).Accepts Grammar.context := Codec.context_speaks.reads
  simp only [Grammar.header, mul_assoc]
  refine htext.field (fun e : Event => e.message.toParts.text) fun text => ?_
  refine htext.field help fun help => ?_
  refine htext.field sender fun sender => ?_
  refine htime.field time fun time => ?_
  refine hthread.field thread fun thread => ?_
  exact hcontext.field context (h text help sender time thread)

theorem rest_accepts (terms : Terms) (expected : EventType) (text help sender : Option String)
    (time : Instant) (thread : Int32) (context : Context) (texts : Option (List String))
    (locale : Option String) :
    Read.Accepts (do
      let kind ← EventKind.read terms expected
      let args ← texts.mapM (Arg.readAll terms)
      pure { kind, message := .ofParts ⟨text, args, locale⟩, help, sender, time, thread, context } :
        Read Event)
      fun e => given (e.Shows text help sender time thread context ∧
        e.message.toParts.locale = locale) (Grammar.block terms expected e.kind *
          Grammar.typedArgs terms.version texts e.message.toParts.args) := by
  have hend (kind : EventKind) (args : Option (List Arg)) (e : Event) :
      ((e.Shows text help sender time thread context ∧ e.message.toParts.locale = locale) ∧
        e.kind = kind) ∧ e.message.toParts.args = args ↔
      e = { kind, message := .ofParts ⟨text, args, locale⟩, help, sender, time, thread, context } := by
    constructor
    · rintro ⟨⟨⟨⟨⟨⟨⟨⟨⟨hlocal, rfl⟩, rfl⟩, rfl⟩, rfl⟩, rfl⟩, rfl⟩, rfl⟩, rfl⟩, rfl⟩
      rw [Message.ofParts_toParts, ← hlocal]
    · rintro rfl
      simp only [Shows, Message.toParts_ofParts, and_self]
  have hkind := EventKind.read_accepts terms expected
  have hargs := Arg.readAll_accepts terms texts
  refine (hkind.field kind fun kind => hargs.field (fun e : Event => e.message.toParts.args)
    fun args => Read.accepts_pure_of (hend kind args)).congr fun e => ?_
  rw [mul_one]

theorem body_accepts (terms : Terms) (expected : EventType) (text help sender : Option String)
    (time : Instant) (thread : Int32) (context : Context) :
    Read.Accepts (do
      let (texts, locale) ← readArgTexts terms expected
      let kind ← EventKind.read terms expected
      let args ← texts.mapM (Arg.readAll terms)
      pure { kind, message := .ofParts ⟨text, args, locale⟩, help, sender, time, thread, context } :
        Read Event)
      fun e => given (e.Shows text help sender time thread context)
        (Grammar.body terms expected e) := by
  by_cases hcustom : expected = .custom
  · have htexts : readArgTexts terms expected = pure (none, none) := by
      rw [hcustom]
      rfl
    rw [htexts, pure_bind]
    refine (rest_accepts terms expected text help sender time thread context none none).congr
      fun e => ?_
    simp only [Grammar.body, if_pos hcustom]
    ext bytes
    cases e.message.toParts.args with
    | none => simp [mem_given, Grammar.typedArgs, and_assoc]
    | some args => simp [mem_given, Grammar.typedArgs]
  · have hlazy : expected.isLazy = true := EventType.isLazy_iff.2 hcustom
    have hargs : (Codec.argTexts.parse terms).Accepts (Grammar.arguments terms.limits) :=
      Codec.argTexts_speaks.reads
    have hlocale : (Codec.optionalText.parse terms).Accepts (Grammar.optionalText terms.limits) :=
      Codec.optionalText_speaks.reads
    simp only [readArgTexts, if_pos hlazy, bind_assoc, pure_bind]
    refine (hargs.hidden fun texts => hlocale.field (fun e : Event => e.message.toParts.locale)
      (rest_accepts terms expected text help sender time thread context texts)).congr fun e => ?_
    simp only [Grammar.body, if_neg hcustom, mul_assoc]

theorem read_accepts (terms : Terms) (expected : EventType) :
    (read terms expected).Accepts (Grammar.frame terms expected) := by
  have hshape : (Codec.byte.parse terms).Accepts fun b => {[b]} := Codec.byte_speaks.reads
  have hrest (shape : UInt8) : Read.Accepts (do
      if shape ≠ expected.shape then throw (.shapeMismatch expected shape)
      let text ← Codec.optionalText.parse terms
      let help ← Codec.optionalText.parse terms
      let sender ← Codec.optionalText.parse terms
      let time ← Codec.instant.parse terms
      let thread ← Codec.int32.parse terms
      let context ← Codec.context.parse terms
      let (texts, locale) ← readArgTexts terms expected
      let kind ← EventKind.read terms expected
      let args ← texts.mapM (Arg.readAll terms)
      pure { kind, message := .ofParts ⟨text, args, locale⟩, help, sender, time, thread, context } :
        Read Event)
      fun e => given (e.localTime = none ∧ expected.shape = shape)
        (Grammar.header terms.limits e * Grammar.body terms expected e) := by
    by_cases h : shape = expected.shape
    · subst h
      simp only [ne_eq, not_true, if_false, and_true]
      exact header_accepts (body_accepts terms expected)
    · rw [if_pos h]
      refine Read.accepts_throw _ ?_ _
      rintro e ⟨-, hshape⟩
      exact h hshape.symm
  refine (hshape.field (fun _ => expected.shape) hrest).congr fun e => ?_
  have hletter : expected.shape = if expected = .custom then 1 else 2 := by
    cases expected <;> rfl
  rw [Grammar.frame, mul_assoc, hletter]

theorem event_is_read_iff_frame_in_front (terms : Terms) (expected : EventType)
    (bytes : List UInt8) (fault : Option StreamFault) (e : Event) (s : Source) :
    read terms expected ⟨bytes, fault⟩ = .ok e s ↔
      ∃ k ≤ bytes.length, s = ⟨bytes.drop k, fault⟩ ∧
        bytes.take k ∈ Grammar.frame terms expected e := by
  rw [read_accepts terms expected bytes fault e s]
  constructor
  · rintro ⟨used, rest, rfl, rfl, hused⟩
    refine ⟨used.length, (List.prefix_append used rest).length_le, ?_, ?_⟩
    · rw [List.drop_left]
    · rwa [List.take_left]
  · rintro ⟨k, -, rfl, hused⟩
    exact ⟨bytes.take k, bytes.drop k, (List.take_append_drop k bytes).symm, rfl, hused⟩

end Event

end BuildFeed
