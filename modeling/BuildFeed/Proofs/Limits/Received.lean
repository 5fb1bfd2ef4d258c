import BuildFeed.Proofs.Grammar.PropertyTable
import BuildFeed.Proofs.Limits.Event

namespace BuildFeed

variable {α β : Type}

open Extent (optionalText textList listed)

def Arg.extents : Arg → List Extent
  | text s => [.text s]
  | integer _ | decimal _ => []

def Message.extents (message : Message) : List Extent :=
  optionalText message.toParts.text ++
    (Extent.optional (listed "argument list" Arg.extents) message.toParts.args ++
      optionalText message.toParts.locale)

def Event.extents (e : Event) : List Extent :=
  e.message.extents ++ (optionalText e.help ++ (optionalText e.sender ++ e.kind.extents))

def ProjectError.extents (e : ProjectError) : List Extent :=
  optionalText e.message ++ (optionalText e.projectFile ++ (optionalText e.subcategory ++
    (optionalText e.code ++ optionalText e.help)))

def LoggerError.extents (e : LoggerError) : List Extent :=
  optionalText e.message ++ (optionalText e.inner ++ (Extent.optional Event.extents e.event ++
    (optionalText e.errorCode ++ optionalText e.help)))

def Packet.extents : Packet → List Extent
  | event e => e.extents
  | projectError e => e.extents
  | loggerError e => e.extents

namespace Extent

variable {limits : Limits} {what : String} {extents : α → List Extent}

theorem forall_listed {P : Extent → Prop} {as : List α} :
    (∀ x ∈ listed what extents as, P x) ↔
      P (items what as.length) ∧ ∀ a ∈ as, ∀ x ∈ extents a, P x := by
  simp only [listed, List.forall_mem_cons, List.forall_mem_flatMap]

theorem listed_fits {extents' : β → List Extent} {as : List α} {bs : List β}
    (hlength : bs.length ≤ as.length)
    (hmem : ∀ b ∈ bs, ∃ a ∈ as, extents' b ⊆ extents a)
    (h : ∀ x ∈ listed what extents as, x.Fits limits) :
    ∀ x ∈ listed what extents' bs, x.Fits limits := by
  obtain ⟨⟨hmax, hword⟩, hfits⟩ := forall_listed.1 h
  refine forall_listed.2 ⟨⟨hlength.trans hmax, hlength.trans_lt hword⟩, ?_⟩
  intro b hb x hx
  obtain ⟨a, ha, hsub⟩ := hmem b hb
  exact hfits a ha x (hsub hx)

end Extent

namespace Read

def Ensures (r : Read α) (P : α → Prop) : Prop :=
  ∀ s a t, r s = .ok a t → P a

variable {r : Read α} {P : α → Prop} {Q : β → Prop}

theorem ensures_pure {a : α} (h : P a) : (pure a : Read α).Ensures P := by
  rintro _ _ _ ⟨⟩
  exact h

theorem ensures_throw (error : ProtocolError) : (throw error : Read α).Ensures P := by
  rintro _ _ _ ⟨⟩

theorem Ensures.bind (hr : r.Ensures P) {f : α → Read β} (hf : ∀ a, P a → (f a).Ensures Q) :
    (r >>= f).Ensures Q := by
  intro s b u h
  cases hfirst : r s with
  | ok a t =>
      rw [bind_of_ok hfirst] at h
      exact hf a (hr s a t hfirst) t b u h
  | error error t =>
      rw [bind_of_error hfirst] at h
      cases h

theorem Ensures.map (hr : r.Ensures P) {f : α → β} (hf : ∀ a, P a → Q (f a)) :
    (f <$> r).Ensures Q := by
  rw [map_eq_pure_bind]
  exact hr.bind fun a ha => ensures_pure (hf a ha)

theorem ensures_true (r : Read α) : r.Ensures fun _ => True :=
  fun _ _ _ _ => trivial

theorem Accepts.ensures {spell : α → Language UInt8} (h : r.Accepts spell)
    (hP : ∀ a bytes, bytes ∈ spell a → P a) : r.Ensures P := by
  intro ⟨bytes, fault⟩ a t hread
  obtain ⟨used, -, -, -, hused⟩ := (h bytes fault a t).1 hread
  exact hP a used hused

theorem Ensures.times (hr : r.Ensures P) (n : Nat) :
    (times n r).Ensures fun as => as.length = n ∧ ∀ a ∈ as, P a := by
  induction n with
  | zero => exact ensures_pure ⟨rfl, List.forall_mem_nil P⟩
  | succ n ih =>
      refine hr.bind fun a ha => ih.bind fun as ⟨hlength, has⟩ => ensures_pure ?_
      exact ⟨congrArg (· + 1) hlength, List.forall_mem_cons.2 ⟨ha, has⟩⟩

theorem ensures_mapM {f : α → Read β} {R : α → β → Prop} (hf : ∀ a, (f a).Ensures (R a))
    (as : List α) : (as.mapM f).Ensures (List.Forall₂ R as) := by
  induction as with
  | nil => exact ensures_pure .nil
  | cons a as ih =>
      rw [List.mapM_cons]
      exact (hf a).bind fun b hb => ih.bind fun bs hbs => ensures_pure (.cons hb hbs)

end Read

namespace Codec

open Read (ensures_pure ensures_throw ensures_true)

def Bounds (c : Codec α) (extents : α → List Extent) : Prop :=
  ∀ terms slot, (c.read terms slot).Ensures fun a => ∀ x ∈ extents a, x.Fits terms.limits

variable {c : Codec α} {d : Codec β} {xs : α → List Extent} {ys : β → List Extent}

theorem Bounds.parse (h : c.Bounds xs) (terms : Terms) :
    (c.parse terms).Ensures fun a => ∀ x ∈ xs a, x.Fits terms.limits :=
  h terms c.blank

theorem bounds_nil (c : Codec α) : c.Bounds fun _ => [] :=
  fun _ _ _ _ _ _ => List.forall_mem_nil _

theorem Bounds.iso (h : c.Bounds xs) {wrap : α → β} {unwrap : β → α}
    (hwrap : ∀ limits a, (∀ x ∈ xs a, x.Fits limits) → ∀ x ∈ ys (wrap a), x.Fits limits) :
    (c.iso wrap unwrap).Bounds ys :=
  fun terms slot => (h terms (unwrap slot)).map (hwrap terms.limits)

theorem Bounds.pair (hc : c.Bounds xs) (hd : d.Bounds ys) :
    (c.pair d).Bounds fun p => xs p.1 ++ ys p.2 := by
  intro terms slot
  refine (hc terms slot.1).bind fun a ha => (hd terms slot.2).bind fun b hb => ensures_pure ?_
  exact List.forall_mem_append.2 ⟨ha, hb⟩

theorem Bounds.optional (h : c.Bounds xs) : c.optional.Bounds (Extent.optional xs) := by
  intro terms slot
  refine (ensures_true (bool.read terms slot.isSome)).bind fun present _ => ?_
  cases present with
  | true => exact (h terms (slot.getD c.blank)).map fun a ha => ha
  | false => exact ensures_pure (List.forall_mem_nil _)

theorem Bounds.since {c : Codec (Option α)} {xs : Option α → List Extent} (h : c.Bounds xs)
    (hnone : xs none = []) (first : Int32) : (c.since first).Bounds xs := by
  intro terms slot
  by_cases hversion : terms.version < first
  · have hread : (c.since first).read terms slot = pure none := if_pos hversion
    rw [hread]
    exact ensures_pure (hnone ▸ List.forall_mem_nil _)
  · have hread : (c.since first).read terms slot = c.read terms slot := if_neg hversion
    rw [hread]
    exact h terms slot

theorem text_bounds : text.Bounds fun s => [.text s] := by
  intro terms slot
  have hreads : (text.read terms slot).Accepts (Grammar.text terms.limits) := text_speaks.reads
  refine hreads.ensures fun s bytes ⟨hmax, hbytes⟩ => List.forall_mem_singleton.2 ?_
  obtain ⟨front, hfront, -⟩ := Language.mem_mul.1 hbytes
  rw [encoded_eq] at hmax hfront
  exact ⟨hmax, lt_of_mem_word hfront⟩

theorem count_bounds (what : String) : (count what).Bounds fun n => [.items what n] := by
  intro terms slot
  unfold count
  dsimp only
  cases countFault? what terms.limits slot with
  | some error => exact ensures_throw error
  | none =>
      refine (ensures_true (int32.read terms (Int32.ofNat slot))).bind fun stated _ => ?_
      split
      · next hstated =>
          have hword : stated.toInt < Nat.pow 2 31 := stated.toInt_lt
          refine ensures_pure (List.forall_mem_singleton.2 ⟨?_, ?_⟩)
          · exact Int.toNat_le.2 hstated.2
          · exact (Int.toNat_lt hstated.1).2 hword
      · exact ensures_throw _

theorem Bounds.items (h : c.Bounds xs) (what : String) :
    (c.items what).Bounds (Extent.listed what xs) := by
  intro terms slot
  refine (count_bounds what terms slot.length).bind fun n hn => ?_
  intro s as t hread
  obtain ⟨rfl, has⟩ := (h.parse terms).times n s as t hread
  exact Extent.forall_listed.2 ⟨List.forall_mem_singleton.1 hn, has⟩

theorem optionalText_bounds : optionalText.Bounds Extent.optionalText :=
  text_bounds.optional

theorem textList_bounds : textList.Bounds (Extent.textList "string list") :=
  text_bounds.items "string list"

theorem presentText_bounds : presentText.Bounds fun s => [.text s] := by
  refine optionalText_bounds.iso fun limits text? htext => ?_
  cases text? with
  | some s => exact htext
  -- An absent text is read as an empty one.
  | none => exact List.forall_mem_singleton.2 ⟨Nat.zero_le _, by decide⟩

theorem argTexts_bounds :
    argTexts.Bounds (Extent.optional (Extent.textList "argument list")) :=
  (presentText_bounds.items "argument list").optional

theorem propertyTable_bounds : propertyTable.Bounds PropertyTable.extents := by
  intro terms slot
  refine (((text_bounds.pair text_bounds).items "property table").parse terms).map ?_
  intro pairs hpairs
  -- Of pairs that give a name again the table keeps one.
  have hgathers := Grammar.gathers_ofList pairs
  refine Extent.listed_fits (Grammar.length_le_of_gathers hgathers) ?_ hpairs
  intro entry hentry
  exact ⟨entry, Grammar.mem_of_gathers hgathers hentry, List.Subset.refl _⟩

theorem projectStart_bounds :
    projectStart.Bounds fun start => (EventKind.projectStarted start).extents := by
  refine ((bounds_nil int32).pair ((bounds_nil contextIds.optional).pair (optionalText_bounds.pair
    (textList_bounds.pair propertyTable_bounds.optional)))).iso ?_
  intro limits start h
  exact h

theorem projectFinish_bounds :
    projectFinish.Bounds fun finish => (EventKind.projectFinished finish).extents := by
  refine ((bounds_nil bool).pair optionalText_bounds).iso ?_
  intro limits finish h
  exact h

theorem targetStart_bounds :
    targetStart.Bounds fun start => (EventKind.targetStarted start).extents := by
  refine (optionalText_bounds.pair (optionalText_bounds.pair (optionalText_bounds.pair
    (optionalText_bounds.pair (bounds_nil coded))))).iso ?_
  intro limits start h
  simpa only [EventKind.extents, List.append_nil] using h

theorem targetFinish_bounds :
    targetFinish.Bounds fun finish => (EventKind.targetFinished finish).extents := by
  refine (optionalText_bounds.pair (optionalText_bounds.pair (optionalText_bounds.pair
    (bounds_nil bool)))).iso ?_
  intro limits finish h
  simpa only [EventKind.extents, List.append_nil] using h

theorem diagnostic_bounds : diagnostic.Bounds fun d => (EventKind.error d).extents := by
  refine (optionalText_bounds.pair (optionalText_bounds.pair (optionalText_bounds.pair
    (optionalText_bounds.pair ((bounds_nil span).pair
      (optionalText_bounds.since rfl helpLinkVersion)))))).iso ?_
  intro limits d h
  exact h

theorem note_bounds : note.Bounds fun n => (EventKind.message n).extents := by
  refine (optionalText_bounds.pair (optionalText_bounds.pair (optionalText_bounds.pair
    (optionalText_bounds.pair (bounds_nil (coded.pair span)))))).iso ?_
  intro limits n h
  simpa only [EventKind.extents, List.append_nil] using h

theorem header_bounds : header.Bounds fun (text, help, sender, _) =>
    Extent.optionalText text ++ (Extent.optionalText help ++ (Extent.optionalText sender ++ [])) :=
  optionalText_bounds.pair (optionalText_bounds.pair (optionalText_bounds.pair (bounds_nil _)))

end Codec

open Read (ensures_pure ensures_throw ensures_true)

theorem EventKind.read_ensures (terms : Terms) (type : EventType) :
    (read terms type).Ensures fun kind => ∀ x ∈ kind.extents, x.Fits terms.limits := by
  cases type with
  | custom => exact ensures_pure (List.forall_mem_nil _)
  | buildStarted => exact ensures_pure (List.forall_mem_nil _)
  | buildFinished =>
      exact ((Codec.bounds_nil Codec.bool).parse terms).map fun _ h => h
  | projectStarted => exact (Codec.projectStart_bounds.parse terms).map fun _ h => h
  | projectFinished => exact (Codec.projectFinish_bounds.parse terms).map fun _ h => h
  | targetStarted => exact (Codec.targetStart_bounds.parse terms).map fun _ h => h
  | targetFinished => exact (Codec.targetFinish_bounds.parse terms).map fun _ h => h
  | error => exact (Codec.diagnostic_bounds.parse terms).map fun _ h => h
  | warning => exact (Codec.diagnostic_bounds.parse terms).map fun _ h => h
  | message => exact (Codec.note_bounds.parse terms).map fun _ h => h

namespace Arg

theorem readTyped_ensures (terms : Terms) (value : String) :
    (readTyped terms value).Ensures fun arg => arg.extents ⊆ [.text value] := by
  refine (ensures_true (Codec.coded.parse terms)).bind fun kind _ => ?_
  cases kind with
  | text => exact ensures_pure (List.Subset.refl _)
  | integer => exact (ensures_true _).map fun _ _ => List.nil_subset _
  | decimal => exact (ensures_true _).map fun _ _ => List.nil_subset _

theorem readAll_ensures (terms : Terms) (values : List String) :
    (readAll terms values).Ensures
      (List.Forall₂ (fun value arg => arg.extents ⊆ [.text value]) values) := by
  rw [readAll]
  split
  · refine ensures_pure (List.forall₂_map_right_iff.2 (List.forall₂_same.2 fun value _ => ?_))
    exact List.Subset.refl _
  · exact Read.ensures_mapM (readTyped_ensures terms) values

theorem mapM_readAll_ensures {terms : Terms} {values? : Option (List String)}
    (h : ∀ x ∈ Extent.optional (textList "argument list") values?, x.Fits terms.limits) :
    (values?.mapM (readAll terms)).Ensures fun args? =>
      ∀ x ∈ Extent.optional (listed "argument list" extents) args?, x.Fits terms.limits := by
  cases values? with
  | none => exact ensures_pure (List.forall_mem_nil _)
  | some values =>
      refine (readAll_ensures terms values).map fun args hargs => ?_
      obtain ⟨hlength, hget⟩ := List.forall₂_iff_get.1 hargs
      refine Extent.listed_fits (Nat.le_of_eq hlength.symm) ?_ h
      intro arg harg
      obtain ⟨⟨i, hi⟩, rfl⟩ := List.get_of_mem harg
      exact ⟨values.get ⟨i, hlength ▸ hi⟩, List.get_mem .., hget i _ hi⟩

end Arg

theorem Message.extents_ofParts (parts : MessageParts) : (ofParts parts).extents =
    optionalText parts.text ++ (Extent.optional (listed "argument list" Arg.extents) parts.args ++
      optionalText parts.locale) := by
  rw [extents, toParts_ofParts]

namespace Event

theorem readArgTexts_ensures (terms : Terms) (type : EventType) :
    (readArgTexts terms type).Ensures fun (texts, locale) =>
      (∀ x ∈ Extent.optional (textList "argument list") texts, x.Fits terms.limits) ∧
        ∀ x ∈ optionalText locale, x.Fits terms.limits := by
  rw [readArgTexts]
  split
  · refine (Codec.argTexts_bounds.parse terms).bind fun texts htexts => ?_
    refine (Codec.optionalText_bounds.parse terms).bind fun locale hlocale => ?_
    exact ensures_pure ⟨htexts, hlocale⟩
  · exact ensures_pure ⟨List.forall_mem_nil _, List.forall_mem_nil _⟩

theorem read_ensures (terms : Terms) (type : EventType) :
    (read terms type).Ensures fun e => ∀ x ∈ e.extents, x.Fits terms.limits := by
  rw [read_eq]
  refine (ensures_true _).bind fun shape _ => ?_
  split
  · exact ensures_throw _
  · refine (Codec.header_bounds.parse terms).bind fun (text, help, sender, _, _, _) h => ?_
    simp only [List.forall_mem_append] at h
    obtain ⟨htext, hhelp, hsender, -⟩ := h
    refine (readArgTexts_ensures terms type).bind fun (texts, locale) ⟨htexts, hlocale⟩ => ?_
    refine (EventKind.read_ensures terms type).bind fun kind hkind => ?_
    refine (Arg.mapM_readAll_ensures htexts).bind fun args hargs => ensures_pure ?_
    simp only [extents, Message.extents_ofParts, List.forall_mem_append]
    exact ⟨⟨htext, hargs, hlocale⟩, hhelp, hsender, hkind⟩

end Event

namespace Codec

theorem optionalEvent_bounds : optionalEvent.Bounds (Extent.optional Event.extents) := by
  intro terms slot
  refine (ensures_true (bool.read terms slot.isSome)).bind fun present _ => ?_
  cases present with
  | false => exact ensures_pure (List.forall_mem_nil _)
  | true =>
      refine (ensures_true (int32.read terms _)).bind fun code _ => ?_
      split
      · next type _ => exact (Event.read_ensures terms type).map fun _ h => h
      · exact ensures_throw _

theorem projectError_bounds : projectError.Bounds ProjectError.extents := by
  refine (optionalText_bounds.pair (optionalText_bounds.pair ((bounds_nil span).pair
    (optionalText_bounds.pair (optionalText_bounds.pair (optionalText_bounds.pair
      (bounds_nil bool))))))).iso ?_
  intro limits e h
  simpa only [ProjectError.extents, List.nil_append, List.append_nil] using h

theorem loggerError_bounds : loggerError.Bounds LoggerError.extents := by
  refine (optionalText_bounds.pair (optionalText_bounds.pair (optionalEvent_bounds.pair
    (optionalText_bounds.pair (optionalText_bounds.pair (bounds_nil bool)))))).iso ?_
  intro limits e h
  simpa only [LoggerError.extents, List.append_nil] using h

end Codec

namespace Packet

theorem readTagged_ensures (terms : Terms) (tag : Int32) :
    (readTagged terms tag).Ensures fun p => ∀ x ∈ p.extents, x.Fits terms.limits := by
  rw [readTagged]
  split
  · exact (Codec.projectError_bounds.parse terms).map fun _ h => h
  split
  · exact (Codec.loggerError_bounds.parse terms).map fun _ h => h
  split
  · next type _ => exact (Event.read_ensures terms type).map fun _ h => h
  · exact ensures_throw _

theorem receive_ensures (terms : Terms) :
    (receive terms).Ensures fun p? => ∀ p ∈ p?, ∀ x ∈ p.extents, x.Fits terms.limits := by
  refine (ensures_true Read.atEnd).bind fun ended _ => ?_
  cases ended with
  | true => exact ensures_pure fun p hp => absurd hp (Option.not_mem_none p)
  | false =>
      refine (ensures_true (Codec.int32.parse terms)).bind fun tag _ => ?_
      exact (readTagged_ensures terms tag).map fun p h q hq => Option.mem_some.1 hq ▸ h

theorem receiveUpTo_fits (terms : Terms) (fuel : Nat) (source : Source) :
    ∀ p ∈ (receiveUpTo terms fuel source).1, ∀ x ∈ p.extents, x.Fits terms.limits := by
  induction fuel generalizing source with
  | zero => exact List.forall_mem_nil _
  | succ fuel ih =>
      rw [receiveUpTo]
      split
      · exact List.forall_mem_nil _
      · exact List.forall_mem_nil _
      · next p rest hreceive =>
          have hp := receive_ensures terms source (some p) rest hreceive
          exact List.forall_mem_cons.2 ⟨hp p rfl, ih rest⟩

theorem received_packets_fit_limits (terms : Terms) (source : Source) :
    (∀ p rest, receive terms source = .ok (some p) rest →
      ∀ x ∈ p.extents, x.Fits terms.limits) ∧
    ∀ p ∈ (receiveAll terms source).1, ∀ x ∈ p.extents, x.Fits terms.limits := by
  refine ⟨?_, receiveUpTo_fits terms _ source⟩
  intro p rest h
  exact receive_ensures terms source (some p) rest h p rfl

theorem wrapped_event_fits_limits :
    let terms : Terms := ⟨3, ⟨3, 1⟩⟩
    let e : Event :=
      { kind := .projectStarted
          { targets := ["t"], properties := some { entries := [("a", "b")] } }
        message := .lazyIn "\x7b0\x7d" [.integer 7] "de" }
    let p : Packet := .loggerError { message := some "m", event := some e }
    let bytes : List UInt8 :=
      [101, 0, 0, 0, 1, 1, 0, 0, 0, 109, 0, 1, 3, 0, 0, 0, 2, 1, 3, 0, 0, 0, 123, 48, 125, 0, 0, 0,
        0, 0, 0, 0, 0, 0, 0, 0, 0, 0, 0, 0, 1, 1, 0, 0, 0, 1, 1, 0, 0, 0, 55, 1, 2, 0, 0, 0, 100,
        101, 0, 0, 0, 0, 0, 0, 1, 0, 0, 0, 1, 0, 0, 0, 116, 1, 1, 0, 0, 0, 1, 0, 0, 0, 97, 1, 0, 0,
        0, 98, 1, 0, 0, 0, 7, 0, 0, 0, 0, 0, 0, 0, 0, 0, 0]
    let tooLong : List UInt8 := [100, 0, 0, 0, 1, 4, 0, 0, 0, 108, 111, 110, 103]
    receive terms ⟨bytes ++ tooLong, none⟩ = .ok (some p) ⟨tooLong, none⟩ ∧
      receiveAll terms ⟨bytes ++ tooLong, none⟩ = ([p], some (.lengthOutOfRange "string" 4 3)) ∧
      ∀ x ∈ p.extents, x.Fits terms.limits := by
  intro terms e p bytes tooLong
  obtain ⟨hone, -⟩ := received_packets_fit_limits terms ⟨bytes ++ tooLong, none⟩
  have hreceive : receive terms ⟨bytes ++ tooLong, none⟩ = .ok (some p) ⟨tooLong, none⟩ := by
    decide +kernel
  have hpackets : receiveAll terms ⟨bytes ++ tooLong, none⟩ =
      ([p], some (.lengthOutOfRange "string" 4 3)) := by decide +kernel
  exact ⟨hreceive, hpackets, hone p _ hreceive⟩

end Packet

end BuildFeed
