import BuildFeed.Proofs.Framing.Packet
import BuildFeed.Proofs.Transfer.EventFrame

namespace BuildFeed

variable {older newer : Int32}

def isNew (first older newer : Int32) : Prop :=
  older < first ∧ first ≤ newer

instance (first older newer : Int32) : Decidable (isNew first older newer) :=
  inferInstanceAs (Decidable (_ ∧ _))

theorem lt_iff_of_not_isNew {first : Int32} (h : older ≤ newer) (hnew : ¬isNew first older newer) :
    older < first ↔ newer < first := by
  constructor
  · intro hold
    exact Int32.not_le.1 fun hle => hnew ⟨hold, hle⟩
  · exact Int32.lt_of_le_of_lt h

namespace Codec

theorem optionalText_since_newer (first : Int32) (h : older ≤ newer) (limits : Limits)
    (text? : Option String) :
    (optionalText.since first).emit ⟨newer, limits⟩ text? =
      (optionalText.since first).emit ⟨older, limits⟩ text? ++
        if isNew first older newer then optionalText.emit ⟨newer, limits⟩ text? else ∅ := by
  by_cases hnew : isNew first older newer
  · simp only [since, if_pos hnew, if_pos hnew.1, if_neg (Int32.not_lt.2 hnew.2)]
    rfl
  · have hsame : optionalText.emit ⟨newer, limits⟩ text? = optionalText.emit ⟨older, limits⟩ text? :=
      rfl
    simp only [since, if_neg hnew, lt_iff_of_not_isNew h hnew, hsame, Emission.append_empty]

end Codec

namespace EventKind

def appended (older newer : Int32) (limits : Limits) : EventKind → Emission
  | error d | warning d =>
      if isNew helpLinkVersion older newer then
        Codec.optionalText.emit ⟨newer, limits⟩ d.helpLink
      else ∅
  | _ => ∅

theorem emit_newer (h : older ≤ newer) (limits : Limits) (kind : EventKind) :
    kind.emit ⟨newer, limits⟩ =
      kind.emit ⟨older, limits⟩ ++ kind.appended older newer limits := by
  have hdiagnostic (d : Diagnostic) : Codec.diagnostic.emit ⟨newer, limits⟩ d =
      Codec.diagnostic.emit ⟨older, limits⟩ d ++ (error d).appended older newer limits := by
    have hlink := Codec.optionalText_since_newer helpLinkVersion h limits d.helpLink
    simp only [Codec.diagnostic, Codec.iso, Codec.pair, hlink, Emission.append_assoc]
    rfl
  cases kind with
  | error d => exact hdiagnostic d
  | warning d => exact hdiagnostic d
  | _ => exact (Emission.append_empty _).symm

end EventKind

namespace Event

variable {limits : Limits}

def appendedArgs (older newer : Int32) (limits : Limits) (parts : MessageParts) : Emission :=
  if isNew typedArgsVersion older newer then emitTypedArgs ⟨newer, limits⟩ parts else ∅

def appended (older newer : Int32) (limits : Limits) (e : Event) : Emission :=
  e.kind.appended older newer limits ++ appendedArgs older newer limits e.sentParts

theorem emitTypedArgs_of_lt {version : Int32} (h : version < typedArgsVersion) (limits : Limits)
    (parts : MessageParts) : emitTypedArgs ⟨version, limits⟩ parts = ∅ :=
  if_pos h

theorem emitTypedArgs_newer (h : older ≤ newer) (parts : MessageParts) :
    emitTypedArgs ⟨newer, limits⟩ parts =
      emitTypedArgs ⟨older, limits⟩ parts ++ appendedArgs older newer limits parts := by
  by_cases hnew : isNew typedArgsVersion older newer
  · rw [appendedArgs, if_pos hnew, emitTypedArgs_of_lt hnew.1]
    rfl
  · rw [appendedArgs, if_neg hnew, Emission.append_empty]
    simp only [emitTypedArgs, lt_iff_of_not_isNew h hnew]
    rfl

theorem kind_appended_eq_empty (h : ¬older < helpLinkVersion) (kind : EventKind) :
    kind.appended older newer limits = ∅ := by
  have hnew : ¬isNew helpLinkVersion older newer := fun hnew => h hnew.1
  cases kind with
  | error d => exact if_neg hnew
  | warning d => exact if_neg hnew
  | _ => rfl

theorem typedArgs_append_appended (limits : Limits) (kind : EventKind) (parts : MessageParts) :
    emitTypedArgs ⟨older, limits⟩ parts ++ kind.appended older newer limits =
      kind.appended older newer limits ++ emitTypedArgs ⟨older, limits⟩ parts := by
  by_cases h : older < helpLinkVersion
  · have hle : helpLinkVersion ≤ typedArgsVersion := by decide
    have htyped : older < typedArgsVersion := Int32.lt_of_lt_of_le h hle
    rw [emitTypedArgs_of_lt htyped, Emission.append_empty]
    rfl
  · rw [kind_appended_eq_empty h, Emission.append_empty]
    rfl

def emitFront (terms : Terms) (e : Event) : Emission :=
  e.emitOpening terms e.type ++ (e.emitHeader terms ++
    if e.type.isLazy then emitArgTexts terms e.sentParts else ∅)

theorem emit_eq_front_append (terms : Terms) (e : Event) :
    e.emit terms = e.emitFront terms ++ (e.kind.emit terms ++ emitTypedArgs terms e.sentParts) := by
  cases hlazy : e.type.isLazy with
  | true => simp only [emit, emitAs, emitBody, emitFront, hlazy, if_true, Emission.append_assoc]
  | false =>
      have hparts : e.sentParts = ⟨e.message.text, none, none⟩ := by simp [sentParts, hlazy]
      rw [hparts, emitTypedArgs_none]
      simp only [emit, emitAs, emitBody, emitFront, hlazy, Bool.false_eq_true, if_false,
        Emission.append_empty, Emission.append_assoc]

theorem emit_newer (h : older ≤ newer) (limits : Limits) (e : Event) :
    e.emit ⟨newer, limits⟩ = e.emit ⟨older, limits⟩ ++ e.appended older newer limits := by
  have hfront : e.emitFront ⟨newer, limits⟩ = e.emitFront ⟨older, limits⟩ := rfl
  calc
    e.emit ⟨newer, limits⟩
    _ = e.emitFront ⟨older, limits⟩ ++ (e.kind.emit ⟨older, limits⟩ ++
          (e.kind.appended older newer limits ++ emitTypedArgs ⟨older, limits⟩ e.sentParts) ++
            appendedArgs older newer limits e.sentParts) := by
      rw [emit_eq_front_append, hfront, e.kind.emit_newer h, emitTypedArgs_newer h]
      simp only [Emission.append_assoc]
    _ = e.emit ⟨older, limits⟩ ++ e.appended older newer limits := by
      rw [← typedArgs_append_appended, emit_eq_front_append ⟨older, limits⟩, appended]
      simp only [Emission.append_assoc]

end Event

theorem Codec.optionalText_bytes_ne_nil (terms : Terms) (text? : Option String) :
    (optionalText.emit terms text?).bytes ≠ [] := by
  cases text? with
  | none => exact List.cons_ne_nil _ _
  | some s =>
      have hflag : (bool.emit terms true).bytes ≠ [] := List.cons_ne_nil _ _
      exact Emission.bytes_append_ne_nil hflag (text.emit terms s)

theorem Arg.emitTyped_bytes_ne_nil (terms : Terms) (arg : Arg) :
    (arg.emitTyped terms).bytes ≠ [] := by
  have hkind : (Codec.coded.emit terms arg.kind).bytes ≠ [] := List.cons_ne_nil _ _
  exact Emission.bytes_append_ne_nil hkind _

theorem EventKind.image_of_appended {limits : Limits} {kind : EventKind} (h : older ≤ newer)
    (hnil : (kind.appended older newer limits).bytes = []) :
    kind.image newer = kind.image older := by
  by_cases hnew : isNew helpLinkVersion older newer
  · have hlink (d : Diagnostic) : ((error d).appended older newer limits).bytes ≠ [] := by
      rw [appended, if_pos hnew]
      exact Codec.optionalText_bytes_ne_nil _ d.helpLink
    cases kind with
    | error d => exact absurd hnil (hlink d)
    | warning d => exact absurd hnil (hlink d)
    | _ => rfl
  · have hlink (d : Diagnostic) : d.image newer = d.image older := by
      simp only [Diagnostic.image, lt_iff_of_not_isNew h hnew]
    cases kind with
    | error d => exact congrArg error (hlink d)
    | warning d => exact congrArg warning (hlink d)
    | _ => rfl

namespace Event

variable {limits : Limits}

theorem args_of_appendedArgs {parts : MessageParts} (hnew : isNew typedArgsVersion older newer)
    (hnil : (appendedArgs older newer limits parts).bytes = []) : parts.args.getD [] = [] := by
  rw [appendedArgs, if_pos hnew, emitTypedArgs, if_neg (Int32.not_lt.2 hnew.2)] at hnil
  cases hargs : parts.args.getD [] with
  | nil => rfl
  | cons arg args =>
      rw [hargs] at hnil
      exact absurd hnil (Emission.bytes_append_ne_nil (arg.emitTyped_bytes_ne_nil _) _)

theorem imageMessage_of_appended {e : Event} (h : older ≤ newer)
    (hnil : (appendedArgs older newer limits e.sentParts).bytes = []) :
    e.imageMessage newer = e.imageMessage older := by
  by_cases hnew : isNew typedArgsVersion older newer
  · have hargs := args_of_appendedArgs hnew hnil
    simp only [imageMessage, if_pos hnew.1, if_neg (Int32.not_lt.2 hnew.2)]
    cases hlazy : e.type.isLazy with
    | false => rfl
    | true =>
        rw [sentParts, if_pos hlazy] at hargs
        generalize e.message = message at hargs ⊢
        obtain ⟨state, locale⟩ := message
        cases state with
        | formatted text => rfl
        | raw template args =>
            obtain rfl : args = [] := hargs
            rfl
  · simp only [imageMessage, lt_iff_of_not_isNew h hnew]

theorem image_of_appended {e : Event} (h : older ≤ newer)
    (hdone : (e.appended older newer limits).failure = none)
    (hnil : (e.appended older newer limits).bytes = []) : e.image newer = e.image older := by
  obtain ⟨hkind, hargs⟩ := Emission.bytes_append_eq_nil hdone hnil
  rw [image, image, EventKind.image_of_appended h hkind, imageMessage_of_appended h hargs]

theorem newer_frame_extends_older (older newer : Int32) (hversion : older ≤ newer)
    (writer reader : Limits) (hl : writer ≤ reader) (e : Event) (bytes : List UInt8)
    (h : e.encode ⟨newer, writer⟩ = .ok bytes) :
    ∃ front appended, bytes = front ++ appended ∧ e.encode ⟨older, writer⟩ = .ok front ∧
      (∀ rest fault, read ⟨older, reader⟩ e.type ⟨bytes ++ rest, fault⟩ =
        .ok (e.image older) ⟨appended ++ rest, fault⟩) ∧
      (front = bytes →
        read ⟨newer, reader⟩ e.type ⟨front, none⟩ = .ok (e.image older) ⟨[], none⟩) ∧
      (front ≠ bytes → ∃ ending : StreamError, ending.isEnd = true ∧
        read ⟨newer, reader⟩ e.type ⟨front, none⟩ = .error (.stream ending) ⟨[], none⟩) := by
  obtain ⟨hdone, rfl⟩ := bytes_of_encode h
  have hnewer := read_recovers hl e hdone [] none
  rw [List.append_nil] at hnewer
  rw [emit_newer hversion] at hdone hnewer ⊢
  obtain ⟨hold, happended⟩ := Emission.failure_append.1 hdone
  rw [Emission.bytes_append hold] at hnewer ⊢
  refine ⟨_, _, rfl, encode_of_done hold, ?_, ?_, ?_⟩
  · intro rest fault
    rw [List.append_assoc]
    exact read_recovers hl e hold _ fault
  · intro hsame
    have hnil : (e.appended older newer writer).bytes = [] := List.self_eq_append_right.1 hsame
    rw [hnil, List.append_nil] at hnewer
    rw [hnewer, image_of_appended hversion happended hnil]
  · intro hdiffer
    have hne : (e.appended older newer writer).bytes ≠ [] :=
      fun hnil => hdiffer (List.self_eq_append_right.2 hnil)
    obtain ⟨used, rest, hused, hrest, hsettles⟩ := (read_framed _ _).settles_of_ok hnewer
    cases hrest
    rw [List.append_nil] at hused
    exact hsettles.cut _ _ none hused hne

theorem warning_frame_is_extended :
    let e : Event :=
      { kind := .warning { helpLink := some "h" }, message := .lazyIn "{0}" [.integer 7] "de" }
    let received : Event := { kind := .warning {}, message := .lazyIn "{0}" [.text "7"] "de" }
    let front : List UInt8 :=
      [2, 1, 3, 0, 0, 0, 123, 48, 125, 0, 0, 0, 0, 0, 0, 0, 0, 0, 0, 0, 0, 0, 0, 0, 1, 1, 0, 0, 0,
        1, 1, 0, 0, 0, 55, 1, 2, 0, 0, 0, 100, 101, 0, 0, 0, 0, 0, 0, 0, 0, 0, 0, 0, 0, 0, 0, 0, 0,
        0, 0, 0, 0]
    let appended : List UInt8 :=
      [1, 1, 0, 0, 0, 104, 1, 0, 0, 0, 7, 0, 0, 0, 0, 0, 0, 0]
    e.encode ⟨3, {}⟩ = .ok (front ++ appended) ∧ e.encode ⟨1, {}⟩ = .ok front ∧
      read ⟨1, {}⟩ .warning ⟨front ++ appended ++ [9], none⟩ =
        .ok received ⟨appended ++ [9], none⟩ ∧
      ∃ ending : StreamError, ending.isEnd = true ∧
        read ⟨3, {}⟩ .warning ⟨front, none⟩ = .error (.stream ending) ⟨[], none⟩ := by
  intro e received front appended
  have hdone : (e.emit ⟨3, {}⟩).failure = none := by decide
  have hbytes : (e.emit ⟨3, {}⟩).bytes = front ++ appended := by decide
  have hencode : e.encode ⟨3, {}⟩ = .ok (front ++ appended) := by
    rw [encode_of_done hdone, hbytes]
  have hfront : e.encode ⟨1, {}⟩ = .ok front := by
    have hdone : (e.emit ⟨1, {}⟩).failure = none := by decide
    have hbytes : (e.emit ⟨1, {}⟩).bytes = front := by decide
    rw [encode_of_done hdone, hbytes]
  have himage : e.image 1 = received := by decide
  have hversion : (1 : Int32) ≤ 3 := by decide
  have hlimits : ({} : Limits) ≤ {} := ⟨Nat.le_refl _, Nat.le_refl _⟩
  obtain ⟨front', appended', hsplit, hold, hread, -, hshort⟩ :=
    newer_frame_extends_older 1 3 hversion {} {} hlimits e (front ++ appended) hencode
  cases hfront.symm.trans hold
  cases List.append_cancel_left hsplit
  have hlonger : front ≠ front ++ appended := by decide
  exact ⟨hencode, hfront, himage ▸ hread [9] none, hshort hlonger⟩

end Event

end BuildFeed
