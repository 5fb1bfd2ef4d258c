import BuildFeed.Proofs.Grammar.PropertyTable

namespace BuildFeed

namespace Codec

variable {terms : Terms}

theorem contextIds_speaks : contextIds.Speaks terms Grammar.contextIds := by
  refine (int32_speaks.pair (int32_speaks.pair (int32_speaks.pair (int32_speaks.pair
    (int32_speaks.pair int32_speaks))))).iso rfl ?_ ?_ ?_
  · intro c
    rfl
  · intro fields
    rfl
  · intro c
    simp only [Grammar.contextIds, mul_assoc]

theorem context_speaks : context.Speaks terms Grammar.context := by
  constructor
  · have hids : (contextIds.optional.parse terms).Accepts (Grammar.optional Grammar.contextIds) :=
      contextIds_speaks.optional.reads
    exact hids.map (·.getD .invalid)
  · intro c bytes _
    change (contextIds.optional.emit terms (if c.isInvalid then none else some c)).failure = none
    split <;> rfl

theorem span_speaks : span.Speaks terms Grammar.span := by
  refine (int32_speaks.pair (int32_speaks.pair (int32_speaks.pair int32_speaks))).iso rfl ?_ ?_ ?_
  · intro s
    rfl
  · intro fields
    rfl
  · intro s
    simp only [Grammar.span, mul_assoc]

theorem projectStart_speaks : projectStart.Speaks terms (Grammar.projectStart terms.limits) := by
  refine (int32_speaks.pair (contextIds_speaks.optional.pair (optionalText_speaks.pair
    (textList_speaks.pair (propertyTable_speaks terms).optional)))).iso rfl ?_ ?_ ?_
  · intro p
    rfl
  · intro fields
    rfl
  · intro p
    simp only [Grammar.projectStart, mul_assoc]

theorem projectFinish_speaks : projectFinish.Speaks terms (Grammar.projectFinish terms.limits) := by
  refine (bool_speaks.pair optionalText_speaks).iso rfl ?_ ?_ ?_
  · intro p
    rfl
  · intro fields
    rfl
  · intro p
    rfl

theorem targetStart_speaks : targetStart.Speaks terms (Grammar.targetStart terms.limits) := by
  refine (optionalText_speaks.pair (optionalText_speaks.pair (optionalText_speaks.pair
    (optionalText_speaks.pair coded_speaks)))).iso rfl ?_ ?_ ?_
  · intro t
    rfl
  · intro fields
    rfl
  · intro t
    simp only [Grammar.targetStart, mul_assoc]

theorem targetFinish_speaks : targetFinish.Speaks terms (Grammar.targetFinish terms.limits) := by
  refine (optionalText_speaks.pair (optionalText_speaks.pair (optionalText_speaks.pair
    bool_speaks))).iso rfl ?_ ?_ ?_
  · intro t
    rfl
  · intro fields
    rfl
  · intro t
    simp only [Grammar.targetFinish, mul_assoc]

theorem helpLink_speaks :
    (optionalText.since helpLinkVersion).Speaks terms (Grammar.helpLink terms) :=
  optionalText_speaks.since rfl helpLinkVersion

theorem diagnostic_speaks : diagnostic.Speaks terms (Grammar.diagnostic terms) := by
  refine (optionalText_speaks.pair (optionalText_speaks.pair (optionalText_speaks.pair
    (optionalText_speaks.pair (span_speaks.pair helpLink_speaks))))).iso rfl ?_ ?_ ?_
  · intro d
    rfl
  · intro fields
    rfl
  · intro d
    simp only [Grammar.diagnostic, mul_assoc]

theorem note_speaks : note.Speaks terms (Grammar.note terms.limits) := by
  refine (optionalText_speaks.pair (optionalText_speaks.pair (optionalText_speaks.pair
    (optionalText_speaks.pair (coded_speaks.pair span_speaks))))).iso rfl ?_ ?_ ?_
  · intro n
    rfl
  · intro fields
    rfl
  · intro n
    simp only [Grammar.note, mul_assoc]

end Codec

namespace EventKind

variable {terms : Terms}

theorem read_accepts (terms : Terms) (type : EventType) :
    (read terms type).Accepts (Grammar.block terms type) := by
  cases type with
  | custom =>
      refine (Read.accepts_pure custom).congr fun kind => ?_
      ext bytes
      cases kind <;> simp [Grammar.mem_given, EventKind.type, Grammar.block, Grammar.kindData]
  | buildStarted =>
      refine (Read.accepts_pure buildStarted).congr fun kind => ?_
      ext bytes
      cases kind <;> simp [Grammar.mem_given, EventKind.type, Grammar.block, Grammar.kindData]
  | buildFinished =>
      have h : (Codec.bool.parse terms).Accepts Grammar.flag := Codec.bool_speaks.reads
      exact h.wrapped (by intro kind; cases kind <;> simp [EventKind.type]) fun _ => rfl
  | projectStarted =>
      exact Codec.projectStart_speaks.reads.wrapped
        (by intro kind; cases kind <;> simp [EventKind.type]) fun _ => rfl
  | projectFinished =>
      exact Codec.projectFinish_speaks.reads.wrapped
        (by intro kind; cases kind <;> simp [EventKind.type]) fun _ => rfl
  | targetStarted =>
      exact Codec.targetStart_speaks.reads.wrapped
        (by intro kind; cases kind <;> simp [EventKind.type]) fun _ => rfl
  | targetFinished =>
      exact Codec.targetFinish_speaks.reads.wrapped
        (by intro kind; cases kind <;> simp [EventKind.type]) fun _ => rfl
  | error =>
      exact Codec.diagnostic_speaks.reads.wrapped
        (by intro kind; cases kind <;> simp [EventKind.type]) fun _ => rfl
  | warning =>
      exact Codec.diagnostic_speaks.reads.wrapped
        (by intro kind; cases kind <;> simp [EventKind.type]) fun _ => rfl
  | message =>
      exact Codec.note_speaks.reads.wrapped
        (by intro kind; cases kind <;> simp [EventKind.type]) fun _ => rfl

theorem emit_done {type : EventType} {kind : EventKind} {bytes : List UInt8}
    (h : bytes ∈ Grammar.block terms type kind) : (kind.emit terms).failure = none := by
  obtain ⟨-, h⟩ := h
  cases kind with
  | custom => rfl
  | buildStarted => rfl
  | buildFinished succeeded => rfl
  | projectStarted start => exact Codec.projectStart_speaks.writes h
  | projectFinished finish => exact Codec.projectFinish_speaks.writes h
  | targetStarted start => exact Codec.targetStart_speaks.writes h
  | targetFinished finish => exact Codec.targetFinish_speaks.writes h
  | error d => exact Codec.diagnostic_speaks.writes h
  | warning d => exact Codec.diagnostic_speaks.writes h
  | message note => exact Codec.note_speaks.writes h

end EventKind

end BuildFeed
