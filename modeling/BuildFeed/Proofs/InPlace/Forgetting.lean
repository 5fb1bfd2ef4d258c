import BuildFeed.Wire.InPlace.Frame

namespace BuildFeed

def Event.IsUnasked (e : Event) : Prop :=
  e.localTime = none

namespace InPlace

variable {π σ τ α β : Type} {P : σ → Prop}

def left (r : InPlace π σ α) (s : π × σ) : σ :=
  match r s with
  | .ok _ t => t.2
  | .error _ t => t.2

theorem left_of_ok {r : InPlace π σ α} {s t : π × σ} {a : α} (h : r s = .ok a t) :
    r.left s = t.2 := by
  rw [left, h]

theorem left_of_error {r : InPlace π σ α} {s t : π × σ} {error : ProtocolError}
    (h : r s = .error error t) : r.left s = t.2 := by
  rw [left, h]

theorem left_bind_of_ok {r : InPlace π σ α} {f : α → InPlace π σ β} {s t : π × σ} {a : α}
    (h : r s = .ok a t) : (r >>= f).left s = (f a).left t := by
  rw [left, left, bind_of_ok h]

theorem left_apart (t : τ) (r : InPlace π τ Unit) (s : π × σ) :
    (apart t r : InPlace π σ τ).left s = s.2 := by
  have hrun : apart t r s = within (fun _ => s.2) t r s := rfl
  rw [left, hrun, within]
  cases r (s.1, t) <;> rfl

theorem left_part (get : σ → τ) (set : σ → τ → σ) (r : InPlace π τ Unit) (s : π × σ) :
    (part get set r).left s = set s.2 (r.left (s.1, get s.2)) := by
  have hrun : part get set r s = discard (within (set s.2) (get s.2) r) s := rfl
  cases h : r (s.1, get s.2) with
  | ok a t =>
      have hwithin : within (set s.2) (get s.2) r s = .ok t.2 (t.1, set s.2 t.2) := by
        rw [within, h]
      rw [left_of_ok h, left, hrun]
      exact left_bind_of_ok hwithin
  | error error t =>
      have hwithin : within (set s.2) (get s.2) r s = .error error (t.1, set s.2 t.2) := by
        rw [within, h]
      rw [left_of_error h, left, hrun]
      exact left_of_error (bind_of_error hwithin)

def Keeps (P : σ → Prop) (r : InPlace π σ α) : Prop :=
  ∀ s, P s.2 → P (r.left s)

theorem keeps_pure (a : α) : Keeps P (pure a : InPlace π σ α) :=
  fun _ h => h

theorem keeps_throw (error : ProtocolError) : Keeps P (throw error : InPlace π σ α) :=
  fun _ h => h

theorem keeps_assign {a : σ} (h : P a) : Keeps P (assign a : InPlace π σ Unit) :=
  fun _ _ => h

theorem Keeps.bind {r : InPlace π σ α} {f : α → InPlace π σ β} (hr : Keeps P r)
    (hf : ∀ a, Keeps P (f a)) : Keeps P (r >>= f) := by
  intro s hs
  have hfirst := hr s hs
  cases h : r s with
  | ok a t =>
      rw [left_of_ok h] at hfirst
      rw [left_bind_of_ok h]
      exact hf a t hfirst
  | error error t =>
      rw [left_of_error h] at hfirst
      rwa [left_of_error (bind_of_error h)]

theorem Keeps.of_value {f : σ → InPlace π σ α} (h : ∀ a, P a → Keeps P (f a)) :
    Keeps P (value >>= f) :=
  fun s hs => h s.2 hs s hs

theorem keeps_apart (t : τ) (r : InPlace π τ Unit) : Keeps P (apart t r : InPlace π σ τ) :=
  fun s hs => by rwa [left_apart]

theorem keeps_part {get : σ → τ} {set : σ → τ → σ} (hset : ∀ s t, P s → P (set s t))
    (r : InPlace π τ Unit) : Keeps P (part get set r) :=
  fun s hs => by
    rw [left_part]
    exact hset s.2 _ hs

theorem keeps_field {get : Event → τ} {set : Event → τ → Event}
    (hset : ∀ e t, (set e t).localTime = e.localTime) (r : InPlace π τ Unit) :
    Keeps Event.IsUnasked (part get set r) :=
  keeps_part (fun e t h => (hset e t).trans h) r

def Overlooks (r : InPlace π σ α) : Prop :=
  ∀ port, (∃ a port', ∀ s, r (port, s) = .ok a (port', s)) ∨
    ∃ error port', ∀ s, r (port, s) = .error error (port', s)

theorem overlooks_pure (a : α) : Overlooks (pure a : InPlace π σ α) :=
  fun port => .inl ⟨a, port, fun _ => rfl⟩

theorem overlooks_throw (error : ProtocolError) : Overlooks (throw error : InPlace π σ α) :=
  fun port => .inr ⟨error, port, fun _ => rfl⟩

theorem overlooks_apart (t : τ) (r : InPlace π τ Unit) : Overlooks (apart t r : InPlace π σ τ) := by
  intro port
  have hrun (s : σ) : apart t r (port, s) = within (fun _ => s) t r (port, s) := rfl
  cases h : r (port, t) with
  | ok a t => exact .inl ⟨t.2, t.1, fun s => by rw [hrun, within, h]⟩
  | error error t => exact .inr ⟨error, t.1, fun s => by rw [hrun, within, h]⟩

theorem Overlooks.bind {r : InPlace π σ α} {f : α → InPlace π σ β} (hr : Overlooks r)
    (hf : ∀ a, Overlooks (f a)) : Overlooks (r >>= f) := by
  intro port
  rcases hr port with ⟨a, port', hrun⟩ | ⟨error, port', hrun⟩
  · rcases hf a port' with ⟨b, port'', hrest⟩ | ⟨error, port'', hrest⟩
    · exact .inl ⟨b, port'', fun s => (bind_of_ok (hrun s)).trans (hrest s)⟩
    · exact .inr ⟨error, port'', fun s => (bind_of_ok (hrun s)).trans (hrest s)⟩
  · exact .inr ⟨error, port', fun s => bind_of_error (hrun s)⟩

variable [Port π] (terms : Terms)

theorem Keeps.whenReading {r : InPlace π σ Unit} (h : Keeps P r) : Keeps P (whenReading r) := by
  unfold InPlace.whenReading
  split
  case isTrue => exact h
  case isFalse => exact keeps_pure ()

theorem overlooks_shape (expected : EventType) :
    Overlooks (shape terms expected : InPlace π Event Unit) := by
  refine (overlooks_apart expected.shape _).bind fun found => ?_
  split
  case isTrue => exact overlooks_pure ()
  case isFalse => exact overlooks_throw _

variable {expected : EventType}

theorem prepare_reader (hreader : Port.isReader π = true) (port : π) (e : Event) :
    prepare expected (port, e) = .ok () (port, .blank expected) := by
  rw [prepare, if_pos hreader]
  rfl

theorem prepare_writer (hwriter : Port.isReader π ≠ true) (port : π) (e : Event) :
    prepare expected (port, e) = (if e.type = expected then pure ()
      else throw (.typeMismatch expected e.type) : InPlace π Event Unit) (port, e) := by
  rw [prepare, if_neg hwriter]
  rfl

theorem prepare_match (hwriter : Port.isReader π ≠ true) {e : Event} (htype : e.type = expected)
    (port : π) : prepare expected (port, e) = .ok () (port, e) := by
  rw [prepare_writer hwriter, if_pos htype]
  rfl

theorem prepare_mismatch (hwriter : Port.isReader π ≠ true) {e : Event} (htype : e.type ≠ expected)
    (port : π) : prepare expected (port, e) =
      .error (.typeMismatch expected e.type) (port, e) := by
  rw [prepare_writer hwriter, if_neg htype]
  rfl

theorem left_event_cases (expected : EventType) (port : π) (e : Event) :
    (event terms expected).left (port, e) = (event terms expected).left (port, e.copy) ∨
      (event terms expected).left (port, e) = e ∧
        (event terms expected).left (port, e.copy) = e.copy := by
  unfold event
  by_cases hreader : Port.isReader π = true
  · left
    rw [left_bind_of_ok (prepare_reader hreader port e),
      left_bind_of_ok (prepare_reader hreader port e.copy)]
  by_cases htype : e.type = expected
  · have hcopy : e.copy.type = expected := htype
    rw [left_bind_of_ok (prepare_match hreader htype port),
      left_bind_of_ok (prepare_match hreader hcopy port)]
    rcases overlooks_shape terms expected port with ⟨a, port', hshape⟩ | ⟨error, port', hshape⟩
    · left
      -- past the shape it is copies that are gone on with
      rw [left_bind_of_ok (hshape e), left_bind_of_ok (hshape e.copy)]
      rfl
    · right
      exact ⟨left_of_error (bind_of_error (hshape e)),
        left_of_error (bind_of_error (hshape e.copy))⟩
  · have hcopy : e.copy.type ≠ expected := htype
    exact .inr ⟨left_of_error (bind_of_error (prepare_mismatch hreader htype port)),
      left_of_error (bind_of_error (prepare_mismatch hreader hcopy port))⟩

theorem keeps_prepare (expected : EventType) :
    Keeps Event.IsUnasked (prepare expected : InPlace π Event Unit) := by
  unfold prepare
  split
  case isTrue => exact keeps_assign rfl
  case isFalse =>
    refine .of_value fun e _ => ?_
    split
    case isTrue => exact keeps_pure ()
    case isFalse => exact keeps_throw _

theorem keeps_shape (expected : EventType) {P : Event → Prop} :
    Keeps P (shape terms expected : InPlace π Event Unit) := by
  refine (keeps_apart expected.shape _).bind fun found => ?_
  split
  case isTrue => exact keeps_pure ()
  case isFalse => exact keeps_throw _

theorem keeps_sentParts (expected : EventType) :
    Keeps Event.IsUnasked (sentParts expected : InPlace π Event MessageParts) := by
  unfold sentParts
  split
  case isTrue => exact keeps_pure _
  case isFalse =>
    refine .of_value fun e he => ?_
    split
    case isTrue => exact keeps_pure _
    case isFalse => exact .bind (keeps_assign he) fun _ => keeps_pure _

theorem keeps_header (parts : MessageParts) :
    Keeps Event.IsUnasked (header terms parts : InPlace π Event MessageParts) :=
  .bind (keeps_apart parts _) fun _ => .bind (keeps_field (fun _ _ => by rfl) _) fun _ =>
    .bind (keeps_field (fun _ _ => by rfl) _) fun _ =>
      .bind (keeps_field (fun _ _ => by rfl) _) fun _ =>
        .bind (keeps_field (fun _ _ => by rfl) _) fun _ =>
          .bind (keeps_field (fun _ _ => by rfl) _) fun _ => keeps_pure _

theorem keeps_lazyParts (expected : EventType) (parts : MessageParts) {P : Event → Prop} :
    Keeps P (lazyParts terms expected parts : InPlace π Event MessageParts) := by
  unfold lazyParts
  split
  case isTrue => exact keeps_apart parts _
  case isFalse => exact keeps_pure parts

theorem keeps_typedParts (expected : EventType) (parts : MessageParts) {P : Event → Prop} :
    Keeps P (typedParts terms expected parts : InPlace π Event MessageParts) := by
  unfold typedParts
  split
  case isTrue => exact keeps_apart parts _
  case isFalse => exact keeps_pure parts

theorem keeps_event (expected : EventType) :
    Keeps Event.IsUnasked (event terms expected : InPlace π Event Unit) :=
  .bind (keeps_prepare expected) fun _ => .bind (keeps_shape terms expected) fun _ =>
    .of_value fun e _ => .bind (keeps_assign (a := e.copy) rfl) fun _ =>
      .bind (keeps_sentParts expected) fun _ => .bind (keeps_header terms _) fun _ =>
        .bind (keeps_lazyParts terms expected _) fun _ =>
          .bind (keeps_field (fun _ _ => by rfl) _) fun _ =>
            .bind (keeps_typedParts terms expected _) fun _ =>
              .whenReading (keeps_field (fun _ _ => by rfl) _)

theorem left_event (expected : EventType) (port : π) (e : Event) :
    (event terms expected).left (port, e) = e ∨
      ((event terms expected).left (port, e)).IsUnasked := by
  rcases left_event_cases terms expected port e with hmeet | ⟨hsame, -⟩
  · rw [hmeet]
    exact .inr (keeps_event terms expected (port, e.copy) rfl)
  · exact .inl hsame

theorem copy_left_event (expected : EventType) (port : π) (e : Event) :
    ((event terms expected).left (port, e)).copy =
      ((event terms expected).left (port, e.copy)).copy := by
  rcases left_event_cases terms expected port e with hmeet | ⟨hsame, hcopy⟩
  · rw [hmeet]
  · rw [hsame, hcopy]
    rfl

end InPlace

end BuildFeed
