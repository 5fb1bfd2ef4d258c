import BuildFeed.Proofs.Framing.Packet
import BuildFeed.Proofs.Transfer.EventFrame

namespace BuildFeed

variable {version : Int32} {writer reader : Limits}

namespace Codec

theorem optionalEvent_carries : optionalEvent.Carries version (Option.map (Event.image version)) := by
  intro writer reader hl e?
  cases e? with
  | none =>
      rw [← Emission.append_empty (optionalEvent.emit _ none)]
      exact (bool_carries _ _ hl false).bind (Read.recovers_pure none)
  | some e =>
      refine (bool_carries _ _ hl true).bind ?_
      refine (int32_carries _ _ hl (Coded.code e.type)).bind ?_
      simp only [id_eq, Coded.ofCode?_code]
      exact (Event.read_recovers hl e).map some

theorem projectError_carries : projectError.Carries version id := by
  refine (optionalText_carries.pair (optionalText_carries.pair (span_carries.pair
    (optionalText_carries.pair (optionalText_carries.pair
      (optionalText_carries.pair bool_carries)))))).iso ?_ ?_
  · intro terms
    rfl
  · intro e
    rfl

theorem loggerError_carries : loggerError.Carries version (LoggerError.image version) := by
  refine (optionalText_carries.pair (optionalText_carries.pair (optionalEvent_carries.pair
    (optionalText_carries.pair (optionalText_carries.pair bool_carries))))).iso ?_ ?_
  · intro terms
    rfl
  · intro e
    rfl

end Codec

namespace Packet

theorem readTagged_event (terms : Terms) (e : Event) :
    readTagged terms (event e).tag = event <$> Event.read terms e.type := by
  have hcode : Coded.ofCode? (event e).tag = some e.type := Coded.ofCode?_code e.type
  have hproject : (event e).tag ≠ projectErrorTag := by
    change Coded.code e.type ≠ projectErrorTag
    cases e.type <;> decide
  have hlogger : (event e).tag ≠ loggerErrorTag := by
    change Coded.code e.type ≠ loggerErrorTag
    cases e.type <;> decide
  simp only [readTagged, if_neg hproject, if_neg hlogger, hcode]

theorem readTagged_recovers (hl : writer ≤ reader) (p : Packet) :
    (readTagged ⟨version, reader⟩ p.tag).Recovers (p.emitFrame ⟨version, writer⟩)
      (p.image version) := by
  cases p with
  | event e =>
      rw [readTagged_event]
      exact (Event.read_recovers hl e).map event
  | projectError e => exact (Codec.projectError_carries _ _ hl e).map projectError
  | loggerError e => exact (Codec.loggerError_carries _ _ hl e).map loggerError

theorem readOne_recovers (hl : writer ≤ reader) (p : Packet) :
    (readOne ⟨version, reader⟩).Recovers (p.emit ⟨version, writer⟩) (p.image version) :=
  (Codec.int32_carries _ _ hl p.tag).bind (readTagged_recovers hl p)

theorem emit_bytes_ne_nil (terms : Terms) (p : Packet) : (p.emit terms).bytes ≠ [] := by
  have htag : (Codec.int32.emit terms p.tag).failure = none := rfl
  rw [emit, Emission.bytes_append htag]
  exact List.append_ne_nil_of_left_ne_nil (List.cons_ne_nil _ _) _

theorem receive_recovers (hl : writer ≤ reader) (p : Packet) :
    (receive ⟨version, reader⟩).Recovers (p.emit ⟨version, writer⟩) (some (p.image version)) := by
  intro hdone rest fault
  rw [receive_of_ne_nil _ (List.append_ne_nil_of_left_ne_nil (emit_bytes_ne_nil _ p) rest)]
  exact (readOne_recovers hl p).map some hdone rest fault

theorem receiveAll_concat_append (hl : writer ≤ reader) {packets : List Packet}
    (h : (Emission.concat (packets.map (emit ⟨version, writer⟩))).failure = none)
    (rest : List UInt8) :
    receiveAll ⟨version, reader⟩
        ⟨(Emission.concat (packets.map (emit ⟨version, writer⟩))).bytes ++ rest, none⟩ =
      (packets.map (image version) ++ (receiveAll ⟨version, reader⟩ ⟨rest, none⟩).1,
        (receiveAll ⟨version, reader⟩ ⟨rest, none⟩).2) := by
  induction packets with
  | nil => rfl
  | cons p packets ih =>
      obtain ⟨hfirst, hrest⟩ := Emission.failure_append.1 h
      rw [List.map_cons, Emission.concat, Emission.bytes_append hfirst, List.append_assoc,
        receiveAll_of_some (receive_recovers hl p hfirst _ none), ih hrest]
      rfl

theorem receiveAll_concat (hl : writer ≤ reader) {packets : List Packet}
    (h : (Emission.concat (packets.map (emit ⟨version, writer⟩))).failure = none) :
    receiveAll ⟨version, reader⟩
        ⟨(Emission.concat (packets.map (emit ⟨version, writer⟩))).bytes, none⟩ =
      (packets.map (image version), none) := by
  have hall := receiveAll_concat_append hl h []
  rwa [receiveAll_nil, List.append_nil, List.append_nil] at hall

theorem times_receive_nil (terms : Terms) (n : Nat) :
    Read.times n (receive terms) ⟨[], none⟩ = .ok (List.replicate n none) ⟨[], none⟩ := by
  induction n with
  | zero => rfl
  | succ n ih =>
      have hend : receive terms ⟨[], none⟩ = .ok none ⟨[], none⟩ := rfl
      rw [Read.times, Read.bind_of_ok hend, Read.bind_of_ok ih]
      rfl

end Packet

namespace Sink

theorem length_le_of_accept {room : Nat} {fault : StreamFault} {bytes : List UInt8}
    (h : ((limited room fault).accept bytes).fault = none) : bytes.length ≤ room := by
  by_cases hroom : bytes.length ≤ room
  · exact hroom
  · simp only [accept, if_neg hroom] at h
    cases h

theorem accept_done {sink : Sink} {bytes : List UInt8} (h : (sink.accept bytes).fault = none) :
    (sink.accept bytes).bytes = bytes := by
  cases sink with
  | endless => rfl
  | limited room fault => simp only [accept, if_pos (length_le_of_accept h)]

theorem fault_of_done {sink : Sink} {e : Emission} (h : (sink.deliver e).failure = none) :
    (sink.accept e.bytes).fault = none := by
  cases hfault : (sink.accept e.bytes).fault with
  | none => rfl
  | some fault =>
      simp only [deliver, hfault] at h
      cases h

theorem deliver_done {sink : Sink} {e : Emission} (h : (sink.deliver e).failure = none) :
    e.failure = none ∧ (sink.deliver e).accepted = e.bytes := by
  have hfault := fault_of_done h
  simp only [deliver, hfault] at h ⊢
  exact ⟨h, accept_done hfault⟩

theorem deliverAll_done {sink : Sink} {es : List Emission}
    (h : ∀ d ∈ sink.deliverAll es, d.failure = none) :
    (Emission.concat es).failure = none ∧
      (sink.deliverAll es).flatMap Delivery.accepted = (Emission.concat es).bytes := by
  induction es generalizing sink with
  | nil => exact ⟨rfl, rfl⟩
  | cons e es ih =>
      obtain ⟨hfirst, haccepted⟩ := deliver_done (h _ (List.mem_cons_self ..))
      obtain ⟨hrest, hbytes⟩ := ih fun d hd => h d (List.mem_cons_of_mem _ hd)
      refine ⟨Emission.failure_append.2 ⟨hfirst, hrest⟩, ?_⟩
      rw [deliverAll, List.flatMap_cons, haccepted, hbytes]
      exact (Emission.bytes_append hfirst _).symm

end Sink

theorem Read.times_add {α : Type} (m n : Nat) (r : Read α) :
    times (m + n) r = (do
      let as ← times m r
      let bs ← times n r
      pure (as ++ bs)) := by
  induction m with
  | zero => simp [times]
  | succ m ih => simp [Nat.add_right_comm, times, ih]

theorem Packet.times_receive_recovers (hl : writer ≤ reader) (packets : List Packet) :
    (Read.times packets.length (receive ⟨version, reader⟩)).Recovers
      (.concat (packets.map (emit ⟨version, writer⟩)))
      (packets.map fun p => some (p.image version)) :=
  Read.recovers_times fun p _ => receive_recovers hl p

theorem sent_packets_are_received (version : Int32) (writer reader : Limits) (hl : writer ≤ reader)
    (sink : Sink) (packets : List Packet)
    (hsent : ∀ d ∈ sink.deliverAll (packets.map (Packet.emit ⟨version, writer⟩)),
      d.failure = none) :
    (∀ more, Read.times (packets.length + more) (Packet.receive ⟨version, reader⟩)
        ⟨(sink.deliverAll (packets.map (Packet.emit ⟨version, writer⟩))).flatMap
          Delivery.accepted, none⟩ =
      .ok (packets.map (fun p => some (p.image version)) ++ List.replicate more none)
        ⟨[], none⟩) ∧
    ∀ e, .loggerError e ∈ packets →
      (e.image version).event.map Event.type = e.event.map Event.type := by
  obtain ⟨hdone, hbytes⟩ := Sink.deliverAll_done hsent
  have hall := Packet.times_receive_recovers hl packets hdone [] none
  rw [List.append_nil] at hall
  constructor
  · intro more
    have hend := Packet.times_receive_nil ⟨version, reader⟩ more
    rw [hbytes, Read.times_add, Read.bind_of_ok hall, Read.bind_of_ok hend]
    rfl
  · intro e _
    exact LoggerError.type_image version e

theorem failures_and_events_are_received :
    let warning : Event :=
      { kind := .warning { helpLink := some "h" }, message := .lazyIn "{0}" [.integer 7] "de" }
    let logger : LoggerError := { event := some warning, initialization := true }
    let project : ProjectError := { message := some "m", logged := true }
    let start : ProjectStart :=
      { properties := some { entries := [("A", "1"), ("B", ""), ("", "2"), ("C", "3")] } }
    let started : Event := { kind := .projectStarted start, message := .plain none }
    let custom : Event := { kind := .custom, message := .lazyIn "t" [] "de" }
    let packets : List Packet :=
      [.loggerError logger, .projectError project, .event started, .event custom]
    let deliveries := Sink.endless.deliverAll (packets.map (Packet.emit ⟨1, {}⟩))
    let received : Event :=
      { kind := .warning {}, message := .lazyIn "{0}" [.text "7"] "de" }
    let kept : ProjectStart := { properties := some { entries := [("A", "1"), ("C", "3")] } }
    (∀ d ∈ deliveries, d.failure = none) ∧
      Read.times 5 (Packet.receive ⟨1, {}⟩) ⟨deliveries.flatMap Delivery.accepted, none⟩ =
        .ok [some (.loggerError { logger with event := some received }),
          some (.projectError project),
          some (.event { started with kind := .projectStarted kept }),
          some (.event { custom with message := .plain (some "t") }), none] ⟨[], none⟩ := by
  intro warning logger project start started custom packets deliveries received kept
  have hsent : ∀ d ∈ deliveries, d.failure = none := by decide +kernel
  have hlogger : logger.image 1 = { logger with event := some received } := by decide
  have hstarted : started.image 1 = { started with kind := .projectStarted kept } := by decide
  have hcustom : custom.image 1 = { custom with message := .plain (some "t") } := by
    decide +kernel
  have hlimits : ({} : Limits) ≤ {} := ⟨Nat.le_refl _, Nat.le_refl _⟩
  have h := (sent_packets_are_received 1 {} {} hlimits .endless packets hsent).1 1
  simp only [packets, List.map_cons, List.map_nil, Packet.image, hlogger, hstarted, hcustom] at h
  exact ⟨hsent, h⟩

end BuildFeed
