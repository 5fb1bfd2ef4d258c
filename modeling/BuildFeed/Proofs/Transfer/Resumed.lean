import BuildFeed.Proofs.Framing.Cut
import BuildFeed.Proofs.Transfer.Stopped

namespace BuildFeed

theorem next_packet_completes_a_refused_one :
    let refused : Packet :=
      .event { kind := .custom, message := .plain none, time := ⟨10000000000, 0⟩ }
    let next : Packet := .event { kind := .custom, message := .plain none }
    let received : Packet :=
      .event { kind := .custom, message := .plain none, time := ⟨4, 294967296⟩ }
    let deliveries := Sink.endless.deliverAll ([refused, next].map (Packet.emit ⟨3, {}⟩))
    deliveries.map Delivery.failure = [some .timestampOutOfRange, none] ∧
      (Packet.receiveAll ⟨3, {}⟩ ⟨deliveries.flatMap Delivery.accepted, none⟩).1 = [received] ∧
      ∀ p ∈ [refused, next], p.image 3 ≠ received := by
  decide +kernel

variable {version : Int32} {writer reader : Limits} {sink : Sink} {packets : List Packet}

namespace Packet

theorem receiveAll_resumed (hl : writer ≤ reader) {i : Nat} {e : Emission} {last : Delivery}
    {error : ProtocolError} (h : sink.Stops (packets.map (emit ⟨version, writer⟩)) i e last error) :
    let deliveries := sink.deliverAll (packets.map (emit ⟨version, writer⟩))
    let later := (deliveries.drop (i + 1)).flatMap Delivery.accepted
    let rest := receiveAll ⟨version, reader⟩ ⟨last.accepted ++ later, none⟩
    receiveAll ⟨version, reader⟩ ⟨deliveries.flatMap Delivery.accepted, none⟩ =
      ((packets.take i).map (image version) ++ rest.1, rest.2) := by
  intro deliveries later rest
  have hdone := h.done
  have hbytes : deliveries.flatMap Delivery.accepted =
      (Emission.concat ((packets.map (emit ⟨version, writer⟩)).take i)).bytes ++
        (last.accepted ++ later) := by
    rw [← List.append_assoc, ← h.held, ← List.flatMap_append, List.take_append_drop]
  rw [← List.map_take] at hdone hbytes
  rw [hbytes]
  exact receiveAll_concat_append hl hdone _

theorem placed_resumed (hl : writer ≤ reader) {i : Nat} {e : Emission} {last : Delivery}
    {error : ProtocolError} (h : sink.Stops (packets.map (emit ⟨version, writer⟩)) i e last error) :
    let deliveries := sink.deliverAll (packets.map (emit ⟨version, writer⟩))
    let reach := ((deliveries.take (i + 1)).flatMap Delivery.accepted).length
    ((placed ⟨version, reader⟩ (deliveries.flatMap Delivery.accepted)).filter (·.1 ≤ reach)).map
      Prod.snd = (packets.take i).map (image version) := by
  intro deliveries reach
  -- cut behind the failed send, the stream holds what a sender that stops there has sent
  obtain ⟨ending, -, hheld⟩ := receiveAll_of_stops hl h
  have hbytes : deliveries.flatMap Delivery.accepted =
      (deliveries.take (i + 1)).flatMap Delivery.accepted ++
        (deliveries.drop (i + 1)).flatMap Delivery.accepted := by
    rw [← List.flatMap_append, List.take_append_drop]
  have hreach : (deliveries.flatMap Delivery.accepted).take reach =
      (deliveries.take (i + 1)).flatMap Delivery.accepted := by
    rw [hbytes, List.take_left]
  have hle : reach ≤ (deliveries.flatMap Delivery.accepted).length := by
    rw [hbytes, List.length_append]
    exact Nat.le_add_right ..
  have hcut : CutsTo ⟨version, reader⟩ 0 (deliveries.flatMap Delivery.accepted) reach :=
    cutsTo_of_le _ 0 reach hle
  have hpackets := hcut.packets
  rw [hreach, hheld, Nat.zero_add] at hpackets
  exact hpackets.symm

end Packet

theorem packets_before_a_failure_are_received (version : Int32) (writer reader : Limits)
    (hl : writer ≤ reader) (sink : Sink) (packets : List Packet) :
    let deliveries := sink.deliverAll (packets.map (Packet.emit ⟨version, writer⟩))
    let bytes := deliveries.flatMap Delivery.accepted
    let received := Packet.receiveAll ⟨version, reader⟩ ⟨bytes, none⟩
    ((∀ delivery ∈ deliveries, delivery.failure = none) →
      received = (packets.map (Packet.image version), none)) ∧
    ∀ i last error, (∀ delivery ∈ deliveries.take i, delivery.failure = none) →
      deliveries[i]? = some last → last.failure = some error →
      let later := (deliveries.drop (i + 1)).flatMap Delivery.accepted
      let rest := Packet.receiveAll ⟨version, reader⟩ ⟨last.accepted ++ later, none⟩
      let reach := ((deliveries.take (i + 1)).flatMap Delivery.accepted).length
      received = ((packets.take i).map (Packet.image version) ++ rest.1, rest.2) ∧
        ((Packet.placed ⟨version, reader⟩ bytes).filter (·.1 ≤ reach)).map Prod.snd =
          (packets.take i).map (Packet.image version) := by
  intro deliveries bytes received
  constructor
  · intro hsent
    obtain ⟨hdone, hbytes⟩ := Sink.deliverAll_done hsent
    have hall := Packet.receiveAll_concat hl hdone
    rwa [← hbytes] at hall
  · intro i last error hbefore hlast herror later rest reach
    obtain ⟨e, hstops⟩ := Sink.stops_of_failed hbefore hlast herror
    exact ⟨Packet.receiveAll_resumed hl hstops, Packet.placed_resumed hl hstops⟩

theorem packet_before_a_refused_one_is_received :
    let sound : Packet := .event { kind := .custom, message := .plain none }
    let refused : Packet :=
      .event { kind := .custom, message := .plain none, time := ⟨10000000000, 0⟩ }
    let deliveries := Sink.endless.deliverAll ([sound, refused, sound].map (Packet.emit ⟨3, {}⟩))
    let bytes := deliveries.flatMap Delivery.accepted
    deliveries.map Delivery.failure = [none, some .timestampOutOfRange, none] ∧
      (∃ rest, (Packet.receiveAll ⟨3, {}⟩ ⟨bytes, none⟩).1 = sound :: rest) ∧
      ((Packet.placed ⟨3, {}⟩ bytes).filter (·.1 ≤ 29)).map Prod.snd = [sound] := by
  intro sound refused deliveries bytes
  have hlimits : ({} : Limits) ≤ {} := ⟨Nat.le_refl _, Nat.le_refl _⟩
  have himage : ([sound, refused, sound].take 1).map (Packet.image 3) = [sound] := by decide
  have hfailures : deliveries.map Delivery.failure = [none, some .timestampOutOfRange, none] := by
    decide
  obtain ⟨hreceived, hplaced⟩ := (packets_before_a_failure_are_received 3 {} {} hlimits .endless
    [sound, refused, sound]).2 1 _ .timestampOutOfRange (by decide) rfl (by decide)
  rw [himage] at hreceived hplaced
  exact ⟨hfailures, ⟨_, congrArg Prod.fst hreceived⟩, hplaced⟩

end BuildFeed
