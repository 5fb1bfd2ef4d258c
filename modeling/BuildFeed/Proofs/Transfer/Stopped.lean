import BuildFeed.Proofs.Transfer.Refusal

namespace BuildFeed

variable {version : Int32} {writer reader : Limits}

namespace Sink

variable {sink : Sink}

theorem accept_nil (sink : Sink) : sink.accept [] = ⟨[], none, sink⟩ := by
  cases sink with
  | endless => rfl
  | limited room fault => rfl

theorem accept_fault {bytes : List UInt8} {fault : StreamFault}
    (h : (sink.accept bytes).fault = some fault) :
    ∃ room, sink = .limited room fault ∧ room < bytes.length ∧
      (sink.accept bytes).bytes = bytes.take room := by
  cases sink with
  | endless => cases h
  | limited room stated =>
      by_cases hroom : bytes.length ≤ room
      · simp only [accept, if_pos hroom] at h
        cases h
      · simp only [accept, if_neg hroom] at h ⊢
        cases h
        exact ⟨room, rfl, Nat.not_le.1 hroom, rfl⟩

theorem accept_append {front : List UInt8} (h : (sink.accept front).fault = none)
    (back : List UInt8) :
    sink.accept (front ++ back) =
      let rest := (sink.accept front).sink.accept back
      ⟨front ++ rest.bytes, rest.fault, rest.sink⟩ := by
  cases sink with
  | endless => rfl
  | limited room fault =>
      have hfront : front.length ≤ room := length_le_of_accept h
      by_cases hback : front.length + back.length ≤ room
      · have hrest : back.length ≤ room - front.length := by omega
        simp only [accept, List.length_append, if_pos hfront, if_pos hback, if_pos hrest,
          Nat.sub_add_eq]
      · have hrest : ¬back.length ≤ room - front.length := by omega
        simp only [accept, List.length_append, if_pos hfront, if_neg hback, if_neg hrest,
          List.take_append, List.take_of_length_le hfront]

theorem deliverAll_take (sink : Sink) (es : List Emission) (n : Nat) :
    (sink.deliverAll es).take n = sink.deliverAll (es.take n) := by
  induction es generalizing sink n with
  | nil => simp [deliverAll]
  | cons e es ih =>
      cases n with
      | zero => rfl
      | succ n => exact congrArg (sink.deliver e :: ·) (ih _ n)

theorem deliverAll_stop {es : List Emission} {i : Nat} {last : Delivery}
    (hbefore : ∀ d ∈ sink.deliverAll (es.take i), d.failure = none)
    (hlast : (sink.deliverAll es)[i]? = some last) :
    ∃ e, es[i]? = some e ∧ (sink.accept (Emission.concat (es.take i)).bytes).fault = none ∧
      last = (sink.accept (Emission.concat (es.take i)).bytes).sink.deliver e := by
  -- up to the first failed delivery the sink takes all that is written
  induction es generalizing sink i with
  | nil => cases hlast
  | cons e es ih =>
      cases i with
      | zero =>
          have hnil : sink.accept (Emission.concat []).bytes = ⟨[], none, sink⟩ := accept_nil sink
          cases hlast
          rw [List.take_zero, hnil]
          exact ⟨e, rfl, rfl, rfl⟩
      | succ i =>
          rw [List.take_succ_cons, deliverAll, List.forall_mem_cons] at hbefore
          obtain ⟨hfirst, hrest⟩ := hbefore
          obtain ⟨hdone, -⟩ := deliver_done hfirst
          have hfault := fault_of_done hfirst
          obtain ⟨e', he', hfault', hlast'⟩ := ih hrest hlast
          rw [List.take_succ_cons, Emission.concat, Emission.bytes_append hdone,
            accept_append hfault]
          exact ⟨e', he', hfault', hlast'⟩

theorem held_at_stop {es : List Emission} {i : Nat} {last : Delivery}
    (hbefore : ∀ d ∈ (sink.deliverAll es).take i, d.failure = none)
    (hlast : (sink.deliverAll es)[i]? = some last) :
    (Emission.concat (es.take i)).failure = none ∧
      ((sink.deliverAll es).take (i + 1)).flatMap Delivery.accepted =
        (Emission.concat (es.take i)).bytes ++ last.accepted := by
  rw [List.take_add_one, hlast, List.flatMap_append, Option.toList_some, List.flatMap_singleton]
  rw [deliverAll_take] at hbefore ⊢
  obtain ⟨hdone, hbytes⟩ := deliverAll_done hbefore
  exact ⟨hdone, congrArg (· ++ last.accepted) hbytes⟩

theorem sink_of_accept {bytes : List UInt8} {room : Nat} {fault : StreamFault}
    (h : (sink.accept bytes).fault = none) (hsink : (sink.accept bytes).sink = .limited room fault) :
    sink = .limited (bytes.length + room) fault := by
  cases sink with
  | endless => cases hsink
  | limited stated fault =>
      have hroom := length_le_of_accept h
      simp only [accept, if_pos hroom] at hsink
      cases hsink
      rw [Nat.add_sub_cancel' hroom]

theorem deliver_failed {e : Emission} {error : ProtocolError}
    (h : (sink.deliver e).failure = some error) :
    (∃ room fault, sink = .limited room fault ∧ room < e.bytes.length ∧
      (sink.deliver e).accepted = e.bytes.take room ∧ error = .stream (.broken fault)) ∨
    ((sink.accept e.bytes).fault = none ∧ (sink.deliver e).accepted = e.bytes ∧
      e.failure = some error) := by
  cases hfault : (sink.accept e.bytes).fault with
  | some fault =>
      obtain ⟨room, hsink, hroom, hbytes⟩ := accept_fault hfault
      simp only [deliver, hfault] at h
      cases h
      exact .inl ⟨room, fault, hsink, hroom, hbytes, rfl⟩
  | none =>
      simp only [deliver, hfault] at h
      exact .inr ⟨rfl, accept_done hfault, h⟩

end Sink

theorem Emission.bytes_append_split (a b : Emission) :
    ∃ back, (a ++ b).bytes = a.bytes ++ back := by
  cases h : a.failure with
  | none => exact ⟨b.bytes, bytes_append h b⟩
  | some error => exact ⟨[], by rw [append_of_failed h, List.append_nil]⟩

theorem Emission.concat_split {es : List Emission} {i : Nat} {e : Emission}
    (h : es[i]? = some e) :
    concat es = concat (es.take i) ++ (e ++ concat (es.drop (i + 1))) := by
  induction es generalizing i with
  | nil => cases h
  | cons e' es ih =>
      cases i with
      | zero =>
          cases h
          rfl
      | succ i =>
          rw [List.take_succ_cons, List.drop_succ_cons, concat, ih h, concat, append_assoc]

structure Sink.Stops (sink : Sink) (es : List Emission) (i : Nat) (e : Emission) (last : Delivery)
    (error : ProtocolError) : Prop where
  emission : es[i]? = some e
  done : (Emission.concat (es.take i)).failure = none
  held : ((sink.deliverAll es).take (i + 1)).flatMap Delivery.accepted =
    (Emission.concat (es.take i)).bytes ++ last.accepted
  short : ∃ back, last.accepted ++ back = e.bytes ∧ (back ≠ [] ∨ e.failure ≠ none)
  cause :
    let held := (Emission.concat (es.take i)).bytes ++ last.accepted
    let whole := (Emission.concat es).bytes
    (∃ n fault, sink = .limited n fault ∧ n < whole.length ∧ held = whole.take n ∧
      error = .stream (.broken fault)) ∨
    ((∀ n fault, sink = .limited n fault → whole.length ≤ n) ∧ held = whole ∧
      e.failure = some error)

namespace Sink

variable {sink : Sink} {es : List Emission} {i : Nat} {last : Delivery} {error : ProtocolError}

theorem stops_of_failed (hbefore : ∀ d ∈ (sink.deliverAll es).take i, d.failure = none)
    (hlast : (sink.deliverAll es)[i]? = some last) (herror : last.failure = some error) :
    ∃ e, sink.Stops es i e last error := by
  obtain ⟨hdone, hheld⟩ := held_at_stop hbefore hlast
  rw [deliverAll_take] at hbefore
  obtain ⟨e, he, hfault, rfl⟩ := deliverAll_stop hbefore hlast
  have hwhole : (Emission.concat es).bytes = (Emission.concat (es.take i)).bytes ++
      (e ++ Emission.concat (es.drop (i + 1))).bytes := by
    rw [← Emission.bytes_append hdone, ← Emission.concat_split he]
  rcases deliver_failed herror with
    ⟨room, fault, hsink, hroom, htaken, rfl⟩ | ⟨hnone, htaken, hfailure⟩
  -- the sink gives out inside the emission
  · obtain ⟨more, hmore⟩ := Emission.bytes_append_split e (Emission.concat (es.drop (i + 1)))
    rw [hmore] at hwhole
    have hback : e.bytes.drop room ≠ [] := by
      rw [← List.length_pos_iff, List.length_drop]
      omega
    refine ⟨e, he, hdone, hheld, ⟨e.bytes.drop room, ?_, .inl hback⟩, .inl ⟨_, fault,
      sink_of_accept hfault hsink, ?_, ?_, rfl⟩⟩
    · rw [htaken, List.take_append_drop]
    · rw [hwhole, List.length_append, List.length_append]
      omega
    · rw [htaken, hwhole, List.take_length_add_append,
        List.take_append_of_le_length (Nat.le_of_lt hroom)]
  -- the sink has taken all there is, and nothing follows what was given up
  · have hfailed : e.failure ≠ none := by
      rw [hfailure]
      exact Option.some_ne_none error
    rw [Emission.append_of_failed hfailure] at hwhole
    refine ⟨e, he, hdone, hheld, ⟨[], ?_, .inr hfailed⟩, .inr ⟨?_, ?_, hfailure⟩⟩
    · rw [htaken, List.append_nil]
    · rintro n fault rfl
      apply length_le_of_accept
      rw [hwhole, accept_append hfault]
      exact hnone
    · rw [htaken, hwhole]

end Sink

namespace Packet

theorem receiveAll_sent_front (hl : writer ≤ reader) {sent : List Packet}
    (hdone : (Emission.concat (sent.map (emit ⟨version, writer⟩))).failure = none) (p : Packet)
    {front back : List UInt8} (hsplit : front ++ back = (p.emit ⟨version, writer⟩).bytes)
    (hshort : back ≠ [] ∨ (p.emit ⟨version, writer⟩).failure ≠ none) :
    ∃ ending : StreamError, ending.isEnd = true ∧
      receiveAll ⟨version, reader⟩
          ⟨(Emission.concat (sent.map (emit ⟨version, writer⟩))).bytes ++ front, none⟩ =
        (sent.map (image version), if front = [] then none else some (.stream ending)) := by
  rw [receiveAll_concat_append hl hdone]
  by_cases hfront : front = []
  · subst hfront
    refine ⟨.endInField, rfl, ?_⟩
    rw [receiveAll_nil, List.append_nil]
    rfl
  · obtain ⟨ending, hend, hread⟩ := receive_short hl p hsplit hfront hshort none
    refine ⟨ending, hend, ?_⟩
    rw [receiveAll_of_error hread, List.append_nil, if_neg hfront]
    rfl

theorem receiveAll_of_stops (hl : writer ≤ reader) {sink : Sink} {packets : List Packet} {i : Nat}
    {e : Emission} {last : Delivery} {error : ProtocolError}
    (h : sink.Stops (packets.map (emit ⟨version, writer⟩)) i e last error) :
    ∃ ending : StreamError, ending.isEnd = true ∧
      receiveAll ⟨version, reader⟩
          ⟨((sink.deliverAll (packets.map (emit ⟨version, writer⟩))).take (i + 1)).flatMap
            Delivery.accepted, none⟩ =
        ((packets.take i).map (image version),
          if last.accepted = [] then none else some (.stream ending)) := by
  obtain ⟨p, _, rfl⟩ : ∃ p, packets[i]? = some p ∧ p.emit ⟨version, writer⟩ = e := by
    have he := h.emission
    rwa [List.getElem?_map, Option.map_eq_some_iff] at he
  have hdone := h.done
  obtain ⟨back, hsplit, hshort⟩ := h.short
  rw [h.held, ← List.map_take]
  rw [← List.map_take] at hdone
  exact receiveAll_sent_front hl hdone p hsplit hshort

end Packet

theorem stopped_sender_is_not_misread (version : Int32) (writer reader : Limits)
    (hl : writer ≤ reader) (sink : Sink) (packets : List Packet) (i : Nat) :
    let emissions := packets.map (Packet.emit ⟨version, writer⟩)
    let deliveries := sink.deliverAll emissions
    let held := (deliveries.take (i + 1)).flatMap Delivery.accepted
    let whole := (Emission.concat emissions).bytes
    (∀ delivery ∈ deliveries.take i, delivery.failure = none) →
    ∀ last error, deliveries[i]? = some last → last.failure = some error →
      (∃ ending : StreamError, ending.isEnd = true ∧
        Packet.receiveAll ⟨version, reader⟩ ⟨held, none⟩ =
          ((packets.take i).map (Packet.image version),
            if last.accepted = [] then none else some (.stream ending))) ∧
      ((∃ n fault, sink = .limited n fault ∧ n < whole.length ∧ held = whole.take n ∧
          error = .stream (.broken fault)) ∨
        ((∀ n fault, sink = .limited n fault → whole.length ≤ n) ∧ held = whole ∧
          error.isRefusal = true ∧ ∃ e, emissions[i]? = some e ∧ e.failure = some error)) := by
  intro emissions deliveries held whole hbefore last error hlast herror
  obtain ⟨e, hstops⟩ := Sink.stops_of_failed hbefore hlast herror
  have hcause := hstops.cause
  rw [← hstops.held] at hcause
  refine ⟨Packet.receiveAll_of_stops hl hstops, ?_⟩
  rcases hcause with hsink | ⟨hroom, hheld, hfailure⟩
  · exact .inl hsink
  · obtain ⟨p, -, rfl⟩ := List.mem_map.1 (List.mem_of_getElem? hstops.emission)
    obtain ⟨hrefusal, -⟩ := Packet.readOne_waits hl p error hfailure
    exact .inr ⟨hroom, hheld, hrefusal, _, hstops.emission, hfailure⟩

theorem refused_and_cut_packets_are_not_misread :
    let sound : Packet := .event { kind := .custom, message := .plain none }
    let refused : Packet :=
      .event { kind := .custom, message := .plain none, time := ⟨10000000000, 0⟩ }
    let emissions := [sound, refused].map (Packet.emit ⟨3, {}⟩)
    let held (sink : Sink) := (sink.deliverAll emissions).flatMap Delivery.accepted
    (∃ ending : StreamError, ending.isEnd = true ∧
      Packet.receiveAll ⟨3, {}⟩ ⟨held .endless, none⟩ = ([sound], some (.stream ending))) ∧
    (∃ ending : StreamError, ending.isEnd = true ∧
      Packet.receiveAll ⟨3, {}⟩ ⟨held (.limited 23 .reset), none⟩ =
        ([sound], some (.stream ending))) ∧
    Packet.receiveAll ⟨3, {}⟩ ⟨held (.limited 21 .reset), none⟩ = ([sound], none) := by
  intro sound refused emissions held
  have hlimits : ({} : Limits) ≤ {} := ⟨Nat.le_refl _, Nat.le_refl _⟩
  have hstopped (sink : Sink)
      (hbefore : ∀ d ∈ (sink.deliverAll emissions).take 1, d.failure = none) :=
    stopped_sender_is_not_misread 3 {} {} hlimits sink [sound, refused] 1 hbefore
  obtain ⟨hrefused, _⟩ := hstopped .endless (by decide) _ .timestampOutOfRange rfl (by decide)
  obtain ⟨hcut, _⟩ := hstopped (.limited 23 .reset) (by decide) _ (.stream (.broken .reset)) rfl
    (by decide)
  obtain ⟨⟨_, _, hclean⟩, _⟩ := hstopped (.limited 21 .reset) (by decide) _
    (.stream (.broken .reset)) rfl (by decide)
  have hsent : ([sound, refused].take 1).map (Packet.image 3) = [sound] := by decide
  rw [hsent] at hrefused hcut hclean
  exact ⟨hrefused, hcut, hclean⟩

end BuildFeed
