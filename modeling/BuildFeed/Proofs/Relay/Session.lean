import BuildFeed.Proofs.Relay.Link
import BuildFeed.Proofs.Relay.Pump

namespace BuildFeed

namespace Packet

def arrival (version node : Int32) : Packet → Packet
  | event e =>
      let context := if e.context = .invalid then { Context.invalid with node } else e.context
      event { e.image version with context }
  | p => p.image version

theorem attributedTo_image (version node : Int32) (p : Packet) :
    (p.image version).attributedTo node = p.arrival version node := by
  cases p with
  | event e =>
      by_cases h : e.context = .invalid
      · simp [image, attributedTo, arrival, Event.attributedTo, Event.image, Context.attributedTo,
          Context.isInvalid, Context.ofNode, h]
      · simp [image, attributedTo, arrival, Event.attributedTo, Event.image, Context.attributedTo,
          Context.isInvalid, h]
  | projectError e => rfl
  | loggerError e => rfl

end Packet

theorem Pump.runUpTo_sent {relay : Config} {theirs : Int32} (htheirs : oldestVersion ≤ theirs)
    {writer : Limits} (hl : writer ≤ relay.limits) {packets : List Packet} {e : Emission}
    (he : e = .concat (packets.map (Packet.emit ⟨min theirs relay.version, writer⟩)))
    (hdone : e.failure = none) (node : Int32) {fuel : Nat} (hfuel : 3 * e.bytes.length + 4 ≤ fuel) :
    let run := runUpTo relay node false .roomy fuel
      (greeting ⟨Handshake.greeting theirs ++ e.bytes, none⟩)
    run.pump = stopped (.ok .closed) ∧
      run.packets = packets.map (Packet.arrival (min theirs relay.version) node) ∧
      run.written = Handshake.greeting relay.version := by
  have hagreed : min relay.version theirs = min theirs relay.version := Std.Commutative.comm _ _
  obtain ⟨hpump, hpackets, hwritten⟩ := runUpTo_greeting htheirs hfuel
  have hall : Packet.receiveAll ⟨min theirs relay.version, relay.limits⟩ ⟨e.bytes, none⟩ =
      (packets.map (Packet.image (min theirs relay.version)), none) := by
    subst he
    exact Packet.receiveAll_concat hl hdone
  rw [hagreed, hall] at hpump hpackets
  refine ⟨hpump, hpackets.trans ?_, hwritten⟩
  rw [List.map_map]
  exact List.map_congr_left fun p _ => Packet.attributedTo_image (min theirs relay.version) node p

theorem session_forwards_sent_packets (worker relay : Config) (hworker : worker.fault? = none)
    (hrelay : relay.fault? = none) (hl : worker.limits ≤ relay.limits) (env : Environment)
    (node : Int32) (packets : List Packet) (sink : Sink) (pipelined : List UInt8)
    (fault : Option StreamFault)
    (hsink : (sink.accept (Handshake.greeting worker.version)).fault = none) :
    let agreed := min worker.version relay.version
    let answer : Source := ⟨Handshake.greeting relay.version ++ pipelined, fault⟩
    let connection := Link.connect worker env answer sink
    ∃ link, connection.result = .ok link ∧ link.terms = ⟨agreed, worker.limits⟩ ∧
      (Handshake.negotiate worker.version answer sink).source = ⟨answer.bytes.drop 8, fault⟩ ∧
      ((∀ sending ∈ (link.sendAll packets).1, sending.failure = none) →
        let bytes := connection.written ++ (link.sendAll packets).1.flatMap Link.Sending.accepted ++
          (link.sendAll packets).2.close
        let run := Pump.run relay node false .roomy ⟨bytes, none⟩
        (Pump.afterGreeting relay node ⟨bytes, none⟩).next =
          .polling ⟨agreed, relay.limits⟩ ⟨bytes.drop 8, none⟩ ∧
        run.written = Handshake.greeting relay.version ∧
        run.packets = packets.map (Packet.arrival agreed node) ∧
        run.pump = .stopped (.ok .closed) ∧
        ∀ moments : List QueueState, .dropped ∉ moments →
          let run := Pump.runThrough relay node moments (.greeting ⟨bytes, none⟩)
          run.packets <+: packets.map (Packet.arrival agreed node) ∧
          (3 * bytes.length + 8 ≤ moments.count .roomy →
            run.packets = packets.map (Packet.arrival agreed node) ∧
            run.pump = .stopped (.ok .closed))) := by
  intro agreed answer connection
  have hours := Config.oldest_le hworker
  have htheirs := Config.oldest_le hrelay
  obtain ⟨link, hlink, hwritten, hterms, hwaiting⟩ :=
    Link.connect_append hworker htheirs hsink env pipelined fault
  refine ⟨link, hlink, hterms, ?_, ?_⟩
  · obtain ⟨_, _, hsource⟩ := Handshake.negotiate_append htheirs hsink pipelined fault
    rw [hsource, List.drop_left' (Handshake.greeting_length relay.version)]
  · intro hsent bytes run
    obtain ⟨hdone, hbody⟩ := Link.sendAll_done hsent hwaiting
    rw [hterms] at hdone hbody
    generalize he : Emission.concat (packets.map (Packet.emit ⟨agreed, worker.limits⟩)) = e
      at hdone hbody
    have hbytes : bytes = Handshake.greeting worker.version ++ e.bytes := by
      change connection.written ++ _ ++ _ = _
      rw [hwritten, List.append_assoc, hbody]
    have hlength : bytes.length = 8 + e.bytes.length := by
      rw [hbytes, List.length_append, Handshake.greeting_length]
    have hrun {fuel : Nat} (hfuel : 3 * bytes.length + 8 ≤ fuel) :
        let run := Pump.runUpTo relay node false .roomy fuel (.greeting ⟨bytes, none⟩)
        run.pump = .stopped (.ok .closed) ∧
          run.packets = packets.map (Packet.arrival agreed node) ∧
          run.written = Handshake.greeting relay.version := by
      rw [hbytes]
      exact Pump.runUpTo_sent hours hl he.symm hdone node (by omega)
    refine ⟨?_, ?_, ?_, ?_, ?_⟩
    · obtain ⟨hnext, _, _⟩ := Pump.afterGreeting_append hours e.bytes none
      have hagreed : min relay.version worker.version = agreed := Std.Commutative.comm _ _
      rw [hbytes, List.drop_left' (Handshake.greeting_length worker.version), hnext, hagreed]
    · exact (hrun (Nat.le_refl _)).2.2
    · exact (hrun (Nat.le_refl _)).2.1
    · exact (hrun (Nat.le_refl _)).1
    · intro moments hmoments run
      exact Pump.runThrough_of_runUpTo hmoments fun fuel hfuel =>
        ⟨(hrun hfuel).2.1, (hrun hfuel).1⟩

theorem older_worker_session_is_forwarded :
    let worker : Config := { version := 1, locale := some "de" }
    let warning : Event :=
      { kind := .warning { helpLink := some "h" }, message := .lazyIn "{0}" [.integer 7] "de" }
    let placed : Event := { warning with context := ⟨4, 5, 6, 7, -1, -1⟩ }
    let logger : LoggerError := { event := some warning, initialization := true }
    let packets : List Packet := [.event warning, .event placed, .loggerError logger]
    let received : Event := { kind := .warning {}, message := .lazyIn "{0}" [.text "7"] "de" }
    ∃ link, (Link.connect worker (fun _ => none) ⟨Handshake.greeting 3 ++ [3], none⟩
        .endless).result = .ok link ∧
      link.terms = ⟨1, {}⟩ ∧
      (∀ sending ∈ (link.sendAll packets).1, sending.failure = none) ∧
      let bytes := Handshake.greeting 1 ++
        (link.sendAll packets).1.flatMap Link.Sending.accepted ++ (link.sendAll packets).2.close
      let run := Pump.run {} 9 false .roomy ⟨bytes, none⟩
      run.packets =
        [.event { received with context := { Context.invalid with node := 9 } },
          .event { received with context := ⟨4, 5, 6, 7, -1, -1⟩ },
          .loggerError { logger with event := some received }] ∧
      run.pump = .stopped (.ok .closed) := by
  intro worker warning placed logger packets received
  have hworker : worker.fault? = none := by decide
  have hrelay : ({} : Config).fault? = none := by decide
  have hlimits : worker.limits ≤ ({} : Config).limits := ⟨Nat.le_refl _, Nat.le_refl _⟩
  obtain ⟨link, hlink, hterms, _, hsession⟩ := session_forwards_sent_packets worker {} hworker
    hrelay hlimits (fun _ => none) 9 packets .endless [3] none rfl
  have hconnected : (Link.connect worker (fun _ => none) ⟨Handshake.greeting 3 ++ [3], none⟩
      .endless).result = .ok ⟨⟨1, {}⟩, worker.localeName fun _ => none, .empty .endless⟩ := by rfl
  obtain rfl := Except.ok.inj (hconnected.symm.trans hlink)
  have hsent : ∀ sending ∈ (Link.sendAll ⟨⟨1, {}⟩, worker.localeName fun _ => none,
      .empty .endless⟩ packets).1, sending.failure = none := by
    decide
  have harrivals : packets.map (Packet.arrival 1 9) =
      [.event { received with context := { Context.invalid with node := 9 } },
        .event { received with context := ⟨4, 5, 6, 7, -1, -1⟩ },
        .loggerError { logger with event := some received }] := by
    decide
  obtain ⟨_, _, hpackets, hpump, _⟩ := hsession hsent
  exact ⟨_, hconnected, hterms, hsent, hpackets.trans harrivals, hpump⟩

end BuildFeed
