import BuildFeed.Proofs.Relay.Handshake
import BuildFeed.Relay.Link

namespace BuildFeed

namespace Buffer

theorem flush_done {b : Buffer} (h : b.flush.fault = none) :
    b.flush.accepted = b.waiting ∧ b.flush.buffer.waiting = [] := by
  have haccepted : b.flush.accepted = b.waiting := Sink.accept_done h
  refine ⟨haccepted, ?_⟩
  change b.waiting.drop b.flush.accepted.length = []
  rw [haccepted, List.drop_length]

theorem put_done {b : Buffer} {bytes : List UInt8} (h : (b.put bytes).fault = none)
    (hroom : bytes.length < capacity ∨ b.waiting = []) :
    (b.put bytes).accepted ++ (b.put bytes).buffer.waiting = b.waiting ++ bytes := by
  by_cases hfits : bytes.length < capacity
  · simp only [put, if_pos hfits, List.nil_append]
  · have hempty : b.waiting = [] := hroom.resolve_left hfits
    simp only [put, if_neg hfits] at h ⊢
    rw [Sink.accept_done h, hempty, List.append_nil, List.nil_append]

theorem write_done {b : Buffer} {bytes : List UInt8} (h : (b.write bytes).fault = none) :
    (b.write bytes).accepted ++ (b.write bytes).buffer.waiting = b.waiting ++ bytes := by
  by_cases hroom : b.waiting.length + bytes.length ≤ capacity
  · simp only [write, if_pos hroom] at h ⊢
    refine put_done h ?_
    -- bytes that fill the buffer on their own only fit where nothing waits
    cases hwaiting : b.waiting with
    | nil => exact .inr rfl
    | cons byte waiting =>
        rw [hwaiting, List.length_cons] at hroom
        exact .inl (by omega)
  · cases hflush : b.flush.fault with
    | some fault =>
        simp only [write, if_neg hroom, hflush] at h
        cases h
    | none =>
        obtain ⟨haccepted, hempty⟩ := flush_done hflush
        simp only [write, if_neg hroom, hflush] at h ⊢
        rw [List.append_assoc, put_done h (.inr hempty), haccepted, hempty, List.nil_append]

theorem writeAll_done {b : Buffer} {chunks : List (List UInt8)}
    (h : (b.writeAll chunks).fault = none) :
    (b.writeAll chunks).accepted ++ (b.writeAll chunks).buffer.waiting =
      b.waiting ++ chunks.flatten := by
  induction chunks generalizing b with
  | nil => exact (List.append_nil b.waiting).symm
  | cons bytes chunks ih =>
      cases hfirst : (b.write bytes).fault with
      | some fault =>
          simp only [writeAll, hfirst] at h
          cases h
      | none =>
          simp only [writeAll, hfirst] at h ⊢
          rw [List.append_assoc, ih h, ← List.append_assoc, write_done hfirst, List.append_assoc,
            List.flatten_cons]

theorem deliver_done {b : Buffer} {e : Emission} (h : (b.deliver e).2.1 = none) :
    e.failure = none ∧ (b.deliver e).1 = b.waiting ++ e.bytes ∧
      (b.deliver e).2.2.waiting = [] := by
  cases hfault : (b.writeAll e.chunks).fault with
  | some fault =>
      simp only [deliver, hfault] at h
      cases h
  | none =>
      cases hfailure : e.failure with
      | some error =>
          simp only [deliver, hfault, hfailure] at h
          cases h
      | none =>
          simp only [deliver, hfault, hfailure, Option.map_eq_none_iff] at h ⊢
          obtain ⟨haccepted, hempty⟩ := flush_done h
          rw [haccepted]
          exact ⟨trivial, writeAll_done hfault, hempty⟩

end Buffer

theorem Config.oldest_le {c : Config} (h : c.fault? = none) : oldestVersion ≤ c.version := by
  by_cases hversion : c.version < oldestVersion ∨ currentVersion < c.version
  · rw [fault?, if_pos hversion] at h
    cases h
  · exact Int32.not_lt.1 fun hlow => hversion (.inl hlow)

namespace Link

theorem connect_append {config : Config} (hconfig : config.fault? = none) {theirs : Int32}
    (htheirs : oldestVersion ≤ theirs) {sink : Sink}
    (hsink : (sink.accept (Handshake.greeting config.version)).fault = none) (env : Environment)
    (rest : List UInt8) (fault : Option StreamFault) :
    let connection := connect config env ⟨Handshake.greeting theirs ++ rest, fault⟩ sink
    ∃ link, connection.result = .ok link ∧
      connection.written = Handshake.greeting config.version ∧
      link.terms = ⟨min config.version theirs, config.limits⟩ ∧ link.buffer.waiting = [] := by
  obtain ⟨hresult, hwritten, _⟩ := Handshake.negotiate_append htheirs hsink rest fault
  simp only [connect, hconfig, hresult, hwritten]
  exact ⟨_, rfl, trivial, rfl, rfl⟩

theorem send_done {link : Link} {p : Packet} (h : (link.send p).failure = none)
    (hwaiting : link.buffer.waiting = []) :
    (p.emit link.terms).failure = none ∧
      (link.send p).accepted = (p.emit link.terms).bytes ∧
      (link.send p).link.buffer.waiting = [] := by
  obtain ⟨hdone, haccepted, hempty⟩ := Buffer.deliver_done (Option.map_eq_none_iff.1 h)
  rw [hwaiting, List.nil_append] at haccepted
  exact ⟨hdone, haccepted, hempty⟩

theorem close_of_empty {link : Link} (hwaiting : link.buffer.waiting = []) : link.close = [] := by
  change (link.buffer.sink.accept link.buffer.waiting).bytes = []
  rw [hwaiting]
  cases link.buffer.sink with
  | endless => rfl
  | limited room fault => rfl

theorem sendAll_done {link : Link} {packets : List Packet}
    (h : ∀ sending ∈ (link.sendAll packets).1, sending.failure = none)
    (hwaiting : link.buffer.waiting = []) :
    (Emission.concat (packets.map (Packet.emit link.terms))).failure = none ∧
      (link.sendAll packets).1.flatMap Sending.accepted ++ (link.sendAll packets).2.close =
        (Emission.concat (packets.map (Packet.emit link.terms))).bytes := by
  induction packets generalizing link with
  | nil => exact ⟨rfl, close_of_empty hwaiting⟩
  | cons p packets ih =>
      cases hfirst : (link.send p).failure with
      | some error =>
          simp only [sendAll, hfirst, List.mem_singleton, forall_eq] at h
          cases h
      | none =>
          obtain ⟨hdone, haccepted, hempty⟩ := send_done hfirst hwaiting
          simp only [sendAll, hfirst] at h ⊢
          obtain ⟨hrest, hbytes⟩ := ih (fun sending hs => h sending (List.mem_cons_of_mem _ hs)) hempty
          refine ⟨Emission.failure_append.2 ⟨hdone, hrest⟩, ?_⟩
          rw [List.flatMap_cons, haccepted, List.append_assoc, hbytes]
          exact (Emission.bytes_append hdone _).symm

end Link

end BuildFeed
