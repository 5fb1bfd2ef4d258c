import BuildFeed.Proofs.Relay.Link
import BuildFeed.Proofs.Relay.Pump

namespace BuildFeed

def Link.Connection.stream (connection : Link.Connection) (sent : List UInt8)
    (fault : Option StreamFault) : Source :=
  match connection.result with
  | .ok _ => ⟨connection.written ++ sent, fault⟩
  | .error _ => ⟨connection.written, fault⟩

def Agreed (version : Int32) (worker : Except RelayError Link) (relay : Pump) : Prop :=
  match worker, relay with
  | .ok link, .polling terms _ =>
      link.terms.version = version ∧ terms.version = version ∧ oldestVersion ≤ version
  | .error _, .refused _ => True
  | _, _ => False

variable {worker relay : Config}

theorem Config.oldest_le_min (hworker : worker.fault? = none)
    (hrelay : oldestVersion ≤ relay.version) : oldestVersion ≤ min worker.version relay.version := by
  rw [Std.min_eq_if]
  split
  · exact oldest_le hworker
  · exact hrelay

namespace Link

theorem connect_of_fault {error : ConfigError} (h : worker.fault? = some error)
    (env : Environment) (source : Source) (sink : Sink) :
    connect worker env source sink = ⟨.error (.config error), []⟩ := by
  simp only [connect, h]

theorem connect_old (hworker : worker.fault? = none) {theirs : Int32}
    (hold : theirs < oldestVersion) {sink : Sink}
    (hsink : (sink.accept (Handshake.greeting worker.version)).fault = none) (env : Environment)
    (rest : List UInt8) (fault : Option StreamFault) :
    connect worker env ⟨Handshake.greeting theirs ++ rest, fault⟩ sink =
      ⟨.error (.handshake (.unsupportedVersion theirs)), Handshake.greeting worker.version⟩ := by
  obtain ⟨hresult, hwritten⟩ := Handshake.negotiate_old hold hsink rest fault
  simp only [connect, hworker, hresult, hwritten]

end Link

theorem Pump.afterGreeting_silent {sink : Sink}
    (hsink : (sink.accept (Handshake.greeting relay.version)).fault = none) (node : Int32)
    (fault : Option StreamFault) :
    let step := afterGreeting relay node ⟨[], fault⟩ sink
    (∃ error, step.next = refused error) ∧ step.written = Handshake.greeting relay.version := by
  obtain ⟨⟨error, hresult⟩, hwritten⟩ := Handshake.negotiate_silent hsink fault
  simp only [afterGreeting, hresult, hwritten, and_true]
  exact ⟨_, rfl⟩

theorem Pump.afterGreeting_worker (hworker : worker.fault? = none) {sink : Sink}
    (hsink : (sink.accept (Handshake.greeting relay.version)).fault = none) (node : Int32)
    (received : List UInt8) (fault : Option StreamFault) :
    let step := afterGreeting relay node ⟨Handshake.greeting worker.version ++ received, fault⟩ sink
    step.next = polling ⟨min worker.version relay.version, relay.limits⟩ ⟨received, fault⟩ ∧
      step.written = Handshake.greeting relay.version := by
  have hcomm : min relay.version worker.version = min worker.version relay.version :=
    Std.Commutative.comm _ _
  obtain ⟨hnext, hwritten, _⟩ :=
    afterGreeting_of_accepted (Config.oldest_le hworker) hsink node received fault
  rw [hcomm] at hnext
  exact ⟨hnext, hwritten⟩

/-- The ends agree unless the relay's own version is too old. Then the worker refuses it, and the
relay, which only looks at the worker's, goes on to read packets in a version that nobody speaks. -/
theorem ends_agree_iff (worker relay : Config) (env : Environment) (node : Int32)
    (workerSink relaySink : Sink)
    (hworkerSink : (workerSink.accept (Handshake.greeting worker.version)).fault = none)
    (hrelaySink : (relaySink.accept (Handshake.greeting relay.version)).fault = none)
    (rest sent : List UInt8) (answerFault sentFault : Option StreamFault) :
    let answer : Source := ⟨Handshake.greeting relay.version ++ rest, answerFault⟩
    let connection := Link.connect worker env answer workerSink
    let step := Pump.afterGreeting relay node (connection.stream sent sentFault) relaySink
    step.written = Handshake.greeting relay.version ∧
      (Agreed (min worker.version relay.version) connection.result step.next ↔
        worker.fault? ≠ none ∨ oldestVersion ≤ relay.version) ∧
      (worker.fault? = none →
        (∃ received, step.next =
          .polling ⟨min worker.version relay.version, relay.limits⟩ ⟨received, sentFault⟩) ∧
        (relay.version < oldestVersion →
          connection.result = .error (.handshake (.unsupportedVersion relay.version)))) := by
  intro answer connection step
  cases hfault : worker.fault? with
  | some error =>
    obtain ⟨hresult, hstream⟩ : connection.result = .error (.config error) ∧
        connection.stream sent sentFault = ⟨[], sentFault⟩ := by
      simp only [connection, Link.connect_of_fault hfault, Link.Connection.stream, and_self]
    obtain ⟨⟨refusal, hnext⟩, hwritten⟩ := Pump.afterGreeting_silent hrelaySink node sentFault
    rw [← hstream] at hnext hwritten
    refine ⟨hwritten, ?_, nofun⟩
    rw [hresult, hnext]
    exact ⟨fun _ => .inl nofun, fun _ => trivial⟩
  | none =>
    by_cases hold : relay.version < oldestVersion
    · have hconnection : connection = ⟨.error (.handshake (.unsupportedVersion relay.version)),
          Handshake.greeting worker.version⟩ :=
        Link.connect_old hfault hold hworkerSink env rest answerFault
      have hresult := congrArg Link.Connection.result hconnection
      have hstream : connection.stream sent sentFault =
          ⟨Handshake.greeting worker.version ++ [], sentFault⟩ := by
        rw [hconnection, List.append_nil]
        rfl
      obtain ⟨hnext, hwritten⟩ :=
        Pump.afterGreeting_worker hfault hrelaySink node [] sentFault
      rw [← hstream] at hnext hwritten
      refine ⟨hwritten, ?_, fun _ => ⟨⟨[], hnext⟩, fun _ => hresult⟩⟩
      rw [hresult, hnext]
      refine ⟨False.elim, ?_⟩
      rintro (hne | hle)
      · exact hne rfl
      · exact Int32.not_lt.2 hle hold
    · have htheirs : oldestVersion ≤ relay.version := Int32.not_lt.1 hold
      obtain ⟨link, hlink, hgreeting, hterms, _⟩ :=
        Link.connect_append hfault htheirs hworkerSink env rest answerFault
      have hresult : connection.result = .ok link := hlink
      have hstream : connection.stream sent sentFault =
          ⟨Handshake.greeting worker.version ++ sent, sentFault⟩ := by
        rw [Link.Connection.stream, hresult]
        exact congrArg (fun written => Source.mk (written ++ sent) sentFault) hgreeting
      obtain ⟨hnext, hwritten⟩ :=
        Pump.afterGreeting_worker hfault hrelaySink node sent sentFault
      rw [← hstream] at hnext hwritten
      refine ⟨hwritten, ⟨fun _ => .inr htheirs, fun _ => ?_⟩,
        fun _ => ⟨⟨sent, hnext⟩, fun hlow => absurd hlow hold⟩⟩
      rw [hresult, hnext]
      exact ⟨congrArg Terms.version hterms, rfl, Config.oldest_le_min hfault htheirs⟩

theorem older_worker_and_newer_relay_agree :
    let worker : Config := { version := 1 }
    let relay : Config := { version := 7 }
    let connection := Link.connect worker (fun _ => none) ⟨Handshake.greeting 7, none⟩ .endless
    let step := Pump.afterGreeting relay 2 (connection.stream [3] none)
    worker.fault? = none ∧ oldestVersion ≤ relay.version ∧
      Agreed 1 connection.result step.next := by
  intro worker relay connection step
  have hspoken : oldestVersion ≤ relay.version := by decide
  obtain ⟨_, hagreed, _⟩ :=
    ends_agree_iff worker relay (fun _ => none) 2 .endless .endless rfl rfl [] [3] none none
  exact ⟨rfl, hspoken, hagreed.2 (.inr hspoken)⟩

theorem refused_node_counts_as_connected :
    let relay : Config := { version := 0 }
    let connection := Link.connect {} (fun _ => none) ⟨Handshake.greeting 0, none⟩ .endless
    let run := Pump.run relay 1 false .roomy (connection.stream [] none)
    connection.result = .error (.handshake (.unsupportedVersion 0)) ∧
      connection.written = Handshake.greeting 3 ∧ run.written = Handshake.greeting 0 ∧
      run.pump = .stopped (.ok .closed) ∧
      run.log = [Pump.record .info "node connected" 1 [("version", "0")],
        Pump.record .info "node disconnected" 1 []] ∧
      ¬ Agreed (min 3 0) connection.result
        (Pump.afterGreeting relay 1 (connection.stream [] none)).next :=
  ⟨rfl, rfl, rfl, rfl, rfl, id⟩

end BuildFeed
