import BuildFeed.Proofs.Relay.Pump

namespace BuildFeed.Pump

structure Outlook where
  packets : List Packet
  result : PumpResult

def Outlook.ofStream (node : Int32) (terms : Terms) (source : Source) : Outlook :=
  let (packets, error) := Packet.receiveAll terms source
  ⟨packets.map (·.attributedTo node), ending error⟩

def Outlook.ofNode (config : Config) (node : Int32) (source : Source) (sink : Sink) : Outlook :=
  let outcome := Handshake.negotiate config.version source sink
  match outcome.result with
  | .error error => ⟨[], .error (.handshake error)⟩
  | .ok version => ofStream node ⟨version, config.limits⟩ outcome.source

def Outlook.prepend (packets : List Packet) (o : Outlook) : Outlook :=
  { o with packets := packets ++ o.packets }

def outlook (config : Config) (node : Int32) : Pump → Outlook
  | greeting source sink => .ofNode config node source sink
  | refused error => ⟨[], .error (.handshake error)⟩
  | polling terms source | receiving terms source => .ofStream node terms source
  | ended error => ⟨[], ending error⟩
  | sending terms source packet => (Outlook.ofStream node terms source).prepend [packet]
  | stopped result => ⟨[], result⟩

variable {config : Config} {node : Int32} {cancelled : Bool} {queue : QueueState} {pump : Pump}
  {step : Step}

theorem Outlook.prepend_prepend (o : Outlook) (packets more : List Packet) :
    (o.prepend more).prepend packets = o.prepend (packets ++ more) := by
  rw [prepend, prepend, prepend, List.append_assoc]

theorem outlook_afterGreeting (config : Config) (node : Int32) (source : Source) (sink : Sink) :
    (afterGreeting config node source sink).forwarded = none ∧
      (afterGreeting config node source sink).next.outlook config node =
        .ofNode config node source sink := by
  cases hresult : (Handshake.negotiate config.version source sink).result with
  | error error =>
    simp only [afterGreeting, Outlook.ofNode, hresult]
    exact ⟨trivial, rfl⟩
  | ok version =>
    simp only [afterGreeting, Outlook.ofNode, hresult]
    exact ⟨trivial, rfl⟩

theorem outlook_afterReceipt (config : Config) (node : Int32) (terms : Terms) (source : Source) :
    (afterReceipt node terms source).forwarded = none ∧
      (afterReceipt node terms source).next.outlook config node = .ofStream node terms source := by
  cases hread : Packet.receive terms source with
  | error error rest =>
    simp only [afterReceipt, Outlook.ofStream, hread, Packet.receiveAll_of_error hread]
    exact ⟨trivial, rfl⟩
  | ok packet? rest =>
    cases packet? with
    | none =>
      simp only [afterReceipt, Outlook.ofStream, hread, Packet.receiveAll_of_none hread]
      exact ⟨trivial, rfl⟩
    | some packet =>
      simp only [afterReceipt, Outlook.ofStream, hread, Packet.receiveAll_of_some hread]
      exact ⟨trivial, rfl⟩

theorem outlook_step (h : pump.step? config node false .roomy = some step) :
    pump.outlook config node =
      (step.next.outlook config node).prepend step.forwarded.toList := by
  cases pump with
  | greeting source sink =>
    cases h
    obtain ⟨hforwarded, hnext⟩ := outlook_afterGreeting config node source sink
    rw [hforwarded, hnext]
    rfl
  | receiving terms source =>
    cases h
    obtain ⟨hforwarded, hnext⟩ := outlook_afterReceipt config node terms source
    rw [hforwarded, hnext]
    rfl
  | ended error =>
    cases h
    cases error <;> rfl
  | refused error | polling terms source | sending terms source packet =>
    cases h
    rfl
  | stopped result => cases h

theorem step?_cases (h : pump.step? config node cancelled queue = some step) :
    pump.step? config node false .roomy = some step ∨
      step.forwarded = none ∧
        (cancelled = true ∧ step.next = stopped (.ok .cancelled) ∨
          queue = .dropped ∧ step.next = stopped (.ok .receiverDropped)) := by
  cases pump with
  | greeting source sink | receiving terms source => exact .inl h
  | refused error | polling terms source | ended error =>
    cases cancelled with
    | false => exact .inl h
    | true =>
      cases h
      exact .inr ⟨rfl, .inl ⟨rfl, rfl⟩⟩
  | sending terms source packet =>
    cases queue with
    | roomy => exact .inl h
    | full => cases h
    | dropped =>
      cases h
      exact .inr ⟨rfl, .inr ⟨rfl, rfl⟩⟩
  | stopped result => cases h

theorem outlook_step_inOrder (h : pump.step? config node cancelled queue = some step) :
    step.forwarded.toList ++ (step.next.outlook config node).packets <+:
      (pump.outlook config node).packets := by
  rcases step?_cases h with hcalm | ⟨hforwarded, ⟨_, hnext⟩ | ⟨_, hnext⟩⟩
  · rw [outlook_step hcalm]
    exact List.prefix_rfl
  · rw [hforwarded, hnext]
    exact List.nil_prefix
  · rw [hforwarded, hnext]
    exact List.nil_prefix

end BuildFeed.Pump
