import BuildFeed.Proofs.Relay.Outlook
import BuildFeed.Relay.Network

namespace BuildFeed

structure Peer where
  node : Int32
  source : Source
  sink : Sink := .endless

def Peer.outlook (config : Config) (peer : Peer) : Pump.Outlook :=
  .ofNode config peer.node peer.source peer.sink

namespace Relay

inductive Serves (config : Config) : List Peer → Relay → Prop where
  | start : Serves config [] { config }
  | attach {peers : List Peer} {relay : Relay} (peer : Peer) :
      Serves config peers relay →
      Serves config (peers ++ [peer]) (relay.attach peer.node peer.source peer.sink)
  | step {peers : List Peer} {mid last : Relay} :
      Serves config peers mid → Step mid last → Serves config peers last

def advance (relay : Relay) (i : Nat) : Relay :=
  match relay.attachments[i]? with
  | none => relay
  | some attachment =>
      match attachment.pump.step? relay.config attachment.node relay.cancelled relay.queueState with
      | none => relay
      | some step => relay.pumped i attachment step

def passedFrom (relay : Relay) (i : Nat) : List Packet :=
  relay.takenFrom i ++ relay.queuedFrom i

variable {config : Config} {peers : List Peer} {relay mid last : Relay}

theorem Serves.advance (h : Serves config peers relay) (i : Nat) :
    Serves config peers (relay.advance i) := by
  rw [Relay.advance]
  split
  · exact h
  · next hi =>
    split
    · exact h
    · next hstep => exact h.step (.pump hi hstep)

theorem Serves.advances (h : Serves config peers relay) (order : List Nat) :
    Serves config peers (order.foldl Relay.advance relay) := by
  induction order generalizing relay with
  | nil => exact h
  | cons i order ih => exact ih (h.advance i)

theorem passedFrom_eq (relay : Relay) (i : Nat) :
    relay.passedFrom i =
      ((relay.taken ++ relay.queue).filter (·.attachment = i)).map Arrival.packet := by
  rw [List.filter_append, List.map_append]
  rfl

theorem passedFrom_pumped (relay : Relay) (i j : Nat) (attachment : Attachment) (step : Pump.Step) :
    (relay.pumped i attachment step).passedFrom j =
      relay.passedFrom j ++ if i = j then step.forwarded.toList else [] := by
  have hforwarded : ((step.forwarded.toList.map (Arrival.mk i)).filter (·.attachment = j)).map
      Arrival.packet = if i = j then step.forwarded.toList else [] := by
    cases step.forwarded with
    | none => simp
    | some packet => by_cases hij : i = j <;> simp [hij]
  rw [passedFrom_eq, passedFrom_eq, ← hforwarded, ← List.map_append, ← List.filter_append,
    List.append_assoc]
  rfl

theorem passedFrom_take {arrival : Arrival} {queue : List Arrival}
    (h : relay.queue = arrival :: queue) (i : Nat) :
    passedFrom { relay with queue, taken := relay.taken ++ [arrival] } i = relay.passedFrom i := by
  rw [passedFrom_eq, passedFrom_eq, h]
  exact congrArg (fun arrivals => (List.filter _ arrivals).map Arrival.packet)
    (List.append_cons relay.taken arrival queue).symm

/-- A relay accounts for its peers: with what a pump has passed on and what it has before it,
nothing of a node's stream is lost, doubled or out of order. -/
structure Accounts (config : Config) (peers : List Peer) (relay : Relay) : Prop where
  settings : relay.config = config
  length : relay.attachments.length = peers.length
  known : ∀ i, relay.attachments.length ≤ i → relay.passedFrom i = []
  outlook {i : Nat} {peer : Peer} : peers[i]? = some peer →
    ∃ pump : Pump, relay.attachments[i]? = some ⟨peer.node, pump⟩ ∧
      peer.outlook config = (pump.outlook config peer.node).prepend (relay.passedFrom i)

theorem accounts_start (config : Config) : Accounts config [] { config } :=
  ⟨rfl, rfl, fun _ _ => rfl, nofun⟩

theorem Accounts.attach (h : Accounts config peers relay) (peer : Peer) :
    Accounts config (peers ++ [peer]) (relay.attach peer.node peer.source peer.sink) := by
  refine ⟨h.settings, ?_, ?_, ?_⟩
  · simp [Relay.attach, h.length]
  · intro i hi
    refine h.known i (Nat.le_trans ?_ hi)
    simp [Relay.attach]
  · intro i other hother
    rcases Nat.lt_or_ge i peers.length with hlt | hge
    · rw [List.getElem?_append_left hlt] at hother
      obtain ⟨pump, hpump, houtlook⟩ := h.outlook hother
      refine ⟨pump, ?_, houtlook⟩
      rwa [Relay.attach, List.getElem?_append_left (by rwa [h.length])]
    · rw [List.getElem?_append_right hge, List.getElem?_singleton] at hother
      split at hother
      · next hi =>
        cases hother
        have hlength : i = relay.attachments.length := by
          have := h.length
          omega
        subst hlength
        refine ⟨.greeting peer.source peer.sink, ?_, ?_⟩
        · exact List.getElem?_concat_length
        · change peer.outlook config =
            (Pump.Outlook.ofNode config peer.node peer.source peer.sink).prepend
              (relay.passedFrom relay.attachments.length)
          rw [h.known _ (Nat.le_refl _)]
          rfl
      · cases hother

theorem queueState_ne_dropped (hlive : relay.receiving = true) : relay.queueState ≠ .dropped := by
  intro hdropped
  rw [queueState, hlive, Bool.not_true, if_neg Bool.false_ne_true] at hdropped
  split at hdropped <;> cases hdropped

theorem Accounts.pumped (h : Accounts config peers relay) (hcalm : relay.cancelled = false)
    (hlive : relay.receiving = true) {i : Nat} {attachment : Attachment} {step : Pump.Step}
    (hi : relay.attachments[i]? = some attachment)
    (hstep : attachment.pump.step? relay.config attachment.node relay.cancelled relay.queueState =
      some step) :
    Accounts config peers (relay.pumped i attachment step) := by
  have hlength := (List.getElem?_eq_some_iff.1 hi).1
  have hqueue := queueState_ne_dropped hlive
  have hundisturbed : attachment.pump.step? config attachment.node false .roomy = some step := by
    rw [h.settings, hcalm] at hstep
    rcases Pump.step?_cases hstep with hundisturbed | ⟨_, ⟨hcancelled, _⟩ | ⟨hdropped, _⟩⟩
    · exact hundisturbed
    · cases hcancelled
    · exact absurd hdropped hqueue
  refine ⟨h.settings, ?_, ?_, ?_⟩
  · rw [← h.length]
    exact List.length_set
  · intro j hj
    have hj : relay.attachments.length ≤ j := by
      rwa [Relay.pumped, List.length_set] at hj
    rw [passedFrom_pumped, h.known j hj, if_neg (by omega), List.append_nil]
  · intro j peer hpeer
    obtain ⟨pump, hpump, houtlook⟩ := h.outlook hpeer
    rw [passedFrom_pumped]
    by_cases hij : i = j
    · subst hij
      cases hi.symm.trans hpump
      refine ⟨step.next, List.getElem?_set_self hlength, ?_⟩
      rw [houtlook, Pump.outlook_step hundisturbed, if_pos rfl, Pump.Outlook.prepend_prepend]
    · refine ⟨pump, ?_, ?_⟩
      · rw [Relay.pumped, List.getElem?_set_ne hij, hpump]
      · rw [houtlook, if_neg hij, List.append_nil]

theorem Accounts.take (h : Accounts config peers relay) {arrival : Arrival} {queue : List Arrival}
    (hqueue : relay.queue = arrival :: queue) :
    Accounts config peers { relay with queue, taken := relay.taken ++ [arrival] } where
  settings := h.settings
  length := h.length
  known i hi := by rw [passedFrom_take hqueue, h.known i hi]
  outlook hpeer := by
    rw [passedFrom_take hqueue]
    exact h.outlook hpeer

theorem calm_of_step (h : Step mid last) (hcalm : last.cancelled = false)
    (hlive : last.receiving = true) : mid.cancelled = false ∧ mid.receiving = true := by
  cases h with
  | pump | take => exact ⟨hcalm, hlive⟩
  | cancel => cases hcalm
  | drop => cases hlive

theorem accounts_of_serves (h : Serves config peers relay) (hcalm : relay.cancelled = false)
    (hlive : relay.receiving = true) : Accounts config peers relay := by
  induction h with
  | start => exact accounts_start config
  | attach peer _ ih => exact (ih hcalm hlive).attach peer
  | step _ hstep ih =>
    obtain ⟨hcalm', hlive'⟩ := calm_of_step hstep hcalm hlive
    have hmid := ih hcalm' hlive'
    cases hstep with
    | pump hi hstep => exact hmid.pumped hcalm' hlive' hi hstep
    | take _ hqueue => exact hmid.take hqueue
    | cancel => cases hcalm
    | drop => cases hlive

theorem each_node_delivers_its_own_stream (h : Serves config peers relay)
    (hcalm : relay.cancelled = false) (hlive : relay.receiving = true) {i : Nat} {peer : Peer}
    (hpeer : peers[i]? = some peer) :
    ∃ pump, relay.attachments[i]? = some ⟨peer.node, pump⟩ ∧
      relay.takenFrom i ++ relay.queuedFrom i <+: (peer.outlook config).packets ∧
      ∀ result, pump = .stopped result →
        relay.takenFrom i ++ relay.queuedFrom i = (peer.outlook config).packets ∧
          result = (peer.outlook config).result := by
  obtain ⟨pump, hpump, houtlook⟩ := (accounts_of_serves h hcalm hlive).outlook hpeer
  refine ⟨pump, hpump, ?_, ?_⟩
  · rw [houtlook]
    exact List.prefix_append (relay.passedFrom i) (pump.outlook config peer.node).packets
  · rintro result rfl
    rw [houtlook]
    exact ⟨(List.append_nil (relay.passedFrom i)).symm, rfl⟩

theorem desync_leaves_the_other_node_alone :
    let config : Config := { queueDepth := 1 }
    let started : List UInt8 := [1, 0, 0, 0, 2, 0, 0, 0] ++ List.replicate 12 0 ++ [0, 0, 0]
    let bad : Peer := ⟨1, ⟨Handshake.greeting 3 ++ [77, 0, 0, 0], none⟩, .endless⟩
    let good : Peer := ⟨2, ⟨Handshake.greeting 2 ++ started ++ started, none⟩, .endless⟩
    let event : Event :=
      { kind := .buildStarted
        message := .plain none
        context := { Context.invalid with node := 2 } }
    ∃ relay, Serves config [bad, good] relay ∧ relay.cancelled = false ∧ relay.receiving = true ∧
      [bad, good][0]? = some bad ∧ [bad, good][1]? = some good ∧
      relay.attachments[0]? =
        some ⟨1, .stopped (.error (.protocol (.unknownEventType 77)))⟩ ∧
      relay.takenFrom 0 ++ relay.queuedFrom 0 = (bad.outlook config).packets ∧
      relay.takenFrom 1 ++ relay.queuedFrom 1 = [.event event] ∧
      [.event event] <+: (good.outlook config).packets := by
  intro config started bad good event
  let relay := [0, 1, 0, 1, 0, 1, 0, 1].foldl Relay.advance
    ((Relay.attach { config } 1 bad.source bad.sink).attach 2 good.source good.sink)
  have hserves : Serves config [bad, good] relay := (Serves.attach good (.attach bad .start)).advances _
  have hcalm : relay.cancelled = false := by decide +kernel
  have hlive : relay.receiving = true := by decide +kernel
  have hresult : relay.attachments[0]?.bind (·.pump.result?) =
      some (.error (.protocol (.unknownEventType 77))) := by decide +kernel
  have hpassed : relay.takenFrom 1 ++ relay.queuedFrom 1 = [.event event] := by decide +kernel
  obtain ⟨pump, hbad, _, hstopped⟩ :=
    each_node_delivers_its_own_stream hserves hcalm hlive
      (show [bad, good][0]? = some bad from rfl)
  obtain ⟨_, _, hgood, _⟩ :=
    each_node_delivers_its_own_stream hserves hcalm hlive
      (show [bad, good][1]? = some good from rfl)
  rw [hbad] at hresult
  cases Pump.stopped_of_result? hresult
  rw [hpassed] at hgood
  exact ⟨relay, hserves, hcalm, hlive, rfl, rfl, hbad, (hstopped _ rfl).1, hpassed, hgood⟩

end Relay

end BuildFeed
