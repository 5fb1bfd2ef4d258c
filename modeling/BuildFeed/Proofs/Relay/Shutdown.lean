import BuildFeed.Proofs.Relay.Cancellation
import BuildFeed.Proofs.Relay.Isolation
import Mathlib.Algebra.Ring.Nat
import Mathlib.Logic.Relation

namespace BuildFeed

namespace Pump

def closed (source : Source) (sink : Sink) : Pump → Pump
  | greeting _ _ => greeting source sink
  | polling terms _ => polling terms source
  | receiving terms _ => receiving terms source
  | sending terms _ packet => sending terms source packet
  | pump => pump

variable {config : Config} {node : Int32} {queue : QueueState} {pump : Pump} {step : Step}

theorem inHand_step (h : pump.step? config node true queue = some step) (hqueue : queue ≠ .dropped) :
    step.forwarded.toList ++ (step.next.inHand node).toList = (pump.inHand node).toList := by
  cases pump with
  | greeting source sink =>
    cases h
    cases hresult : (Handshake.negotiate config.version source sink).result with
    | error error | ok version =>
      simp only [afterGreeting, hresult]
      rfl
  | receiving terms source =>
    cases h
    cases hread : Packet.receive terms source with
    | error error rest =>
      simp only [afterReceipt, inHand, hread]
      rfl
    | ok packet? rest =>
      cases packet? with
      | none | some packet =>
        simp only [afterReceipt, inHand, hread]
        rfl
  | sending terms source packet =>
    cases queue with
    | roomy =>
      cases h
      rfl
    | full => cases h
    | dropped => exact absurd rfl hqueue
  | refused error | polling terms source | ended error =>
    cases h
    rfl
  | stopped result => cases h

theorem step?_forwarded {cancelled : Bool}
    (h : pump.step? config node cancelled queue = some step) :
    step.forwarded = none ∨ queue = .roomy := by
  cases pump with
  | greeting source sink =>
    cases h
    exact .inl (outlook_afterGreeting config node source sink).1
  | receiving terms source =>
    cases h
    exact .inl (outlook_afterReceipt config node terms source).1
  | sending terms source packet =>
    cases queue with
    | roomy => exact .inr rfl
    | full => cases h
    | dropped =>
      cases h
      exact .inl rfl
  | refused error | polling terms source =>
    cases cancelled <;> cases h <;> exact .inl rfl
  | ended error =>
    cases h
    cases cancelled <;> cases error <;> exact .inl rfl
  | stopped result => cases h

theorem sending_of_step?_eq_none {cancelled : Bool}
    (h : pump.step? config node cancelled queue = none) (hrunning : pump.result? = none) :
    queue = .full ∧ ∃ terms source packet, pump = sending terms source packet := by
  cases pump with
  | sending terms source packet =>
    cases queue with
    | full => exact ⟨rfl, terms, source, packet, rfl⟩
    | roomy | dropped => cases h
  | polling terms source => cases cancelled <;> cases h
  | stopped result => cases hrunning
  | _ => cases h

end Pump

theorem sum_map_set {α : Type} (f : α → Nat) {as : List α} {i : Nat} {a : α} (h : as[i]? = some a)
    (b : α) : ((as.set i b).map f).sum + f a = (as.map f).sum + f b := by
  induction as generalizing i with
  | nil => cases h
  | cons first rest ih =>
    cases i with
    | zero =>
      cases h
      simp only [List.set_cons_zero, List.map_cons, List.sum_cons]
      omega
    | succ i =>
      have hrest := ih h
      simp only [List.set_cons_succ, List.map_cons, List.sum_cons]
      omega

namespace Relay

def close (relay : Relay) (i : Nat) (source : Source) (sink : Sink) : Relay :=
  { relay with
    attachments := relay.attachments.modify i fun a => { a with pump := a.pump.closed source sink } }

inductive PumpStep (relay : Relay) : Relay → Prop where
  | mk {i : Nat} {attachment : Attachment} {step : Pump.Step} :
      relay.attachments[i]? = some attachment →
      attachment.pump.step? relay.config attachment.node relay.cancelled relay.queueState =
        some step →
      PumpStep relay (relay.pumped i attachment step)

abbrev PumpsTo : Relay → Relay → Prop :=
  Relation.ReflTransGen PumpStep

/-- A relay in its shutdown: cancelled while its receiver is alive, then its streams closed one by
one. Its pumps may step at any time, its consumer takes nothing. -/
inductive Closing (config : Config) (peers : List Peer) : Relay → Prop where
  | cancel {relay : Relay} :
      Serves config peers relay → relay.receiving = true →
      Closing config peers { relay with cancelled := true }
  | close {relay : Relay} (i : Nat) (source : Source) (sink : Sink) :
      Closing config peers relay → Closing config peers (relay.close i source sink)
  | pump {mid last : Relay} :
      Closing config peers mid → PumpStep mid last → Closing config peers last

def Moves (relay : Relay) (attachment : Attachment) : Prop :=
  attachment.pump.result? = none →
    (attachment.pump.step? relay.config attachment.node relay.cancelled relay.queueState).isSome

def inHand (relay : Relay) : List Packet :=
  relay.attachments.flatMap fun a => (a.pump.inHand a.node).toList

def load (relay : Relay) : Nat :=
  relay.queue.length + relay.inHand.length

def stepsLeft (relay : Relay) : Nat :=
  (relay.attachments.map fun a => a.pump.stepsLeft a.node).sum

variable {config : Config} {peers : List Peer} {relay mid last : Relay}

theorem lt_of_roomy (h : relay.queueState = .roomy) : relay.queue.length < relay.capacity := by
  rw [queueState] at h
  split at h
  · cases h
  · split at h
    · assumption
    · cases h

theorem le_of_full (h : relay.queueState = .full) : relay.capacity ≤ relay.queue.length := by
  rw [queueState] at h
  split at h
  · cases h
  · split at h
    · cases h
    · next hfull => exact Nat.not_lt.1 hfull

theorem queue_le_of_pumped {i : Nat} {attachment : Attachment} {step : Pump.Step}
    (h : relay.queue.length ≤ relay.capacity)
    (hstep : attachment.pump.step? relay.config attachment.node relay.cancelled relay.queueState =
      some step) :
    (relay.pumped i attachment step).queue.length ≤ (relay.pumped i attachment step).capacity := by
  change (relay.queue ++ step.forwarded.toList.map (Arrival.mk i)).length ≤ relay.capacity
  rcases Pump.step?_forwarded hstep with hnone | hroomy
  · rw [hnone]
    simpa using h
  · have hroom := lt_of_roomy hroomy
    have hone : step.forwarded.toList.length ≤ 1 := Option.length_toList_le
    rw [List.length_append, List.length_map]
    omega

theorem queue_le_capacity (h : Serves config peers relay) :
    relay.queue.length ≤ relay.capacity := by
  induction h with
  | start => exact Nat.zero_le _
  | attach peer _ ih => exact ih
  | step _ hstep ih =>
    cases hstep with
    | pump _ hstep => exact queue_le_of_pumped ih hstep
    | take _ hqueue =>
      rw [hqueue] at ih
      exact Nat.le_of_succ_le ih
    | cancel => exact ih
    | drop => exact Nat.zero_le _

structure ShutDown (relay : Relay) : Prop where
  cancelled : relay.cancelled = true
  live : relay.receiving = true
  queue_le : relay.queue.length ≤ relay.capacity

theorem ShutDown.pumpStep (h : relay.ShutDown) (hstep : PumpStep relay last) : last.ShutDown := by
  cases hstep with
  | mk hi hstep => exact ⟨h.cancelled, h.live, queue_le_of_pumped h.queue_le hstep⟩

theorem shutDown_of_closing (h : Closing config peers relay) : relay.ShutDown := by
  induction h with
  | cancel hserves hlive =>
    have hqueue := queue_le_capacity hserves
    exact ⟨rfl, hlive, hqueue⟩
  | close i source sink _ ih => exact ⟨ih.cancelled, ih.live, ih.queue_le⟩
  | pump _ hstep ih => exact ih.pumpStep hstep

theorem ShutDown.load_eq (h : relay.ShutDown) (hstep : PumpStep relay last) :
    last.load = relay.load := by
  cases hstep with
  | @mk i attachment step hi hstep =>
    rw [h.cancelled] at hstep
    have hhand := congrArg List.length (Pump.inHand_step hstep (queueState_ne_dropped h.live))
    have hsum := sum_map_set (fun a => (a.pump.inHand a.node).toList.length) hi
      { attachment with pump := step.next }
    simp only [load, inHand, pumped, List.length_append, List.length_map, List.length_flatMap]
      at hhand hsum ⊢
    omega

theorem ShutDown.stepsLeft_lt (h : relay.ShutDown) (hstep : PumpStep relay last) :
    last.stepsLeft < relay.stepsLeft := by
  cases hstep with
  | @mk i attachment step hi hstep =>
    rw [h.cancelled] at hstep
    have hless := (Pump.step?_windsUp hstep).steps
    have hsum := sum_map_set (fun a => a.pump.stepsLeft a.node) hi
      { attachment with pump := step.next }
    simp only [stepsLeft, pumped] at hsum ⊢
    omega

theorem sending_of_not_moves {attachment : Attachment} (h : ¬relay.Moves attachment) :
    relay.queueState = .full ∧
      ∃ terms source packet, attachment.pump = .sending terms source packet := by
  rw [Moves, Classical.not_imp, Option.not_isSome_iff_eq_none] at h
  exact Pump.sending_of_step?_eq_none h.2 h.1

theorem moves_of_load_le (h : relay.load ≤ relay.capacity) {attachment : Attachment}
    (hmem : attachment ∈ relay.attachments) : relay.Moves attachment := by
  by_cases hmoves : relay.Moves attachment
  · exact hmoves
  · obtain ⟨hfull, terms, source, packet, hpump⟩ := sending_of_not_moves hmoves
    have hqueue := le_of_full hfull
    have hhand : packet ∈ (attachment.pump.inHand attachment.node).toList := by
      rw [hpump]
      exact List.mem_cons_self
    have hpos : 0 < relay.inHand.length :=
      List.length_pos_of_mem (List.mem_flatMap.2 ⟨attachment, hmem, hhand⟩)
    rw [load] at h
    omega

theorem ShutDown.exists_still {relay : Relay} (h : relay.ShutDown) :
    ∃ last, PumpsTo relay last ∧ ∀ next, ¬PumpStep last next := by
  by_cases hstep : ∃ next, PumpStep relay next
  · obtain ⟨next, hnext⟩ := hstep
    have hless := h.stepsLeft_lt hnext
    obtain ⟨last, hlast, hstill⟩ := (h.pumpStep hnext).exists_still
    exact ⟨last, .head hnext hlast, hstill⟩
  · exact ⟨relay, .refl, fun next hnext => hstep ⟨next, hnext⟩⟩
termination_by relay.stepsLeft

theorem ShutDown.stopped_of_still (h : relay.ShutDown) (hstill : ∀ next, ¬PumpStep relay next) :
    (∀ attachment ∈ relay.attachments, attachment.pump.result? ≠ none) ↔
      relay.load ≤ relay.capacity := by
  constructor
  · intro hstopped
    have hnone : relay.inHand = [] := by
      refine List.flatMap_eq_nil_iff.2 fun attachment hmem => ?_
      obtain ⟨result, hresult⟩ := Option.ne_none_iff_exists'.1 (hstopped attachment hmem)
      rw [Pump.stopped_of_result? hresult]
      rfl
    rw [load, hnone]
    exact h.queue_le
  · intro hload attachment hmem hrunning
    have hmoves := moves_of_load_le hload hmem hrunning
    obtain ⟨step, hstep⟩ := Option.isSome_iff_exists.1 hmoves
    obtain ⟨i, hi⟩ := List.mem_iff_getElem?.1 hmem
    exact hstill _ (.mk hi hstep)

theorem ShutDown.pumpsTo (h : relay.ShutDown) (hlast : PumpsTo relay last) :
    last.ShutDown ∧ last.load = relay.load ∧ last.capacity = relay.capacity := by
  induction hlast with
  | refl => exact ⟨h, rfl, rfl⟩
  | tail _ hstep ih =>
    obtain ⟨hmid, hload, hcapacity⟩ := ih
    refine ⟨hmid.pumpStep hstep, (hmid.load_eq hstep).trans hload, ?_⟩
    cases hstep with
    | mk => exact hcapacity

theorem shutdown_waits_iff_overloaded (h : Closing config peers relay) :
    (∀ last : Relay, PumpsTo relay last → ∀ attachment ∈ last.attachments,
      ¬last.Moves attachment → last.queueState = .full ∧
        ∃ terms source packet, attachment.pump = .sending terms source packet) ∧
    ((∀ last : Relay, PumpsTo relay last → ∀ attachment ∈ last.attachments,
      last.Moves attachment) ↔ relay.load ≤ relay.capacity) ∧
    (∃ last, PumpsTo relay last ∧ ∀ next, ¬PumpStep last next) ∧
    ∀ last : Relay, PumpsTo relay last → (∀ next, ¬PumpStep last next) →
      ((∀ attachment ∈ last.attachments, attachment.pump.result? ≠ none) ↔
        relay.load ≤ relay.capacity) := by
  have hshut := shutDown_of_closing h
  have hstopped (last : Relay) (hlast : PumpsTo relay last)
      (hstill : ∀ next, ¬PumpStep last next) :
      (∀ attachment ∈ last.attachments, attachment.pump.result? ≠ none) ↔
        relay.load ≤ relay.capacity := by
    obtain ⟨hlate, hload, hcapacity⟩ := hshut.pumpsTo hlast
    rw [← hload, ← hcapacity]
    exact hlate.stopped_of_still hstill
  obtain ⟨last, hlast, hstill⟩ := hshut.exists_still
  refine ⟨fun _ _ _ _ => sending_of_not_moves, ⟨?_, ?_⟩, ⟨last, hlast, hstill⟩, hstopped⟩
  · intro hmoves
    refine (hstopped last hlast hstill).1 fun attachment hmem hrunning => ?_
    obtain ⟨step, hstep⟩ := Option.isSome_iff_exists.1 (hmoves last hlast attachment hmem hrunning)
    obtain ⟨i, hi⟩ := List.mem_iff_getElem?.1 hmem
    exact hstill _ (.mk hi hstep)
  · intro hload later hlater attachment hmem
    obtain ⟨_, hsame, hcapacity⟩ := hshut.pumpsTo hlater
    rw [← hsame, ← hcapacity] at hload
    exact moves_of_load_le hload hmem

theorem shutdown_finishes_where_the_queue_has_room :
    let config : Config := { queueDepth := 2 }
    let started : List UInt8 := [1, 0, 0, 0, 2, 0, 0, 0] ++ List.replicate 12 0 ++ [0, 0, 0]
    let peer : Peer := ⟨1, ⟨Handshake.greeting 3 ++ started ++ started, none⟩, .endless⟩
    ∃ relay, Closing config [peer] relay ∧ relay.load = 2 ∧ relay.capacity = 2 ∧
      ∀ last : Relay, PumpsTo relay last → ∀ attachment ∈ last.attachments,
        last.Moves attachment := by
  intro config started peer
  let busy := [0, 0, 0, 0, 0, 0].foldl Relay.advance
    (Relay.attach { config } 1 peer.source peer.sink)
  let relay := Relay.close { busy with cancelled := true } 0 ⟨[], none⟩ (.limited 0 .brokenPipe)
  have hserves : Serves config [peer] busy := (Serves.attach peer .start).advances _
  have hlive : busy.receiving = true := by decide +kernel
  have hclosing : Closing config [peer] relay := .close 0 _ _ (.cancel hserves hlive)
  have hload : relay.load = 2 := by decide +kernel
  have hcapacity : relay.capacity = 2 := by decide +kernel
  have hfits : relay.load ≤ relay.capacity := Nat.le_of_eq (hload.trans hcapacity.symm)
  exact ⟨relay, hclosing, hload, hcapacity, (shutdown_waits_iff_overloaded hclosing).2.1.2 hfits⟩

theorem full_queue_blocks_the_shutdown :
    let config : Config := { queueDepth := 1 }
    let started : List UInt8 := [1, 0, 0, 0, 2, 0, 0, 0] ++ List.replicate 12 0 ++ [0, 0, 0]
    let peer : Peer := ⟨1, ⟨Handshake.greeting 3 ++ started ++ started, none⟩, .endless⟩
    ∃ relay, Closing config [peer] relay ∧ relay.receiving = true ∧
      relay.attachments.length = 1 ∧
      (∀ attachment ∈ relay.attachments, ¬relay.Moves attachment) ∧
      ∀ next, ¬PumpStep relay next := by
  intro config started peer
  let busy := [0, 0, 0, 0, 0, 0].foldl Relay.advance
    (Relay.attach { config } 1 peer.source peer.sink)
  let relay := Relay.close { busy with cancelled := true } 0 ⟨[], none⟩ (.limited 0 .brokenPipe)
  have hserves : Serves config [peer] busy := (Serves.attach peer .start).advances _
  have hlive : busy.receiving = true := by decide +kernel
  have hclosing : Closing config [peer] relay := .close 0 _ _ (.cancel hserves hlive)
  have hlength : relay.attachments.length = 1 := by decide +kernel
  have hwaits : ∀ attachment ∈ relay.attachments, attachment.pump.result? = none ∧
      (attachment.pump.step? relay.config attachment.node relay.cancelled
        relay.queueState).isSome = false := by
    decide +kernel
  refine ⟨relay, hclosing, (shutDown_of_closing hclosing).live, hlength, ?_, ?_⟩
  · intro attachment hmem hmoves
    obtain ⟨hrunning, hnone⟩ := hwaits attachment hmem
    rw [hmoves hrunning] at hnone
    cases hnone
  · rintro next ⟨hi, hstep⟩
    obtain ⟨_, hnone⟩ := hwaits _ (List.mem_of_getElem? hi)
    rw [hstep] at hnone
    cases hnone

end Relay

end BuildFeed
