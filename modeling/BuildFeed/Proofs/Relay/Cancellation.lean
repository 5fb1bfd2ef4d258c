import BuildFeed.Proofs.Relay.Outlook

namespace BuildFeed.Pump

def inHand (node : Int32) : Pump → Option Packet
  | receiving terms source =>
      match Packet.receive terms source with
      | .ok (some packet) _ => some (packet.attributedTo node)
      | _ => none
  | sending _ _ packet => some packet
  | _ => none

def stepsLeft (node : Int32) : Pump → Nat
  | receiving terms source => if (inHand node (receiving terms source)).isSome then 3 else 2
  | greeting _ _ | sending _ _ _ => 2
  | refused _ | polling _ _ | ended _ => 1
  | stopped _ => 0

variable {config : Config} {node : Int32} {queue : QueueState} {pump : Pump} {step : Step}

structure Step.WindsUp (node : Int32) (queue : QueueState) (pump : Pump) (step : Step) : Prop where
  packets : step.forwarded.toList ++ (step.next.inHand node).toList <+: (pump.inHand node).toList
  steps : step.next.stepsLeft node < pump.stepsLeft node
  result : ∀ result, step.next = stopped result →
    result = .ok .cancelled ∨
      result = .ok .receiverDropped ∧ queue = .dropped ∧ (pump.inHand node).isSome = true

theorem afterGreeting_windsUp (config : Config) (node : Int32) (queue : QueueState)
    (source : Source) (sink : Sink) :
    (afterGreeting config node source sink).WindsUp node queue (greeting source sink) := by
  cases hresult : (Handshake.negotiate config.version source sink).result with
  | error error =>
    simp only [afterGreeting, hresult]
    exact ⟨List.nil_prefix, Nat.lt_add_one 1, fun _ hstopped => by cases hstopped⟩
  | ok version =>
    simp only [afterGreeting, hresult]
    exact ⟨List.nil_prefix, Nat.lt_add_one 1, fun _ hstopped => by cases hstopped⟩

theorem afterReceipt_windsUp (node : Int32) (queue : QueueState) (terms : Terms)
    (source : Source) :
    (afterReceipt node terms source).WindsUp node queue (receiving terms source) := by
  cases hread : Packet.receive terms source with
  | error error rest =>
    have hhand : inHand node (receiving terms source) = none := by simp only [inHand, hread]
    simp only [afterReceipt, hread]
    refine ⟨List.nil_prefix, ?_, fun _ hstopped => by cases hstopped⟩
    rw [stepsLeft, stepsLeft, hhand]
    exact Nat.lt_add_one 1
  | ok packet? rest =>
    cases packet? with
    | none =>
      have hhand : inHand node (receiving terms source) = none := by simp only [inHand, hread]
      simp only [afterReceipt, hread]
      refine ⟨List.nil_prefix, ?_, fun _ hstopped => by cases hstopped⟩
      rw [stepsLeft, stepsLeft, hhand]
      exact Nat.lt_add_one 1
    | some packet =>
      have hhand : inHand node (receiving terms source) = some (packet.attributedTo node) := by
        simp only [inHand, hread]
      simp only [afterReceipt, hread]
      refine ⟨?_, ?_, fun _ hstopped => by cases hstopped⟩
      · rw [hhand]
        exact List.prefix_rfl
      · rw [stepsLeft, stepsLeft, hhand]
        exact Nat.lt_add_one 2

theorem step?_windsUp (h : pump.step? config node true queue = some step) :
    step.WindsUp node queue pump := by
  cases pump with
  | greeting source sink =>
    cases h
    exact afterGreeting_windsUp config node queue source sink
  | receiving terms source =>
    cases h
    exact afterReceipt_windsUp node queue terms source
  | refused error | polling terms source | ended error =>
    cases h
    refine ⟨List.nil_prefix, Nat.zero_lt_one, ?_⟩
    rintro result ⟨⟩
    exact .inl rfl
  | sending terms source packet =>
    cases queue with
    | full => cases h
    | roomy =>
      cases h
      exact ⟨List.prefix_rfl, Nat.lt_add_one 1, nofun⟩
    | dropped =>
      cases h
      refine ⟨List.nil_prefix, Nat.zero_lt_two, ?_⟩
      rintro result ⟨⟩
      exact .inr ⟨rfl, rfl, rfl⟩
  | stopped result => cases h

theorem step?_eq_none (h : pump.step? config node true queue = none) :
    (∃ result, pump = stopped result) ∨ queue = .full ∧ (pump.inHand node).isSome = true := by
  cases pump with
  | stopped result => exact .inl ⟨result, rfl⟩
  | sending terms source packet =>
    cases queue with
    | full => exact .inr ⟨rfl, rfl⟩
    | roomy | dropped => cases h
  | _ => cases h

theorem Step.WindsUp.inHand_next (h : step.WindsUp node queue pump)
    (hnone : pump.inHand node = none) : step.next.inHand node = none := by
  have hnil := h.packets
  rw [hnone] at hnil
  exact Option.toList_eq_nil_iff.1 (List.append_eq_nil_iff.1 (List.prefix_nil.1 hnil)).2

theorem runThrough_windsUp (config : Config) (node : Int32) (moments : List QueueState)
    (pump : Pump) :
    let late := runThrough config node moments pump true
    late.packets ++ (late.pump.inHand node).toList <+: (pump.inHand node).toList ∧
      ∀ result, late.pump = stopped result →
        pump = stopped result ∨ result = .ok .cancelled ∨
          result = .ok .receiverDropped ∧ .dropped ∈ moments ∧ (pump.inHand node).isSome = true := by
  induction moments generalizing pump with
  | nil => exact ⟨List.prefix_rfl, fun _ => .inl⟩
  | cons queue moments ih =>
    simp only [runThrough]
    cases hstep : pump.step? config node true queue with
    | none =>
      obtain ⟨hpackets, hresult⟩ := ih pump
      refine ⟨hpackets, fun result hlate => ?_⟩
      rcases hresult result hlate with hstopped | hcancelled | ⟨hdropped, hmem, hhand⟩
      · exact .inl hstopped
      · exact .inr (.inl hcancelled)
      · exact .inr (.inr ⟨hdropped, List.mem_cons_of_mem queue hmem, hhand⟩)
    | some step =>
      have hwinds := step?_windsUp hstep
      obtain ⟨hpackets, hresult⟩ := ih step.next
      refine ⟨?_, fun result hlate => ?_⟩
      · refine List.IsPrefix.trans ?_ hwinds.packets
        simp only [Run.after]
        rw [List.append_assoc]
        exact (List.prefix_append_right_inj _).2 hpackets
      · rcases hresult result hlate with hstopped | hcancelled | ⟨hdropped, hmem, hhand⟩
        · rcases hwinds.result result hstopped with hcancelled | ⟨hdropped, rfl, hhand⟩
          · exact .inr (.inl hcancelled)
          · exact .inr (.inr ⟨hdropped, List.mem_cons_self, hhand⟩)
        · exact .inr (.inl hcancelled)
        · refine .inr (.inr ⟨hdropped, List.mem_cons_of_mem queue hmem, ?_⟩)
          cases hpump : pump.inHand node with
          | some packet => rfl
          | none =>
            rw [hwinds.inHand_next hpump] at hhand
            cases hhand

theorem runThrough_stops (config : Config) {node : Int32} {moments : List QueueState} {pump : Pump}
    (h : pump.stepsLeft node ≤
      moments.countP fun queue => queue ≠ .full ∨ pump.inHand node = none) :
    ∃ result, (runThrough config node moments pump true).pump = stopped result := by
  induction moments generalizing pump with
  | nil =>
    cases pump with
    | stopped result => exact ⟨result, rfl⟩
    | receiving terms source =>
      rw [stepsLeft] at h
      split at h <;> cases h
    | _ => cases h
  | cons queue moments ih =>
    rw [List.countP_cons] at h
    simp only [runThrough]
    cases hstep : pump.step? config node true queue with
    | none =>
      rcases step?_eq_none hstep with ⟨result, rfl⟩ | ⟨hfull, hhand⟩
      · exact ⟨result, congrArg Run.pump (runThrough_stopped config node moments result true)⟩
      · refine ih ?_
        rw [if_neg (by simp [hfull, Option.isSome_iff_ne_none.1 hhand])] at h
        exact h
    | some step =>
      have hwinds := step?_windsUp hstep
      refine ih ?_
      -- no moment counts less after the step: a pump that holds no packet takes up none
      have hmono : (moments.countP fun queue => queue ≠ .full ∨ pump.inHand node = none) ≤
          moments.countP fun queue => queue ≠ .full ∨ step.next.inHand node = none := by
        refine List.countP_mono_left fun queue _ hqueue => ?_
        rw [decide_eq_true_iff] at hqueue ⊢
        exact hqueue.imp_right hwinds.inHand_next
      have hsteps := hwinds.steps
      split at h <;> omega

theorem runThrough_inOrder (config : Config) (node : Int32) (moments : List QueueState)
    (pump : Pump) (cancelled : Bool) :
    let run := runThrough config node moments pump cancelled
    run.packets ++ (run.pump.outlook config node).packets <+: (pump.outlook config node).packets := by
  induction moments generalizing pump with
  | nil => exact List.prefix_rfl
  | cons queue moments ih =>
    simp only [runThrough]
    cases hstep : pump.step? config node cancelled queue with
    | none => exact ih pump
    | some step =>
      refine List.IsPrefix.trans ?_ (outlook_step_inOrder hstep)
      simp only [Run.after]
      rw [List.append_assoc]
      exact (List.prefix_append_right_inj _).2 (ih step.next)

theorem stepsLeft_le_three (node : Int32) (pump : Pump) : pump.stepsLeft node ≤ 3 := by
  cases pump with
  | receiving terms source =>
    rw [stepsLeft]
    split <;> decide
  | _ => simp [stepsLeft]

theorem stepsLeft_le_two (h : pump.inHand node = none) : pump.stepsLeft node ≤ 2 := by
  cases pump with
  | receiving terms source =>
    rw [stepsLeft, h]
    decide
  | _ => simp [stepsLeft]

theorem runThrough_of_nothing_inHand (config : Config) {moments : List QueueState}
    (hhand : pump.inHand node = none) (hrunning : ∀ result, pump ≠ stopped result) :
    let late := runThrough config node moments pump true
    late.packets = [] ∧ (2 ≤ moments.length → late.pump = stopped (.ok .cancelled)) := by
  obtain ⟨hpackets, hresult⟩ := runThrough_windsUp config node moments pump
  rw [hhand] at hpackets
  refine ⟨(List.append_eq_nil_iff.1 (List.prefix_nil.1 hpackets)).1, fun hlong => ?_⟩
  have hcount : (moments.countP fun queue => queue ≠ .full ∨ pump.inHand node = none) =
      moments.length :=
    List.countP_eq_length.2 fun _ _ => decide_eq_true (.inr hhand)
  obtain ⟨result, hstopped⟩ := runThrough_stops config
    (hcount ▸ Nat.le_trans (stepsLeft_le_two hhand) hlong)
  rcases hresult result hstopped with hearly | rfl | ⟨_, _, hsome⟩
  · exact absurd hearly (hrunning result)
  · exact hstopped
  · rw [hhand] at hsome
    cases hsome

theorem cancellation_is_prompt_and_final (config : Config) (node : Int32) (source : Source)
    (sink : Sink) (before after : List QueueState) :
    let early := runThrough config node before (greeting source sink)
    let late := runThrough config node after early.pump true
    early.packets ++ late.packets <+: (Outlook.ofNode config node source sink).packets ∧
      late.packets.length ≤ 1 ∧
      (before = [] → late.packets = [] ∧
        (2 ≤ after.length → late.pump = stopped (.ok .cancelled))) ∧
      ((∀ result, early.pump ≠ stopped result) →
        (early.pump.inHand node = none → late.packets = [] ∧
          (2 ≤ after.length → late.pump = stopped (.ok .cancelled))) ∧
        (∀ result, late.pump = stopped result →
          result = .ok .cancelled ∨ result = .ok .receiverDropped ∧ .dropped ∈ after) ∧
        (3 ≤ after.countP (· ≠ .full) → ∃ result, late.pump = stopped result)) := by
  intro early late
  obtain ⟨hpackets, hresult⟩ := runThrough_windsUp config node after early.pump
  refine ⟨?_, ?_, ?_, fun hrunning => ⟨?_, ?_, ?_⟩⟩
  · have hearly := runThrough_inOrder config node before (greeting source sink) false
    have hlate := runThrough_inOrder config node after early.pump true
    have hahead : late.packets <+: (early.pump.outlook config node).packets :=
      (List.prefix_append _ _).trans hlate
    exact ((List.prefix_append_right_inj early.packets).2 hahead).trans hearly
  · have hlength := ((List.prefix_append late.packets _).trans hpackets).length_le
    exact Nat.le_trans hlength (Option.length_toList_le)
  · rintro rfl
    exact runThrough_of_nothing_inHand config rfl nofun
  · exact fun hhand => runThrough_of_nothing_inHand config hhand hrunning
  · intro result hstopped
    rcases hresult result hstopped with hearly | hcancelled | ⟨hdropped, hmem, _⟩
    · exact absurd hearly (hrunning result)
    · exact .inl hcancelled
    · exact .inr ⟨hdropped, hmem⟩
  · intro hroom
    refine runThrough_stops config (Nat.le_trans (stepsLeft_le_three node early.pump)
      (Nat.le_trans hroom (List.countP_mono_left fun queue _ hqueue => ?_)))
    rw [decide_eq_true_iff] at hqueue ⊢
    exact .inl hqueue

theorem cancelled_read_is_not_reported :
    let started : List UInt8 := [1, 0, 0, 0, 2, 0, 0, 0] ++ List.replicate 12 0 ++ [0, 0, 0]
    let source : Source := ⟨Handshake.greeting 3 ++ started ++ [77, 0, 0, 0], none⟩
    let before : List QueueState := [.roomy, .roomy]
    let after : List QueueState := [.roomy, .full, .roomy, .roomy]
    let early := runThrough {} 2 before (greeting source)
    let late := runThrough {} 2 after early.pump true
    early.pump = receiving ⟨3, {}⟩ ⟨started ++ [77, 0, 0, 0], none⟩ ∧
      3 ≤ after.countP (· ≠ .full) ∧ .dropped ∉ after ∧
      late.packets.length ≤ 1 ∧ late.pump = stopped (.ok .cancelled) := by
  intro started source before after early late
  obtain ⟨_, hone, _, hrunning⟩ :=
    cancellation_is_prompt_and_final {} 2 source .endless before after
  have hearly : early.pump = receiving ⟨3, {}⟩ ⟨started ++ [77, 0, 0, 0], none⟩ := rfl
  obtain ⟨_, hresult, hstops⟩ := hrunning fun result hstopped => by cases hearly ▸ hstopped
  have hroom : 3 ≤ after.countP (· ≠ .full) := by decide
  have hlive : .dropped ∉ after := by decide
  obtain ⟨result, hstopped⟩ := hstops hroom
  rcases hresult result hstopped with rfl | ⟨_, hdropped⟩
  · exact ⟨hearly, hroom, hlive, hone, hstopped⟩
  · exact absurd hdropped hlive

end BuildFeed.Pump
