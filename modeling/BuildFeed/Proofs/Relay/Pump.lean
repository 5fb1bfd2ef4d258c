import BuildFeed.Proofs.Framing.Packet
import BuildFeed.Proofs.Relay.Handshake
import BuildFeed.Relay.Pump

namespace BuildFeed.Pump

variable {config : Config} {node : Int32} {terms : Terms} {s : Source}

def ending : Option ProtocolError → PumpResult
  | none => .ok .closed
  | some error => .error (.protocol error)

structure Run.Delivers (run : Run) (packets : List Packet) (result : PumpResult) : Prop where
  pump : run.pump = stopped result
  packets : run.packets = packets
  written : run.written = []

theorem runUpTo_stopped (config : Config) (node : Int32) (cancelled : Bool) (queue : QueueState)
    (fuel : Nat) (result : PumpResult) :
    runUpTo config node cancelled queue fuel (stopped result) = { pump := stopped result } := by
  cases fuel <;> rfl

theorem runUpTo_ended (config : Config) (node : Int32) (fuel : Nat) (error : Option ProtocolError) :
    (runUpTo config node false .roomy (fuel + 1) (ended error)).Delivers [] (ending error) := by
  have hrun : runUpTo config node false .roomy (fuel + 1) (ended error) =
      (runUpTo config node false .roomy fuel (afterEnd node error false).next).after
        (afterEnd node error false) := rfl
  have hnext : (afterEnd node error false).next = stopped (ending error) := by
    cases error <;> rfl
  have hquiet : (afterEnd node error false).written = [] ∧
      (afterEnd node error false).forwarded = none := by
    cases error <;> exact ⟨rfl, rfl⟩
  rw [hrun, hnext, runUpTo_stopped]
  refine ⟨rfl, ?_, ?_⟩
  · simp only [Run.after, hquiet.2]
    rfl
  · simp only [Run.after, hquiet.1]
    rfl

theorem runUpTo_polling_add_two (config : Config) (node : Int32) (fuel : Nat) (terms : Terms)
    (s : Source) :
    runUpTo config node false .roomy (fuel + 2) (polling terms s) =
      (runUpTo config node false .roomy fuel (afterReceipt node terms s).next).after
        (afterReceipt node terms s) := rfl

theorem runUpTo_sending (config : Config) (node : Int32) (fuel : Nat) (terms : Terms) (s : Source)
    (p : Packet) :
    runUpTo config node false .roomy (fuel + 1) (sending terms s p) =
      (runUpTo config node false .roomy fuel (polling terms s)).after
        { next := polling terms s, forwarded := some p } := rfl

theorem runUpTo_polling_of_end {error : Option ProtocolError}
    (h : afterReceipt node terms s = { next := ended error }) (fuel : Nat) :
    (runUpTo config node false .roomy (fuel + 3) (polling terms s)).Delivers [] (ending error) := by
  have hrun : runUpTo config node false .roomy (fuel + 3) (polling terms s) =
      runUpTo config node false .roomy (fuel + 1) (ended error) := by
    rw [runUpTo_polling_add_two, h]
    rfl
  rw [hrun]
  exact runUpTo_ended config node fuel error

theorem runUpTo_polling_of_packet {p : Packet} {t : Source}
    (h : Packet.receive terms s = .ok (some p) t) (fuel : Nat) :
    runUpTo config node false .roomy (fuel + 3) (polling terms s) =
      (runUpTo config node false .roomy fuel (polling terms t)).after
        { next := polling terms t, forwarded := some (p.attributedTo node) } := by
  have hreceipt : afterReceipt node terms s =
      { next := sending terms t (p.attributedTo node) } := by
    simp only [afterReceipt, h]
  rw [runUpTo_polling_add_two, hreceipt, runUpTo_sending]
  rfl

theorem runUpTo_polling {s : Source} {fuel : Nat} (h : 3 * s.bytes.length + 3 ≤ fuel) :
    (runUpTo config node false .roomy fuel (polling terms s)).Delivers
      ((Packet.receiveAll terms s).1.map (·.attributedTo node))
      (ending (Packet.receiveAll terms s).2) := by
  obtain ⟨fuel, rfl⟩ := Nat.exists_eq_add_of_le' (show 3 ≤ fuel by omega)
  cases hread : Packet.receive terms s with
  | error error t =>
      rw [Packet.receiveAll_of_error hread]
      exact runUpTo_polling_of_end (by simp only [afterReceipt, hread]) fuel
  | ok p? t =>
      cases p? with
      | none =>
          rw [Packet.receiveAll_of_none hread]
          exact runUpTo_polling_of_end (by simp only [afterReceipt, hread]) fuel
      | some p =>
          have hshort := Packet.receive_shortens hread
          have hfuel : 3 * t.bytes.length + 3 ≤ fuel := by omega
          have hrest := runUpTo_polling hfuel
          rw [Packet.receiveAll_of_some hread, runUpTo_polling_of_packet hread]
          refine ⟨hrest.pump, ?_, hrest.written⟩
          exact congrArg (p.attributedTo node :: ·) hrest.packets
termination_by s.bytes.length

theorem afterGreeting_of_accepted {theirs : Int32} (h : oldestVersion ≤ theirs) {sink : Sink}
    (hsink : (sink.accept (Handshake.greeting config.version)).fault = none) (node : Int32)
    (rest : List UInt8) (fault : Option StreamFault) :
    let step := afterGreeting config node ⟨Handshake.greeting theirs ++ rest, fault⟩ sink
    step.next = polling ⟨min config.version theirs, config.limits⟩ ⟨rest, fault⟩ ∧
      step.written = Handshake.greeting config.version ∧ step.forwarded = none := by
  obtain ⟨hresult, hwritten, hsource⟩ := Handshake.negotiate_append h hsink rest fault
  simp only [afterGreeting, hresult, hwritten, hsource, and_self]

theorem afterGreeting_append {theirs : Int32} (h : oldestVersion ≤ theirs) (rest : List UInt8)
    (fault : Option StreamFault) :
    let step := afterGreeting config node ⟨Handshake.greeting theirs ++ rest, fault⟩
    step.next = polling ⟨min config.version theirs, config.limits⟩ ⟨rest, fault⟩ ∧
      step.written = Handshake.greeting config.version ∧ step.forwarded = none :=
  afterGreeting_of_accepted h rfl node rest fault

theorem runUpTo_greeting {theirs : Int32} (h : oldestVersion ≤ theirs) {rest : List UInt8}
    {fault : Option StreamFault} {fuel : Nat} (hfuel : 3 * rest.length + 4 ≤ fuel) :
    let run := runUpTo config node false .roomy fuel
      (greeting ⟨Handshake.greeting theirs ++ rest, fault⟩)
    let received := Packet.receiveAll ⟨min config.version theirs, config.limits⟩ ⟨rest, fault⟩
    run.pump = stopped (ending received.2) ∧
      run.packets = received.1.map (·.attributedTo node) ∧
      run.written = Handshake.greeting config.version := by
  obtain ⟨fuel, rfl⟩ := Nat.exists_eq_add_of_le' (show 1 ≤ fuel by omega)
  obtain ⟨hnext, hwritten, hforwarded⟩ := afterGreeting_append h rest fault
  intro run received
  have hrun : run = (runUpTo config node false .roomy fuel
      (afterGreeting config node ⟨Handshake.greeting theirs ++ rest, fault⟩).next).after
        (afterGreeting config node ⟨Handshake.greeting theirs ++ rest, fault⟩) := rfl
  have hrest : 3 * rest.length + 3 ≤ fuel := by omega
  have hpolled : (runUpTo config node false .roomy fuel
      (polling ⟨min config.version theirs, config.limits⟩ ⟨rest, fault⟩)).Delivers
        (received.1.map (·.attributedTo node)) (ending received.2) := runUpTo_polling hrest
  rw [hnext] at hrun
  refine ⟨?_, ?_, ?_⟩
  · rw [hrun]
    exact hpolled.pump
  · rw [hrun, Run.after, hforwarded]
    exact hpolled.packets
  · rw [hrun, Run.after, hwritten, hpolled.written, List.append_nil]

def runThrough (config : Config) (node : Int32) (moments : List QueueState) (pump : Pump)
    (cancelled : Bool := false) : Run :=
  match moments with
  | [] => { pump }
  | queue :: moments =>
      match pump.step? config node cancelled queue with
      | none => runThrough config node moments pump cancelled
      | some step => (runThrough config node moments step.next cancelled).after step

theorem runThrough_stopped (config : Config) (node : Int32) (moments : List QueueState)
    (result : PumpResult) (cancelled : Bool) :
    runThrough config node moments (stopped result) cancelled = { pump := stopped result } := by
  induction moments with
  | nil => rfl
  | cons queue moments ih => exact ih

theorem step?_full (config : Config) (node : Int32) (pump : Pump) :
    pump.step? config node false .full = none ∨
      pump.step? config node false .full = pump.step? config node false .roomy := by
  cases pump with
  | sending terms s p => exact .inl rfl
  | _ => exact .inr rfl

theorem step?_roomy_none {pump : Pump} (h : pump.step? config node false .roomy = none) :
    ∃ result, pump = stopped result := by
  cases pump with
  | stopped result => exact ⟨result, rfl⟩
  | _ => cases h

theorem count_roomy_cons_le (queue : QueueState) (moments : List QueueState) :
    (queue :: moments).count .roomy ≤ moments.count .roomy + 1 := by
  rw [List.count_cons]
  split <;> omega

theorem runThrough_eq_runUpTo {moments : List QueueState} (h : .dropped ∉ moments) (pump : Pump) :
    ∃ fuel, moments.count .roomy ≤ fuel ∧
      runThrough config node moments pump = runUpTo config node false .roomy fuel pump := by
  induction moments generalizing pump with
  | nil => exact ⟨0, Nat.le_refl 0, rfl⟩
  | cons queue moments ih =>
      obtain ⟨hqueue, hmoments⟩ := not_or.1 fun hmem => h (List.mem_cons.2 hmem)
      have hmove (hsame : pump.step? config node false queue =
          pump.step? config node false .roomy) :
          ∃ fuel, (queue :: moments).count .roomy ≤ fuel ∧
            runThrough config node (queue :: moments) pump =
              runUpTo config node false .roomy fuel pump := by
        have hcount := count_roomy_cons_le queue moments
        cases hstep : pump.step? config node false .roomy with
        | none =>
            obtain ⟨result, rfl⟩ := step?_roomy_none hstep
            refine ⟨_, Nat.le_refl _, ?_⟩
            rw [runThrough_stopped, runUpTo_stopped]
        | some step =>
            obtain ⟨fuel, hfuel, hrun⟩ := ih hmoments step.next
            refine ⟨fuel + 1, by omega, ?_⟩
            simp only [runThrough, runUpTo, hsame, hstep, hrun]
      cases queue with
      | roomy => exact hmove rfl
      | dropped => exact absurd rfl hqueue
      | full =>
          rcases step?_full config node pump with hwait | hsame
          · obtain ⟨fuel, hfuel, hrun⟩ := ih hmoments pump
            refine ⟨fuel, hfuel, ?_⟩
            simp only [runThrough, hwait, hrun]
          · exact hmove hsame

theorem runUpTo_packets_prefix {m n : Nat} (h : m ≤ n) (pump : Pump) :
    (runUpTo config node false .roomy m pump).packets <+:
      (runUpTo config node false .roomy n pump).packets := by
  induction m generalizing n pump with
  | zero => exact List.nil_prefix
  | succ m ih =>
      obtain ⟨n, rfl⟩ := Nat.exists_eq_add_of_le' (show 1 ≤ n by omega)
      simp only [runUpTo]
      cases pump.step? config node false .roomy with
      | none => exact List.prefix_rfl
      | some step => exact (List.prefix_append_right_inj _).2 (ih (by omega) step.next)

theorem runThrough_of_runUpTo {moments : List QueueState} (h : .dropped ∉ moments) {pump : Pump}
    {bound : Nat} {packets : List Packet} {result : PumpResult}
    (hall : ∀ fuel, bound ≤ fuel →
      (runUpTo config node false .roomy fuel pump).packets = packets ∧
      (runUpTo config node false .roomy fuel pump).pump = stopped result) :
    (runThrough config node moments pump).packets <+: packets ∧
      (bound ≤ moments.count .roomy →
        (runThrough config node moments pump).packets = packets ∧
        (runThrough config node moments pump).pump = stopped result) := by
  obtain ⟨fuel, hcount, hrun⟩ := runThrough_eq_runUpTo h pump
  rw [hrun]
  constructor
  · rw [← (hall (max fuel bound) (Nat.le_max_right fuel bound)).1]
    exact runUpTo_packets_prefix (Nat.le_max_left fuel bound) pump
  · intro hmany
    exact hall fuel (Nat.le_trans hmany hcount)

end BuildFeed.Pump
