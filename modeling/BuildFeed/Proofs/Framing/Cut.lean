import BuildFeed.Proofs.Framing.Packet

namespace BuildFeed.Packet

variable {terms : Terms}

def placedFrom (terms : Terms) (start : Nat) (bytes : List UInt8) : List (Nat × Packet) :=
  match h : receive terms ⟨bytes, none⟩ with
  | .ok (some p) rest =>
      have _hshort := receive_shortens h
      let stop := start + (bytes.length - rest.bytes.length)
      (stop, p) :: placedFrom terms stop rest.bytes
  | _ => []
termination_by bytes.length

def placed (terms : Terms) (bytes : List UInt8) : List (Nat × Packet) :=
  placedFrom terms 0 bytes

theorem placedFrom_append {used : List UInt8} {p : Packet}
    (h : (readOne terms).Settles used (.ok p)) (start : Nat) (rest : List UInt8) :
    placedFrom terms start (used ++ rest) =
      (start + used.length, p) :: placedFrom terms (start + used.length) rest := by
  have hread : receive terms ⟨used ++ rest, none⟩ = .ok (some p) ⟨rest, none⟩ :=
    receive_extend h rest none
  have hlength : (used ++ rest).length - rest.length = used.length := by
    rw [List.length_append]
    omega
  rw [placedFrom]
  split
  · next q t hq =>
      cases hread.symm.trans hq
      simp only [hlength]
  · next hno => exact absurd hread (hno p _)

theorem placedFrom_of_not_some {bytes : List UInt8}
    (h : ∀ p s, receive terms ⟨bytes, none⟩ ≠ .ok (some p) s) (start : Nat) :
    placedFrom terms start bytes = [] := by
  rw [placedFrom]
  split
  · next q t hq => exact absurd hq (h q t)
  · rfl

theorem stream_induction (terms : Terms) {motive : List UInt8 → Prop}
    (packet : ∀ used p rest, (readOne terms).Settles used (.ok p) → motive rest →
      motive (used ++ rest))
    (ending : ∀ bytes, (∀ p s, receive terms ⟨bytes, none⟩ ≠ .ok (some p) s) → motive bytes)
    (bytes : List UInt8) : motive bytes := by
  by_cases h : ∃ p s, receive terms ⟨bytes, none⟩ = .ok (some p) s
  · obtain ⟨p, s, hread⟩ := h
    have hshort := receive_shortens hread
    obtain ⟨used, rest, rfl, rfl, hused⟩ := receive_eq_some hread
    exact packet used p rest hused (stream_induction terms packet ending rest)
  · exact ending bytes fun p s hread => h ⟨p, s, hread⟩
termination_by bytes.length

theorem lt_of_mem_placedFrom (bytes : List UInt8) :
    ∀ start, ∀ place ∈ placedFrom terms start bytes, start < place.1 := by
  induction bytes using stream_induction terms with
  | packet used p rest hused ih =>
      intro start place hplace
      have hpos := List.length_pos_iff.2 (ne_nil_of_settles hused)
      rw [placedFrom_append hused] at hplace
      rcases List.mem_cons.1 hplace with rfl | hplace
      · exact Nat.lt_add_of_pos_right hpos
      · have hlt := ih _ place hplace
        omega
  | ending bytes hno =>
      intro start place hplace
      rw [placedFrom_of_not_some hno] at hplace
      cases hplace

theorem placedFrom_filter_le {start stop : Nat} (h : stop ≤ start) (bytes : List UInt8) :
    (placedFrom terms start bytes).filter (·.1 ≤ stop) = [] := by
  rw [List.filter_eq_nil_iff]
  intro place hplace
  have hlt := lt_of_mem_placedFrom bytes start place hplace
  simp only [decide_eq_true_eq]
  omega

theorem not_mem_placedFrom {start stop : Nat} (h : stop ≤ start) (bytes : List UInt8) :
    stop ∉ (placedFrom terms start bytes).map Prod.fst := by
  intro hmem
  obtain ⟨place, hplace, rfl⟩ := List.mem_map.1 hmem
  have hlt := lt_of_mem_placedFrom bytes start place hplace
  omega

theorem receive_take_error {bytes : List UInt8}
    (hno : ∀ p s, receive terms ⟨bytes, none⟩ ≠ .ok (some p) s) {j : Nat}
    (hj : bytes.take j ≠ []) :
    ∃ error s, receive terms ⟨bytes.take j, none⟩ = .error error s ∧
      (error.isDesync = true → ∃ s, receive terms ⟨bytes, none⟩ = .error error s) ∧
      (error.isDesync = false →
        ∃ ending : StreamError, ending.isEnd = true ∧ error = .stream ending) := by
  rcases receive_cases terms hj none with ⟨used, rest, outcome, htake, hused, hread⟩ | hout
  · have hbytes : bytes = used ++ (rest ++ bytes.drop j) := by
      rw [← List.append_assoc, ← htake, List.take_append_drop]
    have hwhole := receive_extend hused (rest ++ bytes.drop j) none
    rw [← hbytes] at hwhole
    cases outcome with
    | ok p => exact absurd hwhole (hno p _)
    | error error =>
        -- what is malformed before the cut is malformed in the whole
        have hdesync := hused.desync error rfl
        refine ⟨error, _, hread, fun _ => ⟨_, hwhole⟩, ?_⟩
        intro hnot
        rw [hdesync] at hnot
        cases hnot
  · obtain ⟨ending, hend, hread⟩ := hout
    refine ⟨.stream ending, _, hread, ?_, fun _ => ⟨ending, hend, rfl⟩⟩
    intro hdesync
    cases hdesync

structure CutsTo (terms : Terms) (start : Nat) (bytes : List UInt8) (j : Nat) : Prop where
  packets : (receiveAll terms ⟨bytes.take j, none⟩).1 =
    ((placedFrom terms start bytes).filter (·.1 ≤ start + j)).map Prod.snd
  clean : (receiveAll terms ⟨bytes.take j, none⟩).2 = none ↔
    j = 0 ∨ start + j ∈ (placedFrom terms start bytes).map Prod.fst
  desync : ∀ error, (receiveAll terms ⟨bytes.take j, none⟩).2 = some error →
    error.isDesync = true → (receiveAll terms ⟨bytes, none⟩).2 = some error
  short : ∀ error, (receiveAll terms ⟨bytes.take j, none⟩).2 = some error →
    error.isDesync = false → ∃ ending : StreamError, ending.isEnd = true ∧ error = .stream ending

theorem cutsTo_zero (start : Nat) (bytes : List UInt8) : CutsTo terms start bytes 0 := by
  refine ⟨?_, ?_, ?_, ?_⟩
  · have hstop : start + 0 ≤ start := Nat.le_refl start
    rw [List.take_zero, receiveAll_nil, placedFrom_filter_le hstop]
    rfl
  · rw [List.take_zero, receiveAll_nil]
    exact ⟨fun _ => .inl rfl, fun _ => rfl⟩
  · intro error herror
    rw [List.take_zero, receiveAll_nil] at herror
    cases herror
  · intro error herror
    rw [List.take_zero, receiveAll_nil] at herror
    cases herror

theorem cutsTo_inside {used rest : List UInt8} {p : Packet}
    (hused : (readOne terms).Settles used (.ok p)) {j : Nat} (hpos : 0 < j) (hj : j < used.length)
    (start : Nat) : CutsTo terms start (used ++ rest) j := by
  obtain ⟨ending, hend, hread⟩ := receive_take_runsOut hused hpos hj rest none
  have hall : receiveAll terms ⟨(used ++ rest).take j, none⟩ = ([], some (.stream ending)) :=
    receiveAll_of_error hread
  refine ⟨?_, ?_, ?_, ?_⟩
  · have hhead : ¬start + used.length ≤ start + j := by omega
    rw [hall, placedFrom_append hused, List.filter_cons_of_neg (by simpa using hhead),
      placedFrom_filter_le (by omega)]
    rfl
  · rw [hall, placedFrom_append hused, List.map_cons, List.mem_cons]
    constructor
    · intro h
      cases h
    · rintro (h | h | h)
      · omega
      · omega
      · exact absurd h (not_mem_placedFrom (by omega) rest)
  · intro error herror hdesync
    rw [hall] at herror
    cases herror
    cases hdesync
  · intro error herror _
    rw [hall] at herror
    cases herror
    exact ⟨ending, hend, rfl⟩

theorem cutsTo_append {used rest : List UInt8} {p : Packet}
    (hused : (readOne terms).Settles used (.ok p)) {start j : Nat}
    (h : CutsTo terms (start + used.length) rest j) :
    CutsTo terms start (used ++ rest) (used.length + j) := by
  have hpos := List.length_pos_iff.2 (ne_nil_of_settles hused)
  have hstop : start + (used.length + j) = start + used.length + j := by omega
  have hcut : receiveAll terms ⟨(used ++ rest).take (used.length + j), none⟩ =
      (p :: (receiveAll terms ⟨rest.take j, none⟩).1,
        (receiveAll terms ⟨rest.take j, none⟩).2) := by
    rw [List.take_length_add_append]
    exact receiveAll_of_some (receive_extend hused (rest.take j) none)
  have hwhole := receiveAll_of_some (receive_extend hused rest none)
  refine ⟨?_, ?_, ?_, ?_⟩
  · rw [hcut, hstop, placedFrom_append hused, List.filter_cons_of_pos (by simp),
      List.map_cons, ← h.packets]
  · rw [hcut, hstop, placedFrom_append hused, List.map_cons, List.mem_cons]
    refine h.clean.trans ⟨?_, ?_⟩
    · rintro (hzero | hmem)
      · exact .inr (.inl (by omega))
      · exact .inr (.inr hmem)
    · rintro (hzero | heq | hmem)
      · omega
      · exact .inl (by omega)
      · exact .inr hmem
  · intro error herror hdesync
    rw [hcut] at herror
    rw [hwhole]
    exact h.desync error herror hdesync
  · intro error herror hnot
    rw [hcut] at herror
    exact h.short error herror hnot

theorem cutsTo_ending {bytes : List UInt8}
    (hno : ∀ p s, receive terms ⟨bytes, none⟩ ≠ .ok (some p) s) {j : Nat}
    (hj : bytes.take j ≠ []) (start : Nat) : CutsTo terms start bytes j := by
  obtain ⟨error, s, hread, hdesync, hshort⟩ := receive_take_error hno hj
  have hall := receiveAll_of_error hread
  refine ⟨?_, ?_, ?_, ?_⟩
  · rw [hall, placedFrom_of_not_some hno]
    rfl
  · rw [hall, placedFrom_of_not_some hno]
    constructor
    · intro h
      cases h
    · rintro (rfl | h)
      · exact absurd List.take_zero hj
      · cases h
  · intro e he h
    rw [hall] at he
    cases he
    obtain ⟨t, hbytes⟩ := hdesync h
    rw [receiveAll_of_error hbytes]
  · intro e he h
    rw [hall] at he
    cases he
    exact hshort h

theorem cutsTo_of_le (bytes : List UInt8) :
    ∀ start j, j ≤ bytes.length → CutsTo terms start bytes j := by
  induction bytes using stream_induction terms with
  | packet used p rest hused ih =>
      intro start j hj
      rw [List.length_append] at hj
      by_cases hin : j < used.length
      · rcases Nat.eq_zero_or_pos j with rfl | hpos
        · exact cutsTo_zero start _
        · exact cutsTo_inside hused hpos hin start
      -- the cut lies behind the first packet, so the rest of the stream is cut
      · obtain ⟨more, rfl⟩ := Nat.exists_eq_add_of_le (Nat.not_lt.1 hin)
        exact cutsTo_append hused (ih _ more (by omega))
  | ending bytes hno =>
      intro start j hj
      rcases Nat.eq_zero_or_pos j with rfl | hpos
      · exact cutsTo_zero start bytes
      · refine cutsTo_ending hno ?_ start
        rw [← List.length_pos_iff, List.length_take]
        omega

theorem placed_packets (terms : Terms) (bytes : List UInt8) :
    (placed terms bytes).map Prod.snd = (receiveAll terms ⟨bytes, none⟩).1 := by
  suffices ∀ start,
      (placedFrom terms start bytes).map Prod.snd = (receiveAll terms ⟨bytes, none⟩).1 from this 0
  induction bytes using stream_induction terms with
  | packet used p rest hused ih =>
      intro start
      rw [placedFrom_append hused, receiveAll_of_some (receive_extend hused rest none),
        List.map_cons, ih]
  | ending bytes hno =>
      intro start
      rw [placedFrom_of_not_some hno]
      cases h : receive terms ⟨bytes, none⟩ with
      | error error s => rw [receiveAll_of_error h]; rfl
      | ok p? s =>
          cases p? with
          | some p => exact absurd h (hno p s)
          | none => rw [receiveAll_of_none h]; rfl

theorem packet_is_fixed_by_its_bytes (terms : Terms) (bytes : List UInt8) :
    (∀ fault p s, receive terms ⟨bytes, fault⟩ = .ok (some p) s →
      ∃ k, 0 < k ∧ k ≤ bytes.length ∧ s = ⟨bytes.drop k, fault⟩ ∧
        (∀ rest fault, receive terms ⟨bytes.take k ++ rest, fault⟩ = .ok (some p) ⟨rest, fault⟩) ∧
        receive terms ⟨bytes.take 0, none⟩ = .ok none ⟨[], none⟩ ∧
        (∀ j, 0 < j → j < k → ∃ ending : StreamError, ending.isEnd = true ∧
          receive terms ⟨bytes.take j, none⟩ = .error (.stream ending) ⟨[], none⟩) ∧
        ∀ j < k, ∀ fault, receive terms ⟨bytes.take j, some fault⟩ =
          .error (.stream (.broken fault)) ⟨[], some fault⟩) ∧
    (∀ fault error s, receive terms ⟨bytes, fault⟩ = .error error s → error.isDesync = true →
      ∃ d ≤ bytes.length, s = ⟨bytes.drop d, fault⟩ ∧
        ∀ rest fault, receive terms ⟨bytes.take d ++ rest, fault⟩ = .error error ⟨rest, fault⟩) ∧
    (placed terms bytes).map Prod.snd = (receiveAll terms ⟨bytes, none⟩).1 ∧
    ∀ j ≤ bytes.length,
      (receiveAll terms ⟨bytes.take j, none⟩).1 =
        ((placed terms bytes).filter (·.1 ≤ j)).map Prod.snd ∧
      ((receiveAll terms ⟨bytes.take j, none⟩).2 = none ↔
        j = 0 ∨ j ∈ (placed terms bytes).map Prod.fst) ∧
      ∀ error, (receiveAll terms ⟨bytes.take j, none⟩).2 = some error →
        (error.isDesync = true ∧ (receiveAll terms ⟨bytes, none⟩).2 = some error) ∨
        ∃ ending : StreamError, ending.isEnd = true ∧ error = .stream ending := by
  refine ⟨?_, ?_, placed_packets terms bytes, ?_⟩
  · intro fault p s h
    obtain ⟨used, rest, rfl, rfl, hused⟩ := receive_eq_some h
    refine ⟨used.length, List.length_pos_iff.2 (ne_nil_of_settles hused), ?_, ?_, ?_, rfl, ?_, ?_⟩
    · rw [List.length_append]
      exact Nat.le_add_right ..
    · rw [List.drop_left]
    · intro more fault
      rw [List.take_left]
      exact receive_extend hused more fault
    · intro j hpos hj
      exact receive_take_runsOut hused hpos hj rest none
    · intro j hj fault
      rcases Nat.eq_zero_or_pos j with rfl | hpos
      · rfl
      · obtain ⟨_, _, hread⟩ := receive_take_runsOut hused hpos hj rest (some fault)
        exact hread
  · intro fault error s h hdesync
    obtain ⟨used, rest, rfl, rfl, hused⟩ := receive_eq_desync h hdesync
    refine ⟨used.length, ?_, ?_, ?_⟩
    · rw [List.length_append]
      exact Nat.le_add_right ..
    · rw [List.drop_left]
    · intro more fault
      rw [List.take_left]
      exact receive_extend hused more fault
  · intro j hj
    have h : CutsTo terms 0 bytes j := cutsTo_of_le bytes 0 j hj
    refine ⟨?_, ?_, ?_⟩
    · rw [h.packets, Nat.zero_add]
      rfl
    · rw [h.clean, Nat.zero_add]
      rfl
    · intro error herror
      cases hd : error.isDesync with
      | true => exact .inl ⟨rfl, h.desync error herror hd⟩
      | false => exact .inr (h.short error herror hd)

theorem logger_error_is_fixed_by_ten_bytes :
    let terms : Terms := ⟨1, {}⟩
    let bytes : List UInt8 := [101, 0, 0, 0, 0, 0, 0, 0, 0, 0, 102, 0, 0, 0, 7]
    (∀ rest fault, receive terms ⟨bytes.take 10 ++ rest, fault⟩ =
      .ok (some (.loggerError {})) ⟨rest, fault⟩) ∧
    (∀ j, 0 < j → j < 10 → ∃ ending : StreamError, ending.isEnd = true ∧
      receive terms ⟨bytes.take j, none⟩ = .error (.stream ending) ⟨[], none⟩) ∧
    ∀ rest fault, receive terms ⟨(bytes.drop 10).take 4 ++ rest, fault⟩ =
      .error (.unknownEventType 102) ⟨rest, fault⟩ := by
  intro terms bytes
  have hfirst : receive terms ⟨bytes, none⟩ =
      .ok (some (.loggerError {})) ⟨[102, 0, 0, 0, 7], none⟩ := by rfl
  have hnext : receive terms ⟨bytes.drop 10, none⟩ =
      .error (.unknownEventType 102) ⟨[7], none⟩ := by rfl
  obtain ⟨k, _, hle, hrest, hread, _, hcut, _⟩ :=
    (packet_is_fixed_by_its_bytes terms bytes).1 none _ _ hfirst
  obtain ⟨d, hd, hleft, hfail⟩ :=
    (packet_is_fixed_by_its_bytes terms (bytes.drop 10)).2.1 none _ _ hnext rfl
  have hk : k = 10 := by
    have hlength := congrArg (fun s : Source => s.bytes.length) hrest
    have hbytes : bytes.length = 15 := rfl
    simp only [List.length_drop, List.length_cons, List.length_nil] at hlength
    omega
  have hd : d = 4 := by
    have hlength := congrArg (fun s : Source => s.bytes.length) hleft
    have hbytes : bytes.length = 15 := rfl
    simp only [List.length_drop, List.length_cons, List.length_nil] at hlength
    omega
  subst hk hd
  exact ⟨hread, hcut, hfail⟩

end BuildFeed.Packet
