import BuildFeed.Proofs.Transfer.Stopped
import BuildFeed.Proofs.Transfer.Timestamp
import BuildFeed.Wire.InPlace.Value

namespace BuildFeed

namespace Sink

variable {sink : Sink} {e : Emission}

theorem accept_append_of_fault {front : List UInt8} {fault : StreamFault}
    (h : (sink.accept front).fault = some fault) (back : List UInt8) :
    sink.accept (front ++ back) = sink.accept front := by
  obtain ⟨room, rfl, hroom, -⟩ := accept_fault h
  have hfront : ¬front.length ≤ room := Nat.not_le.2 hroom
  have hwhole : ¬front.length + back.length ≤ room := fun hle => hfront (by omega)
  simp only [accept, List.length_append, if_neg hfront, if_neg hwhole,
    List.take_append_of_le_length (Nat.le_of_lt hroom)]

theorem deliver_append_of_done (h : (sink.deliver e).failure = none) (e' : Emission) :
    sink.deliver (e ++ e') =
      let rest := (sink.deliver e).sink.deliver e'
      ⟨(sink.deliver e).accepted ++ rest.accepted, rest.failure, rest.sink⟩ := by
  obtain ⟨hdone, hbytes⟩ := deliver_done h
  have haccept := accept_append (fault_of_done h) e'.bytes
  have hfailure := Emission.failure_of_done_append hdone e'
  simp only [hbytes]
  simp only [deliver, Emission.bytes_append hdone, haccept, hfailure]

theorem deliver_append_of_failed {error : ProtocolError}
    (h : (sink.deliver e).failure = some error) (e' : Emission) :
    sink.deliver (e ++ e') = sink.deliver e := by
  cases hfailure : e.failure with
  | some cause => rw [Emission.append_of_failed hfailure]
  | none =>
      cases hfault : (sink.accept e.bytes).fault with
      | none =>
          simp only [deliver, hfault, hfailure] at h
          cases h
      | some fault =>
          simp only [deliver, Emission.bytes_append hfailure, accept_append_of_fault hfault, hfault]

end Sink

namespace Written

variable {α : Type} {sink : Sink} {opening rest : Emission} {before after : α}

theorem inParts_of_failed {error : ProtocolError}
    (h : (sink.deliver opening).failure = some error) :
    inParts sink opening rest before after = ⟨before, sink.deliver opening⟩ := by
  simp only [inParts, h]

theorem inParts_of_done (h : (sink.deliver opening).failure = none) :
    inParts sink opening rest before after =
      let second := (sink.deliver opening).sink.deliver rest
      ⟨after, (sink.deliver opening).accepted ++ second.accepted, second.failure, second.sink⟩ := by
  simp only [inParts, h]

end Written

theorem Codec.fits_of_countFault? {what : String} {limits : Limits} {n : Nat}
    (h : countFault? what limits n = none) : n ≤ limits.maxItems ∧ n < Nat.pow 2 31 := by
  unfold countFault? at h
  split at h
  · assumption
  · cases h

namespace InPlace

variable {σ τ α β : Type} {s s' : σ} {t t' : τ} {a : α} {b : β} {e e' opening rest : Emission}
  {r : InPlace Outlet σ α} {f : α → InPlace Outlet σ β} {outlet : Outlet}

def send (e : Emission) : InPlace Outlet σ Unit := fun (outlet, s) =>
  let delivery := outlet.sink.deliver e
  match delivery.failure with
  | none => .ok () (outlet.after delivery, s)
  | some error => .error error (outlet.after delivery, s)

theorem send_of_done (h : (outlet.sink.deliver e).failure = none) :
    send e (outlet, s) = .ok () (outlet.after (outlet.sink.deliver e), s) := by
  simp only [send, h]

theorem send_of_failed {error : ProtocolError}
    (h : (outlet.sink.deliver e).failure = some error) :
    send e (outlet, s) = .error error (outlet.after (outlet.sink.deliver e), s) := by
  simp only [send, h]

theorem send_fail (error : ProtocolError) :
    send (.fail error) (outlet, s) = .error error (outlet, s) := by
  have hdeliver := outlet.sink.deliver_fail error
  have hfailed : (outlet.sink.deliver (.fail error)).failure = some error := by rw [hdeliver]
  rw [send_of_failed hfailed, hdeliver, Outlet.after, List.append_nil]

theorem send_empty : (send ∅ : InPlace Outlet σ Unit) = pure () := by
  funext ⟨outlet, s⟩
  have hdeliver : outlet.sink.deliver ∅ = ⟨[], none, outlet.sink⟩ := by
    simp only [Sink.deliver, Sink.accept_nil, show (∅ : Emission).bytes = [] from rfl,
      show (∅ : Emission).failure = none from rfl]
  simp only [send, hdeliver, Outlet.after, List.append_nil]
  rfl

theorem send_append (e e' : Emission) :
    (send (e ++ e') : InPlace Outlet σ Unit) = (do send e; send e') := by
  funext ⟨outlet, s⟩
  cases h : (outlet.sink.deliver e).failure with
  | none =>
      rw [bind_of_ok (send_of_done h)]
      simp only [send, Sink.deliver_append_of_done h, Outlet.after, List.append_assoc]
  | some error =>
      rw [bind_of_error (send_of_failed h)]
      simp only [send, Sink.deliver_append_of_failed h, h]

theorem bind_congr_at {q : InPlace Outlet σ α} (h : r (outlet, s) = q (outlet, s)) :
    (r >>= f) (outlet, s) = (q >>= f) (outlet, s) := by
  change EStateM.bind r f (outlet, s) = EStateM.bind q f (outlet, s)
  simp only [EStateM.bind, h]

theorem send_bind_congr {f g : Unit → InPlace Outlet σ β}
    (h : ∀ outlet, f () (outlet, s) = g () (outlet, s)) :
    (send e >>= f) (outlet, s) = (send e >>= g) (outlet, s) := by
  cases hsent : (outlet.sink.deliver e).failure with
  | none => rw [bind_of_ok (send_of_done hsent), bind_of_ok (send_of_done hsent), h]
  | some error => rw [bind_of_error (send_of_failed hsent), bind_of_error (send_of_failed hsent)]

def Sends (r : InPlace Outlet σ α) (s : σ) (e : Emission) (a : α) : Prop :=
  ∀ outlet, r (outlet, s) = (do send e; pure a) (outlet, s)

theorem Sends.of_done (h : Sends r s e a) (hdone : (outlet.sink.deliver e).failure = none) :
    r (outlet, s) = .ok a (outlet.after (outlet.sink.deliver e), s) := by
  rw [h outlet, bind_of_ok (send_of_done hdone)]
  rfl

theorem Sends.of_failed {error : ProtocolError} (h : Sends r s e a)
    (hfailed : (outlet.sink.deliver e).failure = some error) :
    r (outlet, s) = .error error (outlet.after (outlet.sink.deliver e), s) := by
  rw [h outlet, bind_of_error (send_of_failed hfailed)]

theorem sends_of_cases
    (hdone : ∀ outlet : Outlet, (outlet.sink.deliver e).failure = none →
      r (outlet, s) = .ok a (outlet.after (outlet.sink.deliver e), s))
    (hfailed : ∀ (outlet : Outlet) (error : ProtocolError),
      (outlet.sink.deliver e).failure = some error →
        r (outlet, s) = .error error (outlet.after (outlet.sink.deliver e), s)) :
    Sends r s e a := by
  intro outlet
  cases h : (outlet.sink.deliver e).failure with
  | none =>
      rw [hdone outlet h, bind_of_ok (send_of_done h)]
      rfl
  | some error => rw [hfailed outlet error h, bind_of_error (send_of_failed h)]

theorem sends_pure (s : σ) (a : α) : Sends (pure a) s ∅ a := by
  intro outlet
  rw [send_empty]
  rfl

theorem sends_throw (s : σ) (error : ProtocolError) (a : α) :
    Sends (throw error) s (.fail error) a := by
  intro outlet
  rw [bind_of_error (send_fail error)]
  rfl

theorem sends_send (e : Emission) (s : σ) : Sends (do send e; pure ()) s e () :=
  fun _ => rfl

theorem Sends.bind (hr : Sends r s e a) (hf : Sends (f a) s e' b) :
    Sends (r >>= f) s (e ++ e') b := by
  intro outlet
  rw [bind_congr_at (hr outlet), bind_assoc, send_append, bind_assoc]
  simp only [pure_bind]
  exact send_bind_congr hf

theorem Sends.bind_silent (hr : Sends r s e a) (hf : Sends (f a) s ∅ b) :
    Sends (r >>= f) s e b :=
  Emission.append_empty e ▸ hr.bind hf

theorem Sends.bind_failed {error : ProtocolError} (hr : Sends r s (.fail error) a) (b : β) :
    Sends (r >>= f) s (.fail error) b := by
  intro outlet
  rw [bind_congr_at (hr outlet), bind_assoc, bind_of_error (send_fail error),
    bind_of_error (send_fail error)]

theorem sends_value (s : σ) : Sends value s ∅ s :=
  fun outlet => sends_pure s s outlet

theorem Sends.silent_bind (hr : Sends r s ∅ a) (hf : Sends (f a) s e b) : Sends (r >>= f) s e b :=
  hr.bind hf

theorem Sends.of_value {f : σ → InPlace Outlet σ β} (h : Sends (f s) s e b) :
    Sends (value >>= f) s e b :=
  (sends_value s).bind h

theorem sends_whenReading (r : InPlace Outlet σ Unit) (s : σ) : Sends (whenReading r) s ∅ () := by
  rw [whenReading_outlet]
  exact sends_pure s ()

theorem sends_assign (s : σ) : Sends (assign s) s ∅ () :=
  fun outlet => sends_pure s () outlet

theorem Sends.within {r : InPlace Outlet τ Unit} (h : Sends r t e ()) {wrap : τ → σ}
    (hwrap : wrap t = s) : Sends (within wrap t r) s e t := by
  subst hwrap
  refine sends_of_cases ?_ ?_
  · intro outlet hdone
    simp only [InPlace.within, h.of_done hdone]
  · intro outlet error hfailed
    simp only [InPlace.within, h.of_failed hfailed]

theorem Sends.through {r : InPlace Outlet τ Unit} (h : Sends r t e ()) {wrap : τ → σ}
    (hwrap : wrap t = s) : Sends (through wrap t r) s e () :=
  (h.within hwrap).bind_silent (sends_pure s ())

theorem Sends.apart {r : InPlace Outlet τ Unit} (h : Sends r t e ()) (s : σ) :
    Sends (apart t r) s e t :=
  .of_value (h.within rfl)

theorem Sends.part {get : σ → τ} {set : σ → τ → σ} {r : InPlace Outlet τ Unit}
    (h : Sends r (get s) e ()) (hset : set s (get s) = s) : Sends (part get set r) s e () :=
  .of_value (h.through hset)

theorem Sends.each {r : InPlace Outlet τ Unit} {emit : τ → Emission}
    (h : ∀ t, Sends r t (emit t) ()) (ts : List τ) :
    Sends (each r ts) ts (.concat (ts.map emit)) () := by
  induction ts with
  | nil => exact sends_pure [] ()
  | cons t ts ih => exact ((h t).within rfl).bind (ih.through rfl)

/-- The routine sends `opening`, then puts `s'` in the place of `s`, then sends `rest`. -/
def Passes (r : InPlace Outlet σ α) (s : σ) (opening : Emission) (s' : σ) (rest : Emission)
    (a : α) : Prop :=
  ∀ outlet, r (outlet, s) = (do send opening; assign s'; send rest; pure a) (outlet, s)

theorem Sends.bind_passes (hr : Sends r s e a) (hf : Passes (f a) s opening s' rest b) :
    Passes (r >>= f) s (e ++ opening) s' rest b := by
  intro outlet
  rw [bind_congr_at (hr outlet), bind_assoc, send_append, bind_assoc]
  simp only [pure_bind]
  exact send_bind_congr hf

theorem Sends.silent_passes (hr : Sends r s ∅ a) (hf : Passes (f a) s opening s' rest b) :
    Passes (r >>= f) s opening s' rest b :=
  hr.bind_passes hf

theorem Sends.bind_failed_passes {error : ProtocolError} (hr : Sends r s (.fail error) a) :
    Passes (r >>= f) s (.fail error) s' rest b := by
  intro outlet
  rw [bind_congr_at (hr outlet), bind_assoc, bind_of_error (send_fail error),
    bind_of_error (send_fail error)]

theorem Sends.passes (h : Sends r s e a) : Passes r s e s ∅ a := by
  intro outlet
  rw [h outlet, send_empty]
  exact send_bind_congr fun _ => rfl

theorem Sends.passes_of_eq {q : InPlace Outlet σ α} (hq : Sends q s' rest a)
    (h : ∀ outlet, r (outlet, s) = q (outlet, s')) : Passes r s ∅ s' rest a := by
  intro outlet
  rw [h outlet, hq outlet, send_empty]
  rfl

theorem Passes.bind (hr : Passes r s opening s' rest a) (hf : Sends (f a) s' e b) :
    Passes (r >>= f) s opening s' (rest ++ e) b := by
  intro outlet
  rw [bind_congr_at (hr outlet), bind_assoc]
  refine send_bind_congr fun outlet => ?_
  -- the value is replaced here, and what follows goes over the new one
  have hassigned {g : Unit → InPlace Outlet σ β} :
      (assign s' >>= g) (outlet, s) = g () (outlet, s') := bind_of_ok rfl
  rw [bind_assoc, hassigned, hassigned, send_append, bind_assoc, bind_assoc]
  simp only [pure_bind]
  exact send_bind_congr hf

theorem Passes.of_failed {error : ProtocolError} (h : Passes r s opening s' rest a)
    (hfailed : (outlet.sink.deliver opening).failure = some error) :
    r (outlet, s) = .error error (outlet.after (outlet.sink.deliver opening), s) := by
  rw [h outlet, bind_of_error (send_of_failed hfailed)]

theorem Passes.of_done (h : Passes r s opening s' rest a)
    (hdone : (outlet.sink.deliver opening).failure = none) :
    r (outlet, s) = (do send rest; pure a) (outlet.after (outlet.sink.deliver opening), s') := by
  rw [h outlet, bind_of_ok (send_of_done hdone)]
  rfl

theorem Passes.within {r : InPlace Outlet τ Unit} (h : Passes r t opening t' rest ())
    {wrap : τ → σ} (hwrap : wrap t = s) :
    Passes (within wrap t r) s opening (wrap t') rest t' := by
  subst hwrap
  intro outlet
  cases hopening : (outlet.sink.deliver opening).failure with
  | some error =>
      rw [bind_of_error (send_of_failed hopening)]
      simp only [InPlace.within, h.of_failed hopening]
  | none =>
      rw [bind_of_ok (send_of_done hopening)]
      calc within wrap t r (outlet, wrap t)
        _ = within wrap t' (do send rest; pure ())
              (outlet.after (outlet.sink.deliver opening), wrap t') := by
            simp only [InPlace.within, h.of_done hopening]
        _ = _ := (sends_send rest t').within rfl _

theorem Passes.through {r : InPlace Outlet τ Unit} (h : Passes r t opening t' rest ())
    {wrap : τ → σ} (hwrap : wrap t = s) :
    Passes (through wrap t r) s opening (wrap t') rest () :=
  Emission.append_empty rest ▸ (h.within hwrap).bind (sends_pure _ ())

theorem Passes.part {get : σ → τ} {set : σ → τ → σ} {r : InPlace Outlet τ Unit}
    (h : Passes r (get s) opening t' rest ()) (hset : set s (get s) = s) :
    Passes (part get set r) s opening (set s t') rest () :=
  (sends_value s).bind_passes (h.through hset)

theorem write_of_ok {r : InPlace Outlet σ Unit} {sink : Sink} {outlet : Outlet}
    (h : r (⟨[], sink⟩, s) = .ok () (outlet, s')) :
    write r s sink = ⟨s', outlet.accepted, none, outlet.sink⟩ := by
  simp only [InPlace.write, h]

theorem write_of_error {r : InPlace Outlet σ Unit} {sink : Sink} {outlet : Outlet}
    {error : ProtocolError} (h : r (⟨[], sink⟩, s) = .error error (outlet, s')) :
    write r s sink = ⟨s', outlet.accepted, some error, outlet.sink⟩ := by
  simp only [InPlace.write, h]

theorem Sends.write {r : InPlace Outlet σ Unit} (h : Sends r s e ()) (sink : Sink) :
    write r s sink = ⟨s, sink.deliver e⟩ := by
  cases hsent : (sink.deliver e).failure with
  | none =>
      rw [write_of_ok (h.of_done hsent), ← hsent]
      rfl
  | some error =>
      rw [write_of_error (h.of_failed hsent), ← hsent]
      rfl

theorem Passes.write {r : InPlace Outlet σ Unit} (h : Passes r s opening s' rest ()) (sink : Sink) :
    write r s sink = .inParts sink opening rest s s' := by
  cases hopening : (sink.deliver opening).failure with
  | some error =>
      rw [write_of_error (h.of_failed hopening), Written.inParts_of_failed hopening, ← hopening]
      rfl
  | none =>
      have hrest := sends_send rest s'
      have hrun : r (⟨[], sink⟩, s) = _ := h.of_done hopening
      rw [Written.inParts_of_done hopening]
      cases hsent : ((sink.deliver opening).sink.deliver rest).failure with
      | none =>
          rw [write_of_ok (hrun.trans (hrest.of_done hsent)), ← hsent]
          rfl
      | some error =>
          rw [write_of_error (hrun.trans (hrest.of_failed hsent)), ← hsent]
          rfl

variable {terms : Terms}

theorem sends_move (c : Codec τ) (t : τ) :
    Sends (Port.move c terms) t (c.emit terms t) () := by
  intro outlet
  rw [bind_pure_unit]
  rfl

theorem sends_int32 (n : Int32) : Sends (int32 terms) n (Codec.int32.emit terms n) () :=
  sends_move Codec.int32 n

theorem sends_bool (b : Bool) : Sends (bool terms) b (Codec.bool.emit terms b) () :=
  sends_move Codec.bool b

theorem sends_flag (present : Bool) (s : σ) :
    Sends (flag terms present) s (Codec.bool.emit terms present) present :=
  (sends_move Codec.bool present).apart s

theorem Sends.optional {c : Codec τ} {blank : τ} {r : InPlace Outlet τ Unit}
    (h : ∀ t, Sends r t (c.emit terms t) ()) (t? : Option τ) :
    Sends (optional terms blank r) t? (c.optional.emit terms t?) () := by
  cases t? with
  | none => exact .of_value ((sends_flag false none).bind_silent (sends_assign none))
  | some t => exact .of_value ((sends_flag true (some t)).bind ((h t).through rfl))

theorem sends_count (what : String) (n : Nat) :
    Sends (count terms what) n ((Codec.count what).emit terms n) () := by
  refine .of_value ?_
  unfold countChecked
  cases hfault : Codec.countFault? what terms.limits n with
  | some error =>
      have hemit : (Codec.count what).emit terms n = .fail error := by
        simp only [Codec.count, hfault]
      rw [hemit]
      exact (sends_throw n error ()).bind_failed ()
  | none =>
      have hemit : (Codec.count what).emit terms n = Codec.int32.emit terms (Int32.ofNat n) := by
        simp only [Codec.count, hfault]
      obtain ⟨hmax, hlt⟩ := Codec.fits_of_countFault? hfault
      have hword : (Int32.ofNat n).toInt = n := Int32.toInt_ofNat_of_lt hlt
      have hstated : 0 ≤ (Int32.ofNat n).toInt ∧ (Int32.ofNat n).toInt ≤ terms.limits.maxItems := by
        rw [hword]
        exact ⟨Int.natCast_nonneg n, Int.ofNat_le.2 hmax⟩
      rw [hemit]
      refine ((sends_int32 (Int32.ofNat n)).apart n).bind_silent ?_
      rw [if_pos hstated, hword]
      exact sends_assign n

theorem sends_optionalText (text? : Option String) :
    Sends (optionalText terms) text? (Codec.optionalText.emit terms text?) () :=
  .optional (sends_move Codec.text) text?

theorem sends_wordToMove {t : Instant} {n : Int64} (h : t.toWord? = some n) :
    Sends wordToMove t ∅ n := by
  refine .of_value ?_
  rw [h]
  exact sends_pure t n

theorem sends_wordToMove_fail {t : Instant} (h : t.toWord? = none) :
    Sends wordToMove t (.fail .timestampOutOfRange) 0 := by
  refine .of_value ?_
  rw [h]
  exact sends_throw t _ 0

theorem sends_instant (t : Instant) :
    Sends (instant terms) t (Codec.instant.emit terms t) () := by
  cases h : t.toWord? with
  | none =>
      have hemit : Codec.instant.emit terms t = .fail .timestampOutOfRange := by
        simp only [Codec.instant, h]
      rw [hemit]
      exact (sends_wordToMove_fail h).bind_failed ()
  | some n =>
      have hemit : Codec.instant.emit terms t = Codec.int64.emit terms n := by
        simp only [Codec.instant, h]
      rw [hemit]
      refine (sends_wordToMove h).bind (?_ : Sends _ t (Codec.int64.emit terms n) ())
      exact ((sends_move Codec.int64 n).apart t).bind_silent (sends_whenReading _ t)

theorem sends_coded [Coded τ] [Inhabited τ] (t : τ) :
    Sends (coded terms) t (Codec.coded.emit terms t) () := by
  refine .of_value (((sends_int32 (Coded.code t)).apart t).bind_silent ?_)
  rw [Coded.ofCode?_code]
  exact sends_assign t

theorem sends_places (what : String) (blank : τ) (ts : List τ) :
    Sends (places terms what blank) ts ((Codec.count what).emit terms ts.length) () :=
  .of_value (((sends_count what ts.length).apart ts).bind_silent (sends_whenReading _ ts))

theorem sends_textList (texts : List String) :
    Sends (textList terms) texts (Codec.textList.emit terms texts) () :=
  (sends_places _ _ texts).bind (.of_value (.each (sends_move Codec.text) texts))

theorem sends_presentText (s : String) :
    Sends (presentText terms) s (Codec.presentText.emit terms s) () :=
  (sends_flag true s).bind (sends_move Codec.text s)

theorem sends_argTexts (texts? : Option (List String)) :
    Sends (argTexts terms) texts? (Codec.argTexts.emit terms texts?) () :=
  .optional (fun texts => (sends_places _ _ texts).bind (.of_value (.each sends_presentText texts)))
    texts?

theorem sends_property (p : String × String) :
    Sends (property terms) p ((Codec.text.pair Codec.text).emit terms p) () :=
  ((sends_move Codec.text p.1).part rfl).bind ((sends_move Codec.text p.2).part rfl)

theorem sends_propertyTable (t : PropertyTable) :
    Sends (propertyTable terms) t (Codec.propertyTable.emit terms t) () :=
  .of_value (((sends_count _ _).apart t).bind
    (((Sends.each sends_property t.filled.entries).apart t).bind_silent (sends_pure t ())))

theorem sends_properties (t? : Option PropertyTable) :
    Sends (properties terms) t? (Codec.properties.emit terms t?) () :=
  .optional sends_propertyTable t?

theorem sends_since (version : Int32) (text? : Option String) :
    Sends (since terms version) text? ((Codec.optionalText.since version).emit terms text?) () := by
  by_cases hversion : terms.version < version
  · have hemit : (Codec.optionalText.since version).emit terms text? = ∅ := if_pos hversion
    rw [since, if_pos hversion, hemit]
    exact sends_pure text? ()
  · have hemit : (Codec.optionalText.since version).emit terms text? =
        Codec.optionalText.emit terms text? := if_neg hversion
    rw [since, if_neg hversion, hemit]
    exact sends_optionalText text?

end InPlace

end BuildFeed
