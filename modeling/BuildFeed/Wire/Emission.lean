import BuildFeed.Wire.Error

namespace BuildFeed

structure Emission where
  chunks : List (List UInt8)
  failure : Option ProtocolError
  deriving DecidableEq

namespace Emission

def empty : Emission :=
  ⟨[], none⟩

def chunk (bytes : List UInt8) : Emission :=
  ⟨[bytes], none⟩

def fail (error : ProtocolError) : Emission :=
  ⟨[], some error⟩

instance : EmptyCollection Emission := ⟨empty⟩

def append (a b : Emission) : Emission :=
  match a.failure with
  | some _ => a
  | none => ⟨a.chunks ++ b.chunks, b.failure⟩

instance : Append Emission := ⟨append⟩

def bytes (e : Emission) : List UInt8 :=
  e.chunks.flatten

def concat : List Emission → Emission
  | [] => ∅
  | e :: es => e ++ concat es

theorem append_of_failed {a : Emission} {error : ProtocolError} (h : a.failure = some error)
    (b : Emission) : a ++ b = a := by
  change a.append b = a
  simp [append, h]

theorem append_of_done {a : Emission} (h : a.failure = none) (b : Emission) :
    a ++ b = ⟨a.chunks ++ b.chunks, b.failure⟩ := by
  change a.append b = _
  simp [append, h]

theorem failure_append {a b : Emission} :
    (a ++ b).failure = none ↔ a.failure = none ∧ b.failure = none := by
  cases h : a.failure with
  | none => rw [append_of_done h]; simp
  | some error => rw [append_of_failed h, h]; simp

theorem failure_of_done_append {a : Emission} (h : a.failure = none) (b : Emission) :
    (a ++ b).failure = b.failure := by
  rw [append_of_done h]

theorem failure_append_of_done (a : Emission) {b : Emission} (h : b.failure = none) :
    (a ++ b).failure = a.failure := by
  cases ha : a.failure with
  | none => rw [append_of_done ha, h]
  | some error => rw [append_of_failed ha, ha]

theorem bytes_append {a : Emission} (h : a.failure = none) (b : Emission) :
    (a ++ b).bytes = a.bytes ++ b.bytes := by
  rw [append_of_done h]
  exact List.flatten_append

theorem bytes_append_eq_nil {a b : Emission} (hdone : (a ++ b).failure = none)
    (hnil : (a ++ b).bytes = []) : a.bytes = [] ∧ b.bytes = [] := by
  rw [bytes_append (failure_append.1 hdone).1] at hnil
  exact List.append_eq_nil_iff.1 hnil

theorem bytes_append_ne_nil {a : Emission} (h : a.bytes ≠ []) (b : Emission) :
    (a ++ b).bytes ≠ [] := by
  cases hfailure : a.failure with
  | none =>
      rw [bytes_append hfailure]
      exact List.append_ne_nil_of_left_ne_nil h b.bytes
  | some error => rwa [append_of_failed hfailure]

theorem append_empty (e : Emission) : e ++ (∅ : Emission) = e := by
  cases h : e.failure with
  | none =>
      rw [append_of_done h]
      change (⟨e.chunks ++ [], none⟩ : Emission) = e
      rw [List.append_nil, ← h]
  | some error => exact append_of_failed h ∅

theorem append_assoc (a b c : Emission) : a ++ b ++ c = a ++ (b ++ c) := by
  cases ha : a.failure with
  | some error => rw [append_of_failed ha, append_of_failed ha, append_of_failed ha]
  | none =>
      have hab : (a ++ b).failure = b.failure := by rw [append_of_done ha]
      cases hb : b.failure with
      | some error => rw [append_of_failed (hab.trans hb), append_of_failed hb]
      | none =>
          rw [append_of_done (hab.trans hb), append_of_done hb, append_of_done ha,
            append_of_done ha, List.append_assoc]

theorem concat_done {α : Type} {emit : α → Emission} {as : List α}
    (h : ∀ a ∈ as, (emit a).failure = none) : (concat (as.map emit)).failure = none := by
  induction as with
  | nil => rfl
  | cons a as ih =>
      have hrest := ih fun b hb => h b (List.mem_cons_of_mem a hb)
      exact failure_append.2 ⟨h a (List.mem_cons_self ..), hrest⟩

theorem concat_failure {α : Type} {emit : α → Emission} {as : List α} {error : ProtocolError}
    (h : (concat (as.map emit)).failure = some error) :
    ∃ a ∈ as, (emit a).failure = some error := by
  induction as with
  | nil => cases h
  | cons a as ih =>
      rw [List.map_cons, concat] at h
      cases ha : (emit a).failure with
      | none =>
          rw [failure_of_done_append ha] at h
          obtain ⟨b, hb, hfailure⟩ := ih h
          exact ⟨b, List.mem_cons_of_mem a hb, hfailure⟩
      | some other =>
          rw [append_of_failed ha, ha] at h
          exact ⟨a, List.mem_cons_self .., ha.trans h⟩

end Emission

/-- Where bytes are written to. A limited one takes so many more bytes, then fails. -/
inductive Sink where
  | endless
  | limited (room : Nat) (fault : StreamFault)
  deriving DecidableEq

structure Acceptance where
  bytes : List UInt8
  fault : Option StreamFault
  sink : Sink

structure Delivery where
  accepted : List UInt8
  failure : Option ProtocolError
  sink : Sink

namespace Sink

def accept (sink : Sink) (bytes : List UInt8) : Acceptance :=
  match sink with
  | endless => ⟨bytes, none, endless⟩
  | limited room fault =>
      if bytes.length ≤ room then ⟨bytes, none, limited (room - bytes.length) fault⟩
      else ⟨bytes.take room, some fault, limited 0 fault⟩

/-- Writes an emission. A fault of the sink comes before a later failure of the writer. -/
def deliver (sink : Sink) (e : Emission) : Delivery :=
  let acceptance := sink.accept e.bytes
  let failure := match acceptance.fault with
    | some fault => some (.stream (.broken fault))
    | none => e.failure
  ⟨acceptance.bytes, failure, acceptance.sink⟩

def deliverAll (sink : Sink) : List Emission → List Delivery
  | [] => []
  | e :: es =>
      let delivery := sink.deliver e
      delivery :: delivery.sink.deliverAll es

end Sink

end BuildFeed
