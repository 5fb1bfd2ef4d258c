import BuildFeed.Wire.Codec

namespace BuildFeed

variable {α β : Type}

def StreamError.isEnd : StreamError → Bool
  | broken _ => false
  | _ => true

namespace Read

def result (outcome : Except ProtocolError α) (s : Source) :
    EStateM.Result ProtocolError Source α :=
  match outcome with
  | .ok a => .ok a s
  | .error error => .error error s

def RunsOut (r : Read α) (s : Source) : Prop :=
  ∃ ending : StreamError, ending.isEnd = true ∧
    r s = .error (.stream (s.shortage ending)) s.drained

structure Settles (r : Read α) (used : List UInt8) (outcome : Except ProtocolError α) : Prop where
  extend : ∀ rest fault, r ⟨used ++ rest, fault⟩ = result outcome ⟨rest, fault⟩
  cut : ∀ front back fault, front ++ back = used → back ≠ [] → r.RunsOut ⟨front, fault⟩
  desync : ∀ error, outcome = .error error → error.isDesync = true

def Framed (r : Read α) : Prop :=
  ∀ bytes fault, (∃ used rest outcome, bytes = used ++ rest ∧ r.Settles used outcome) ∨
    r.RunsOut ⟨bytes, fault⟩

theorem settles_pure (a : α) : (pure a : Read α).Settles [] (.ok a) := by
  refine ⟨?_, ?_, ?_⟩
  · intro rest fault
    rfl
  · intro front back fault h hback
    exact absurd (List.append_eq_nil_iff.1 h).2 hback
  · intro error h
    cases h

theorem settles_throw {error : ProtocolError} (h : error.isDesync = true) :
    (throw error : Read α).Settles [] (.error error) := by
  refine ⟨?_, ?_, ?_⟩
  · intro rest fault
    rfl
  · intro front back fault h hback
    exact absurd (List.append_eq_nil_iff.1 h).2 hback
  · intro e he
    cases he
    exact h

theorem RunsOut.bind {r : Read α} {s : Source} (h : r.RunsOut s) (f : α → Read β) :
    (r >>= f).RunsOut s := by
  obtain ⟨ending, hend, hr⟩ := h
  exact ⟨ending, hend, bind_of_error hr⟩

theorem RunsOut.map {r : Read α} {s : Source} (h : r.RunsOut s) (f : α → β) :
    (f <$> r).RunsOut s := by
  rw [map_eq_pure_bind]
  exact h.bind fun a => pure (f a)

theorem Settles.bind_runsOut {r : Read α} {f : α → Read β} {used rest : List UInt8} {a : α}
    {fault : Option StreamFault} (hr : r.Settles used (.ok a)) (hf : (f a).RunsOut ⟨rest, fault⟩) :
    (r >>= f).RunsOut ⟨used ++ rest, fault⟩ := by
  obtain ⟨ending, hend, hf⟩ := hf
  exact ⟨ending, hend, (bind_of_ok (hr.extend rest fault)).trans hf⟩

theorem Settles.bind_error {r : Read α} {used : List UInt8} {error : ProtocolError}
    (hr : r.Settles used (.error error)) (f : α → Read β) :
    (r >>= f).Settles used (.error error) := by
  refine ⟨?_, ?_, ?_⟩
  · intro rest fault
    exact bind_of_error (hr.extend rest fault)
  · intro front back fault h hback
    exact (hr.cut front back fault h hback).bind f
  · intro e he
    cases he
    exact hr.desync error rfl

theorem Settles.bind {r : Read α} {f : α → Read β} {used used' : List UInt8} {a : α}
    {outcome : Except ProtocolError β} (hr : r.Settles used (.ok a))
    (hf : (f a).Settles used' outcome) : (r >>= f).Settles (used ++ used') outcome := by
  refine ⟨?_, ?_, ?_⟩
  · intro rest fault
    rw [List.append_assoc, bind_of_ok (hr.extend (used' ++ rest) fault)]
    exact hf.extend rest fault
  · intro front back fault h hback
    rcases List.append_eq_append_iff.1 h with ⟨missing, hused, hrest⟩ | ⟨taken, hfront, hused'⟩
    -- the first read is cut short, unless the cut comes right after it
    · cases missing with
      | nil =>
          rw [List.append_nil] at hused
          have hout := hf.cut [] back fault hrest hback
          rw [← hused, ← List.append_nil used]
          exact hr.bind_runsOut hout
      | cons b missing =>
          exact (hr.cut front _ fault hused.symm (List.cons_ne_nil b missing)).bind f
    · rw [hfront]
      exact hr.bind_runsOut (hf.cut taken back fault hused'.symm hback)
  · exact hf.desync

theorem Framed.settles_of_ok {r : Read α} (hr : r.Framed) {bytes : List UInt8}
    {fault : Option StreamFault} {a : α} {s : Source} (h : r ⟨bytes, fault⟩ = .ok a s) :
    ∃ used rest, bytes = used ++ rest ∧ s = ⟨rest, fault⟩ ∧ r.Settles used (.ok a) := by
  rcases hr bytes fault with ⟨used, rest, outcome, rfl, hused⟩ | ⟨ending, hend, hout⟩
  · have hread := (hused.extend rest fault).symm.trans h
    cases outcome with
    | error error => cases hread
    | ok b =>
        cases hread
        exact ⟨used, rest, rfl, rfl, hused⟩
  · cases hout.symm.trans h

theorem Framed.runsOut_front {r : Read α} (hr : r.Framed) {front back : List UInt8}
    {fault : Option StreamFault} (h : r.RunsOut ⟨front ++ back, fault⟩)
    (fault' : Option StreamFault) : r.RunsOut ⟨front, fault'⟩ := by
  rcases hr front fault' with ⟨used, rest, outcome, rfl, hused⟩ | hout
  · obtain ⟨ending, _, hread⟩ := h
    have hwhole := hused.extend (rest ++ back) fault
    rw [← List.append_assoc, hread] at hwhole
    cases outcome with
    | ok a => cases hwhole
    | error error =>
        obtain ⟨rfl, -⟩ := EStateM.Result.error.inj hwhole
        cases hused.desync _ rfl
  · exact hout

theorem framed_pure (a : α) : (pure a : Read α).Framed := by
  intro bytes fault
  exact .inl ⟨[], bytes, .ok a, rfl, settles_pure a⟩

theorem framed_throw {error : ProtocolError} (h : error.isDesync = true) :
    (throw error : Read α).Framed := by
  intro bytes fault
  exact .inl ⟨[], bytes, .error error, rfl, settles_throw h⟩

theorem Framed.bind {r : Read α} {f : α → Read β} (hr : r.Framed) (hf : ∀ a, (f a).Framed) :
    (r >>= f).Framed := by
  intro bytes fault
  rcases hr bytes fault with ⟨used, rest, outcome, rfl, hused⟩ | hout
  · cases outcome with
    | error error => exact .inl ⟨used, rest, .error error, rfl, hused.bind_error f⟩
    | ok a =>
        rcases hf a rest fault with ⟨used', rest', outcome', rfl, hused'⟩ | hout
        · exact .inl ⟨used ++ used', rest', outcome', (List.append_assoc ..).symm,
            hused.bind hused'⟩
        · exact .inr (hused.bind_runsOut hout)
  · exact .inr (hout.bind f)

theorem Framed.guarded {c : Prop} [Decidable c] {error : ProtocolError}
    (herror : error.isDesync = true) {r : PUnit → Read α} (hr : ∀ u, (r u).Framed) :
    (if c then throw error >>= r else r ⟨⟩).Framed := by
  split
  · exact (framed_throw herror).bind hr
  · exact hr ⟨⟩

theorem Framed.map {r : Read α} (hr : r.Framed) (f : α → β) : (f <$> r).Framed := by
  rw [map_eq_pure_bind]
  exact hr.bind fun a => framed_pure (f a)

theorem bytes_of_lt {ending : StreamError} {n : Nat} {front : List UInt8}
    (fault : Option StreamFault) (h : front.length < n) :
    bytes ending n ⟨front, fault⟩ =
      .error (.stream (Source.shortage ⟨front, fault⟩ ending)) ⟨[], fault⟩ := by
  have hne : ¬(front.take n).length = n := by
    rw [List.length_take]
    omega
  simp only [bytes, EStateM.adaptExcept, Source.next, if_neg hne]
  rfl

theorem framed_bytes {ending : StreamError} (hend : ending.isEnd = true) (n : Nat) :
    (bytes ending n).Framed := by
  intro front fault
  by_cases h : front.length < n
  · exact .inr ⟨ending, hend, bytes_of_lt fault h⟩
  · have hlength : (front.take n).length = n := by
      rw [List.length_take]
      omega
    refine .inl ⟨front.take n, front.drop n, .ok (front.take n),
      (List.take_append_drop n front).symm, ?_, ?_, ?_⟩
    · intro rest fault
      have hread := bytes_append ending (front.take n) rest fault
      rwa [hlength] at hread
    · intro start back fault hsplit hback
      have hshort : start.length < n := by
        have hsum := congrArg List.length hsplit
        rw [List.length_append, hlength] at hsum
        have hpos := List.length_pos_iff.2 hback
        omega
      exact ⟨ending, hend, bytes_of_lt fault hshort⟩
    · intro error h
      cases h

theorem Framed.times {r : Read α} (hr : r.Framed) (n : Nat) : (times n r).Framed := by
  induction n with
  | zero => exact framed_pure []
  | succ n ih => exact hr.bind fun a => ih.bind fun rest => framed_pure (a :: rest)

theorem framed_mapM {f : α → Read β} (hf : ∀ a, (f a).Framed) (as : List α) :
    (as.mapM f).Framed := by
  induction as with
  | nil => exact framed_pure []
  | cons a as ih =>
      rw [List.mapM_cons]
      exact (hf a).bind fun b => ih.bind fun bs => framed_pure (b :: bs)

end Read

namespace Codec

def Framed (c : Codec α) : Prop :=
  ∀ terms a, (c.read terms a).Framed

variable {c : Codec α} {d : Codec β}

theorem Framed.parse (h : c.Framed) (terms : Terms) : (c.parse terms).Framed :=
  h terms c.blank

theorem word_framed (width : Nat) : (word width).Framed := by
  intro terms n
  exact (Read.framed_bytes rfl width).map ofLittleEndian

theorem Framed.iso (h : c.Framed) (wrap : α → β) (unwrap : β → α) : (c.iso wrap unwrap).Framed := by
  intro terms b
  exact (h terms (unwrap b)).map wrap

theorem byte_framed : byte.Framed :=
  (word_framed 1).iso _ _

theorem int32_framed : int32.Framed :=
  (word_framed 4).iso _ _

theorem uint64_framed : uint64.Framed :=
  (word_framed 8).iso _ _

theorem int64_framed : int64.Framed :=
  uint64_framed.iso _ _

theorem bool_framed : bool.Framed := by
  intro terms b
  refine (byte_framed.parse terms).bind ?_
  intro stated
  split
  · exact Read.framed_pure false
  · exact Read.framed_pure true
  · exact Read.framed_throw rfl

theorem coded_framed [Coded α] [Inhabited α] : (coded (α := α)).Framed := by
  intro terms a
  refine (int32_framed terms (Coded.code a)).bind ?_
  intro code
  cases (Coded.ofCode? code : Option α) with
  | none => exact Read.framed_throw rfl
  | some a => exact Read.framed_pure a

theorem sized_framed (what : String) : (sized what).Framed := by
  intro terms bytes
  refine ((word_framed 4).parse terms).bind ?_
  intro length
  split
  · exact Read.framed_bytes rfl length
  · exact Read.framed_throw rfl

theorem text_framed : text.Framed := by
  intro terms s
  refine ((sized_framed "string").parse terms).bind ?_
  intro bytes
  cases Text.ofUtf8 bytes with
  | ok s => exact Read.framed_pure s
  | error fault => exact Read.framed_throw rfl

theorem count_framed (what : String) : (count what).Framed := by
  intro terms n
  have hstated : Read.Framed (do
      let stated ← int32.read terms (Int32.ofNat n)
      if 0 ≤ stated.toInt ∧ stated.toInt ≤ terms.limits.maxItems then pure stated.toInt.toNat
      else throw (.lengthOutOfRange what stated.toInt terms.limits.maxItems)) := by
    refine (int32_framed terms _).bind ?_
    intro stated
    split
    · exact Read.framed_pure stated.toInt.toNat
    · exact Read.framed_throw rfl
  by_cases h : n ≤ terms.limits.maxItems ∧ n < Nat.pow 2 31
  · simp only [count, countFault?, if_pos h]
    exact hstated
  · simp only [count, countFault?, if_neg h]
    exact (Read.framed_throw rfl).bind fun _ => hstated

theorem Framed.optional (h : c.Framed) : c.optional.Framed := by
  intro terms a?
  refine (bool_framed terms a?.isSome).bind ?_
  intro present
  cases present with
  | false => exact Read.framed_pure none
  | true => exact (h terms (a?.getD c.blank)).map some

theorem optionalText_framed : optionalText.Framed :=
  text_framed.optional

theorem Framed.since {c : Codec (Option α)} (h : c.Framed) (version : Int32) :
    (c.since version).Framed := by
  intro terms a?
  by_cases hv : terms.version < version
  · have hread : (c.since version).read terms a? = pure none := if_pos hv
    rw [hread]
    exact Read.framed_pure none
  · have hread : (c.since version).read terms a? = c.read terms a? := if_neg hv
    rw [hread]
    exact h terms a?

theorem Framed.items (h : c.Framed) (what : String) : (c.items what).Framed := by
  intro terms as
  refine (count_framed what terms as.length).bind ?_
  intro n
  exact (h.parse terms).times n

theorem textList_framed : textList.Framed :=
  text_framed.items "string list"

theorem argTexts_framed : argTexts.Framed :=
  ((optionalText_framed.iso _ _).items "argument list").optional

theorem Framed.pair (hc : c.Framed) (hd : d.Framed) : (c.pair d).Framed := by
  intro terms p
  refine (hc terms p.1).bind ?_
  intro a
  refine (hd terms p.2).bind ?_
  intro b
  exact Read.framed_pure (a, b)

theorem properties_framed : properties.Framed := by
  have htable : propertyTable.Framed := by
    intro terms t
    exact (((text_framed.pair text_framed).items "property table").parse terms).map
      PropertyTable.ofList
  exact htable.optional

theorem instant_framed : instant.Framed := by
  intro terms t
  rw [instant_read]
  exact (int64_framed.parse terms).map _

end Codec

end BuildFeed
