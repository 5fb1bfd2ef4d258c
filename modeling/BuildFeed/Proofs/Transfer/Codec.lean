import BuildFeed.Proofs.Transfer.Image

namespace BuildFeed

variable {α β : Type}

instance : LE Limits :=
  ⟨fun a b => a.maxText ≤ b.maxText ∧ a.maxItems ≤ b.maxItems⟩

namespace Read

def Recovers (r : Read α) (e : Emission) (a : α) : Prop :=
  e.failure = none → ∀ rest fault, r ⟨e.bytes ++ rest, fault⟩ = .ok a ⟨rest, fault⟩

theorem recovers_pure (a : α) : (pure a : Read α).Recovers ∅ a := by
  intro _ rest fault
  rfl

theorem recovers_fail (r : Read α) (error : ProtocolError) (a : α) :
    r.Recovers (.fail error) a := by
  intro h
  cases h

theorem Recovers.bind {r : Read α} {f : α → Read β} {e e' : Emission} {a : α} {b : β}
    (hr : r.Recovers e a) (hf : (f a).Recovers e' b) : (r >>= f).Recovers (e ++ e') b := by
  intro h rest fault
  obtain ⟨he, he'⟩ := Emission.failure_append.1 h
  rw [Emission.bytes_append he, List.append_assoc, bind_of_ok (hr he _ fault)]
  exact hf he' rest fault

theorem Recovers.bind_pure {r : Read α} {e : Emission} {a : α} (hr : r.Recovers e a) (f : α → β) :
    (r >>= fun a => pure (f a)).Recovers e (f a) := by
  rw [← Emission.append_empty e]
  exact hr.bind (recovers_pure (f a))

theorem Recovers.map {r : Read α} {e : Emission} {a : α} (hr : r.Recovers e a) (f : α → β) :
    (f <$> r).Recovers e (f a) := by
  rw [map_eq_pure_bind]
  exact hr.bind_pure f

theorem recovers_bytes (atEnd : StreamError) (front : List UInt8) :
    (bytes atEnd front.length).Recovers (.chunk front) front := by
  intro _ rest fault
  rw [Emission.bytes, Emission.chunk, List.flatten_singleton]
  exact bytes_append atEnd front rest fault

theorem recovers_times {r : Read β} {emit : α → Emission} {image : α → β} {as : List α}
    (h : ∀ a ∈ as, r.Recovers (emit a) (image a)) :
    (times as.length r).Recovers (.concat (as.map emit)) (as.map image) := by
  induction as with
  | nil => exact recovers_pure []
  | cons a as ih =>
      have hrest := ih fun b hb => h b (List.mem_cons_of_mem _ hb)
      exact (h a (List.mem_cons_self ..)).bind (hrest.map (image a :: ·))

end Read

namespace Codec

def Carries (c : Codec α) (version : Int32) (image : α → α) : Prop :=
  ∀ writer reader : Limits, writer ≤ reader → ∀ a,
    (c.parse ⟨version, reader⟩).Recovers (c.emit ⟨version, writer⟩ a) (image a)

variable {c : Codec α} {d : Codec β} {image : α → α} {image' : β → β} {version : Int32}

theorem word_recovers (writer reader : Terms) {width n : Nat} (hn : n < Nat.pow 256 width) :
    ((word width).parse reader).Recovers ((word width).emit writer n) n := by
  have h := (Read.recovers_bytes .endInField (littleEndian width n)).map ofLittleEndian
  rwa [length_littleEndian, ofLittleEndian_littleEndian, Nat.mod_eq_of_lt hn] at h

theorem Carries.iso (h : c.Carries version image) {wrap : α → β} {unwrap : β → α}
    (hblank : ∀ terms, c.read terms (unwrap (wrap c.blank)) = c.parse terms)
    (hwrap : ∀ b, wrap (image (unwrap b)) = image' b) :
    (c.iso wrap unwrap).Carries version image' := by
  intro writer reader hl b
  have hparse : (c.iso wrap unwrap).parse ⟨version, reader⟩ = wrap <$> c.parse ⟨version, reader⟩ :=
    congrArg (wrap <$> ·) (hblank ⟨version, reader⟩)
  rw [hparse, ← hwrap b]
  exact (h _ _ hl (unwrap b)).map wrap

theorem byte_carries : byte.Carries version id := by
  intro writer reader _ b
  have hlt : b.toNat < Nat.pow 256 1 := UInt8.toNat_lt b
  have h := (word_recovers ⟨version, writer⟩ ⟨version, reader⟩ hlt).map UInt8.ofNat
  rwa [UInt8.ofNat_toNat] at h

theorem int32_carries : int32.Carries version id := by
  intro writer reader _ n
  have hlt : n.toUInt32.toNat < Nat.pow 256 4 := UInt32.toNat_lt _
  have h := (word_recovers ⟨version, writer⟩ ⟨version, reader⟩ hlt).map
    fun n => (UInt32.ofNat n).toInt32
  rwa [UInt32.ofNat_toNat, Int32.toInt32_toUInt32] at h

theorem uint64_carries : uint64.Carries version id := by
  intro writer reader _ n
  have hlt : n.toNat < Nat.pow 256 8 := UInt64.toNat_lt n
  have h := (word_recovers ⟨version, writer⟩ ⟨version, reader⟩ hlt).map UInt64.ofNat
  rwa [UInt64.ofNat_toNat] at h

theorem int64_carries : int64.Carries version id := by
  refine uint64_carries.iso ?_ ?_
  · intro terms
    rfl
  · exact Int64.toInt64_toUInt64

theorem bool_carries : bool.Carries version id := by
  intro writer reader hl b
  rw [← Emission.append_empty (bool.emit _ b)]
  refine (byte_carries _ _ hl (if b then 1 else 0)).bind ?_
  cases b <;> exact Read.recovers_pure _

theorem coded_carries [Coded α] [Inhabited α] : (coded (α := α)).Carries version id := by
  intro writer reader hl a
  have h : (int32.parse ⟨version, reader⟩).Recovers (int32.emit ⟨version, writer⟩ (Coded.code a))
      (Coded.code a) := int32_carries _ _ hl (Coded.code a)
  rw [← Emission.append_empty (coded.emit _ a)]
  refine h.bind ?_
  simp only [Coded.ofCode?_code]
  exact Read.recovers_pure a

theorem sized_carries (what : String) : (sized what).Carries version id := by
  intro writer reader hl bytes
  by_cases h : bytes.length ≤ writer.maxText ∧ bytes.length < UInt32.size
  · have hemit : (sized what).emit ⟨version, writer⟩ bytes =
        (word 4).emit ⟨version, writer⟩ bytes.length ++ .chunk bytes := if_pos h
    have hlt : bytes.length < Nat.pow 256 4 := h.2
    have hlength := word_recovers ⟨version, writer⟩ ⟨version, reader⟩ hlt
    rw [hemit]
    refine hlength.bind ?_
    rw [if_pos (Nat.le_trans h.1 hl.1)]
    exact Read.recovers_bytes .endInBody bytes
  · have hemit : (sized what).emit ⟨version, writer⟩ bytes =
        .fail (.lengthOutOfRange what bytes.length writer.maxText) := if_neg h
    rw [hemit]
    exact Read.recovers_fail _ _ _

theorem text_carries : text.Carries version id := by
  intro writer reader hl s
  rw [← Emission.append_empty (text.emit _ s)]
  refine (sized_carries "string" _ _ hl (Text.utf8 s)).bind ?_
  simp only [id_eq, Text.ofUtf8_utf8]
  exact Read.recovers_pure s

theorem count_carries (what : String) : (count what).Carries version id := by
  intro writer reader hl n
  by_cases h : n ≤ writer.maxItems ∧ n < Nat.pow 2 31
  · have hemit : (count what).emit ⟨version, writer⟩ n =
        int32.emit ⟨version, writer⟩ (Int32.ofNat n) := by
      simp only [count, countFault?, if_pos h]
    have hword : (Int32.ofNat n).toInt = n := Int32.toInt_ofNat_of_lt h.2
    have hmax : n ≤ reader.maxItems := Nat.le_trans h.1 hl.2
    rw [hemit, count_parse, ← Emission.append_empty (int32.emit _ _)]
    refine (int32_carries _ _ hl (Int32.ofNat n)).bind ?_
    simp only [id_eq, hword]
    rw [if_pos ⟨Int.natCast_nonneg n, Int.ofNat_le.2 hmax⟩]
    exact Read.recovers_pure n
  · have hemit : (count what).emit ⟨version, writer⟩ n =
        .fail (.lengthOutOfRange what n writer.maxItems) := by
      simp only [count, countFault?, if_neg h]
    rw [hemit]
    exact Read.recovers_fail _ _ _

theorem Carries.optional (h : c.Carries version image) :
    c.optional.Carries version (Option.map image) := by
  intro writer reader hl a?
  cases a? with
  | none =>
      rw [← Emission.append_empty (c.optional.emit _ none)]
      exact (bool_carries _ _ hl false).bind (Read.recovers_pure none)
  | some a => exact (bool_carries _ _ hl true).bind ((h _ _ hl a).map some)

theorem optionalText_carries : optionalText.Carries version id := by
  have h : optionalText.Carries version (Option.map id) := text_carries.optional
  rwa [Option.map_id] at h

theorem Carries.since {c : Codec (Option α)} (h : c.Carries version id) (hblank : c.blank = none)
    (first : Int32) :
    (c.since first).Carries version fun a? => if version < first then none else a? := by
  intro writer reader hl a?
  by_cases hv : version < first
  · have hemit : (c.since first).emit ⟨version, writer⟩ a? = ∅ := if_pos hv
    have hparse : (c.since first).parse ⟨version, reader⟩ = pure none := if_pos hv
    simp only [hemit, hparse, if_pos hv]
    exact Read.recovers_pure none
  · have hemit : (c.since first).emit ⟨version, writer⟩ a? = c.emit ⟨version, writer⟩ a? :=
      if_neg hv
    have hparse : (c.since first).parse ⟨version, reader⟩ = c.parse ⟨version, reader⟩ := by
      rw [parse.eq_def c, hblank]
      exact if_neg hv
    simp only [hemit, hparse, if_neg hv]
    exact h _ _ hl a?

theorem Carries.items (h : c.Carries version image) (what : String) :
    (c.items what).Carries version (List.map image) := by
  intro writer reader hl as
  exact (count_carries what _ _ hl as.length).bind (Read.recovers_times fun a _ => h _ _ hl a)

theorem Carries.pair (hc : c.Carries version image) (hd : d.Carries version image') :
    (c.pair d).Carries version (Prod.map image image') := by
  intro writer reader hl p
  exact (hc _ _ hl p.1).bind ((hd _ _ hl p.2).bind_pure (Prod.mk (image p.1)))

theorem textList_carries : textList.Carries version id := by
  have h : textList.Carries version (List.map id) := text_carries.items "string list"
  rwa [List.map_id_fun] at h

theorem propertyTable_carries : propertyTable.Carries version PropertyTable.image := by
  intro writer reader hl t
  have hitems : ((text.pair text).items "property table").Carries version
      (List.map (Prod.map id id)) := (text_carries.pair text_carries).items "property table"
  rw [Prod.map_id, List.map_id_fun] at hitems
  have h := (hitems _ _ hl t.filled.entries).map PropertyTable.ofList
  rwa [id, PropertyTable.ofList_entries, PropertyTable.filled_eq_image] at h

theorem instant_carries : instant.Carries version Instant.normal := by
  intro writer reader hl t
  by_cases h : Int64.minValue.toInt ≤ t.toNanos ∧ t.toNanos ≤ Int64.maxValue.toInt
  · have hword : t.toWord? = some (Int64.ofInt t.toNanos) := if_pos h
    have hemit : instant.emit ⟨version, writer⟩ t =
        int64.emit ⟨version, writer⟩ (Int64.ofInt t.toNanos) := by
      simp only [instant, hword]
    have hback : .ofNanos (Int64.ofInt t.toNanos).toInt = t.normal :=
      congrArg Instant.ofNanos (Int64.toInt_ofInt_of_le h.1 (Int.lt_of_le_sub_one h.2))
    rw [hemit, ← hback, parse.eq_def instant, instant_read]
    exact (int64_carries _ _ hl _).map _
  · have hword : t.toWord? = none := if_neg h
    have hemit : instant.emit ⟨version, writer⟩ t = .fail .timestampOutOfRange := by
      simp only [instant, hword]
    rw [hemit]
    exact Read.recovers_fail _ _ _

theorem presentText_carries : presentText.Carries version id := by
  refine optionalText_carries.iso ?_ ?_
  · intro terms
    rfl
  · intro s
    rfl

end Codec

end BuildFeed
