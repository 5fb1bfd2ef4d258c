import BuildFeed.Proofs.Limits.Extent
import BuildFeed.Proofs.Transfer.EventFrame

namespace BuildFeed

variable {α β : Type}

theorem Emission.failure_append_eq_or (a b : Emission) :
    (a ++ b).failure = a.failure.or b.failure := by
  cases h : a.failure with
  | none => rw [failure_of_done_append h, Option.none_or]
  | some error => rw [append_of_failed h, h, Option.some_or]

open Extent (misfit? misfit?_append misfit?_singleton_of_fits misfit?_singleton_of_not_fits)

namespace Read

def Gauges (r : Read α) (limits : Limits) (e : Emission) (extents : List Extent) (a : α) : Prop :=
  e.failure = none → ∀ rest fault,
    match misfit? limits extents with
    | none => r ⟨e.bytes ++ rest, fault⟩ = .ok a ⟨rest, fault⟩
    | some error => ∃ s, r ⟨e.bytes ++ rest, fault⟩ = .error error s

variable {limits : Limits} {r : Read α} {e e' : Emission} {xs ys : List Extent} {a : α}

theorem Recovers.gauges (h : r.Recovers e a) (limits : Limits) : r.Gauges limits e [] a :=
  h

theorem gauges_fail (r : Read α) (limits : Limits) (error : ProtocolError) (xs : List Extent)
    (a : α) : r.Gauges limits (.fail error) xs a := by
  intro h
  cases h

theorem Gauges.bind (hr : r.Gauges limits e xs a) {f : α → Read β} {b : β}
    (hf : (f a).Gauges limits e' ys b) : (r >>= f).Gauges limits (e ++ e') (xs ++ ys) b := by
  intro h rest fault
  obtain ⟨he, he'⟩ := Emission.failure_append.1 h
  have hfirst := hr he (e'.bytes ++ rest) fault
  rw [Emission.bytes_append he, List.append_assoc, misfit?_append]
  cases hx : misfit? limits xs with
  | none =>
      rw [hx] at hfirst
      rw [bind_of_ok hfirst]
      exact hf he' rest fault
  | some error =>
      rw [hx] at hfirst
      obtain ⟨s, hs⟩ := hfirst
      exact ⟨s, bind_of_error hs⟩

theorem Gauges.bind_pure (hr : r.Gauges limits e xs a) (f : α → β) :
    (r >>= fun a => pure (f a)).Gauges limits e xs (f a) := by
  rw [← Emission.append_empty e, ← List.append_nil xs]
  exact hr.bind ((recovers_pure (f a)).gauges limits)

theorem Gauges.map (hr : r.Gauges limits e xs a) (f : α → β) :
    (f <$> r).Gauges limits e xs (f a) := by
  rw [map_eq_pure_bind]
  exact hr.bind_pure f

theorem gauges_check {x : Extent} {c : Prop} [Decidable c] (hx : x.Fits limits ↔ c)
    {error : ProtocolError} (herror : x.error limits = error) (h : r.Recovers e a) :
    (if c then r else throw error).Gauges limits e [x] a := by
  intro hdone rest fault
  by_cases hc : c
  · rw [misfit?_singleton_of_fits (hx.2 hc), if_pos hc]
    exact h hdone rest fault
  · rw [misfit?_singleton_of_not_fits (mt hx.1 hc), if_neg hc, herror]
    exact ⟨_, rfl⟩

theorem gauges_times {r : Read β} {emit : α → Emission} {image : α → β} {extents : β → List Extent}
    {as : List α} (h : ∀ a ∈ as, r.Gauges limits (emit a) (extents (image a)) (image a)) :
    (times as.length r).Gauges limits (.concat (as.map emit)) ((as.map image).flatMap extents)
      (as.map image) := by
  induction as with
  | nil => exact (recovers_pure []).gauges limits
  | cons a as ih =>
      have hrest := ih fun b hb => h b (List.mem_cons_of_mem a hb)
      exact (h a (List.mem_cons_self ..)).bind (hrest.map (image a :: ·))

end Read

namespace Codec

structure Gauges (c : Codec α) (version : Int32) (image : α → α) (extents : α → List Extent) :
    Prop where
  writes : ∀ limits a,
    (c.emit ⟨version, limits⟩ a).failure = misfit? limits (extents (image a))
  reads : ∀ writer reader a, (c.parse ⟨version, reader⟩).Gauges reader
    (c.emit ⟨version, writer⟩ a) (extents (image a)) (image a)

variable {c : Codec α} {d : Codec β} {image : α → α} {image' : β → β} {version : Int32}
  {xs : α → List Extent} {ys : β → List Extent}

theorem Carries.gauges (h : c.Carries version image)
    (hdone : ∀ terms a, (c.emit terms a).failure = none)
    (hsame : ∀ limits limits' a, c.emit ⟨version, limits⟩ a = c.emit ⟨version, limits'⟩ a) :
    c.Gauges version image fun _ => [] where
  writes limits a := hdone ⟨version, limits⟩ a
  reads writer reader a := by
    rw [hsame writer reader]
    exact (h reader reader ⟨Nat.le_refl _, Nat.le_refl _⟩ a).gauges reader

theorem byte_gauges : byte.Gauges version id fun _ => [] :=
  byte_carries.gauges (fun _ _ => rfl) fun _ _ _ => rfl

theorem int32_gauges : int32.Gauges version id fun _ => [] :=
  int32_carries.gauges (fun _ _ => rfl) fun _ _ _ => rfl

theorem bool_gauges : bool.Gauges version id fun _ => [] :=
  bool_carries.gauges (fun _ _ => rfl) fun _ _ _ => rfl

theorem coded_gauges [Coded α] [Inhabited α] : (coded (α := α)).Gauges version id fun _ => [] :=
  coded_carries.gauges (fun _ _ => rfl) fun _ _ _ => rfl

theorem span_gauges : span.Gauges version id fun _ => [] :=
  span_carries.gauges (fun _ _ => rfl) fun _ _ _ => rfl

theorem Gauges.iso (h : c.Gauges version image xs) {wrap : α → β} {unwrap : β → α}
    (hblank : ∀ terms, c.read terms (unwrap (wrap c.blank)) = c.parse terms)
    (hwrap : ∀ b, wrap (image (unwrap b)) = image' b)
    (hextents : ∀ b, ys (image' b) = xs (image (unwrap b))) :
    (c.iso wrap unwrap).Gauges version image' ys where
  writes limits b := by
    rw [hextents]
    exact h.writes limits (unwrap b)
  reads writer reader b := by
    have hparse : (c.iso wrap unwrap).parse ⟨version, reader⟩ =
        wrap <$> c.parse ⟨version, reader⟩ := congrArg (wrap <$> ·) (hblank ⟨version, reader⟩)
    rw [hparse, hextents, ← hwrap b]
    exact (h.reads writer reader (unwrap b)).map wrap

theorem Gauges.pair (hc : c.Gauges version image xs) (hd : d.Gauges version image' ys) :
    (c.pair d).Gauges version (Prod.map image image') fun p => xs p.1 ++ ys p.2 where
  writes limits p := by
    rw [misfit?_append]
    exact (Emission.failure_append_eq_or _ _).trans
      (congr (congrArg Option.or (hc.writes limits p.1)) (hd.writes limits p.2))
  reads writer reader p :=
    (hc.reads writer reader p.1).bind
      ((hd.reads writer reader p.2).bind_pure (Prod.mk (image p.1)))

theorem Gauges.optional (h : c.Gauges version image xs) :
    c.optional.Gauges version (Option.map image) (Extent.optional xs) where
  writes limits a? := by
    cases a? with
    | none => rfl
    | some a => exact (Emission.failure_of_done_append rfl _).trans (h.writes limits a)
  reads writer reader a? := by
    cases a? with
    | none =>
        rw [← Emission.append_empty (c.optional.emit _ none)]
        exact (bool_gauges.reads writer reader false).bind ((Read.recovers_pure none).gauges reader)
    | some a =>
        exact (bool_gauges.reads writer reader true).bind ((h.reads writer reader a).map some)

theorem gauges_of_extent {x : α → Extent} (written : α → Emission)
    (himage : ∀ a, x (image a) = x a) (hdone : ∀ a, (written a).failure = none)
    (hfits : ∀ limits a, (x a).Fits limits → c.emit ⟨version, limits⟩ a = written a)
    (hmisfit : ∀ limits a, ¬(x a).Fits limits →
      c.emit ⟨version, limits⟩ a = .fail ((x a).error limits))
    (hreads : ∀ writer reader a, (x a).Fits writer →
      (c.parse ⟨version, reader⟩).Gauges reader (written a) [x a] (image a)) :
    c.Gauges version image fun a => [x a] where
  writes limits a := by
    rw [himage]
    by_cases h : (x a).Fits limits
    · rw [hfits limits a h, hdone, misfit?_singleton_of_fits h]
    · rw [hmisfit limits a h, misfit?_singleton_of_not_fits h]
      rfl
  reads writer reader a := by
    rw [himage]
    by_cases h : (x a).Fits writer
    · rw [hfits writer a h]
      exact hreads writer reader a h
    · rw [hmisfit writer a h]
      exact Read.gauges_fail _ _ _ _ _

theorem text_gauges : text.Gauges version id fun s => [.text s] := by
  refine gauges_of_extent (fun s => .chunk (littleEndian 4 (Text.utf8 s).length) ++
    .chunk (Text.utf8 s)) (fun _ => rfl) (fun _ => rfl) ?_ ?_ ?_
  · intro limits s h
    exact if_pos h
  · intro limits s h
    exact if_neg h
  · intro writer reader s h
    -- The reader tests the length alone; that a word holds it is the writer's doing.
    have hfits : (Extent.text s).Fits reader ↔ (Text.utf8 s).length ≤ reader.maxText :=
      and_iff_left h.2
    have hlength : ((word 4).parse ⟨version, reader⟩).Recovers
        (.chunk (littleEndian 4 (Text.utf8 s).length)) (Text.utf8 s).length :=
      word_recovers ⟨version, writer⟩ ⟨version, reader⟩ h.2
    have hbody := Read.gauges_check hfits rfl (Read.recovers_bytes .endInBody (Text.utf8 s))
    have hsized : ((sized "string").parse ⟨version, reader⟩).Gauges reader
        (.chunk (littleEndian 4 (Text.utf8 s).length) ++ .chunk (Text.utf8 s))
        [.text s] (Text.utf8 s) := (hlength.gauges reader).bind hbody
    rw [← Emission.append_empty (_ ++ _), ← List.append_nil [Extent.text s]]
    refine hsized.bind ?_
    simp only [Text.ofUtf8_utf8]
    exact (Read.recovers_pure s).gauges reader

theorem count_gauges (what : String) : (count what).Gauges version id fun n => [.items what n] := by
  refine gauges_of_extent (fun n => int32.emit ⟨version, {}⟩ (Int32.ofNat n)) (fun _ => rfl)
    (fun _ => rfl) ?_ ?_ ?_
  · intro limits n h
    have hfault : countFault? what limits n = none := if_pos h
    simp only [count, hfault]
    rfl
  · intro limits n h
    have hfault : countFault? what limits n = some ((Extent.items what n).error limits) := if_neg h
    simp only [count, hfault]
  · intro writer reader n h
    have hword : (Int32.ofNat n).toInt = n := Int32.toInt_ofNat_of_lt h.2
    have hfits : (Extent.items what n).Fits reader ↔
        0 ≤ (n : Int) ∧ (n : Int) ≤ reader.maxItems := by
      simp only [Extent.Fits, and_iff_left h.2, Int.natCast_nonneg, true_and, Int.ofNat_le]
    have hcheck := Read.gauges_check hfits rfl (Read.recovers_pure n)
    rw [count_parse, ← Emission.append_empty (int32.emit _ _)]
    refine (int32_gauges.reads {} reader (Int32.ofNat n)).bind ?_
    simp only [id, hword]
    exact hcheck

theorem concat_failure_eq (h : c.Gauges version image xs) (limits : Limits) (as : List α) :
    (Emission.concat (as.map (c.emit ⟨version, limits⟩))).failure =
      misfit? limits ((as.map image).flatMap xs) := by
  induction as with
  | nil => rfl
  | cons a as ih =>
      rw [List.map_cons, Emission.concat, Emission.failure_append_eq_or, h.writes, ih,
        List.map_cons, List.flatMap_cons, misfit?_append]

theorem Gauges.items (h : c.Gauges version image xs) (what : String) :
    (c.items what).Gauges version (List.map image) (Extent.listed what xs) where
  writes limits as := by
    have hcount : ((count what).emit ⟨version, limits⟩ as.length).failure =
        misfit? limits [.items what as.length] := (count_gauges what).writes limits as.length
    have hitems := concat_failure_eq h limits as
    rw [Extent.listed, ← List.singleton_append, misfit?_append, List.length_map, ← hitems]
    exact (Emission.failure_append_eq_or _ _).trans (congrArg (Option.or · _) hcount)
  reads writer reader as := by
    rw [Extent.listed, ← List.singleton_append, List.length_map]
    exact ((count_gauges what).reads writer reader as.length).bind
      (Read.gauges_times fun a _ => h.reads writer reader a)

theorem Gauges.since {c : Codec (Option α)} {xs : Option α → List Extent}
    (h : c.Gauges version id xs) (hblank : c.blank = none) (hnone : xs none = []) (first : Int32) :
    (c.since first).Gauges version (fun a? => if version < first then none else a?) xs := by
  by_cases hv : version < first
  · have hemit (limits : Limits) (a? : Option α) : (c.since first).emit ⟨version, limits⟩ a? = ∅ :=
      if_pos hv
    have hparse (limits : Limits) : (c.since first).parse ⟨version, limits⟩ = pure none := if_pos hv
    simp only [if_pos hv]
    constructor
    · intro limits a?
      rw [hemit, hnone]
      rfl
    · intro writer reader a?
      rw [hemit, hparse, hnone]
      exact (Read.recovers_pure none).gauges reader
  · have hemit (limits : Limits) (a? : Option α) :
        (c.since first).emit ⟨version, limits⟩ a? = c.emit ⟨version, limits⟩ a? := if_neg hv
    have hparse (limits : Limits) :
        (c.since first).parse ⟨version, limits⟩ = c.parse ⟨version, limits⟩ := by
      rw [parse.eq_def c, hblank]
      exact if_neg hv
    simp only [if_neg hv]
    constructor
    · intro limits a?
      rw [hemit]
      exact h.writes limits a?
    · intro writer reader a?
      rw [hemit, hparse]
      exact h.reads writer reader a?

theorem optionalText_gauges : optionalText.Gauges version id Extent.optionalText := by
  have h : optionalText.Gauges version (Option.map id) Extent.optionalText := text_gauges.optional
  rwa [Option.map_id] at h

theorem textList_gauges : textList.Gauges version id (Extent.textList "string list") := by
  have h : textList.Gauges version (List.map id) (Extent.textList "string list") :=
    text_gauges.items "string list"
  rwa [List.map_id_fun] at h

theorem propertyTable_gauges :
    propertyTable.Gauges version PropertyTable.image PropertyTable.extents := by
  have hpair : (text.pair text).Gauges version (Prod.map id id) _ := text_gauges.pair text_gauges
  have hitems := hpair.items "property table"
  rw [Prod.map_id, List.map_id_fun] at hitems
  constructor
  · intro limits t
    exact hitems.writes limits t.filled.entries
  · intro writer reader t
    have h := (hitems.reads writer reader t.filled.entries).map PropertyTable.ofList
    rwa [id, PropertyTable.ofList_entries, PropertyTable.filled_eq_image] at h

theorem instant_gauges :
    instant.Gauges version Instant.normal fun t => [.time t.toNanos] := by
  have hword {t : Instant} {limits : Limits} (h : (Extent.time t.toNanos).Fits limits) :
      t.toWord? = some (Int64.ofInt t.toNanos) := if_pos h
  refine gauges_of_extent (fun t => int64.emit ⟨version, {}⟩ (Int64.ofInt t.toNanos))
    (fun t => congrArg Extent.time (Instant.toNanos_ofNanos t.toNanos)) (fun _ => rfl) ?_ ?_ ?_
  · intro limits t h
    simp only [instant, hword h]
    rfl
  · intro limits t h
    have hnone : t.toWord? = none := if_neg h
    simp only [instant, hnone]
    rfl
  · intro writer reader t h hdone rest fault
    have hemit : instant.emit ⟨version, reader⟩ t =
        int64.emit ⟨version, {}⟩ (Int64.ofInt t.toNanos) := by
      simp only [instant, hword h]
      rfl
    have hfits : (Extent.time t.toNanos).Fits reader := h
    rw [misfit?_singleton_of_fits hfits, ← hemit]
    exact instant_carries reader reader ⟨Nat.le_refl _, Nat.le_refl _⟩ t (hemit ▸ hdone) rest fault

theorem presentText_gauges : presentText.Gauges version id fun s => [.text s] := by
  refine optionalText_gauges.iso ?_ ?_ ?_
  · intro terms
    rfl
  · intro s
    rfl
  · intro s
    rfl

theorem argTexts_gauges :
    argTexts.Gauges version id (Extent.optional (Extent.textList "argument list")) := by
  have h : argTexts.Gauges version (Option.map (List.map id))
      (Extent.optional (Extent.textList "argument list")) :=
    (presentText_gauges.items "argument list").optional
  rwa [List.map_id_fun, Option.map_id] at h

end Codec

end BuildFeed
