import BuildFeed.Proofs.Grammar.Codec
import Mathlib.Data.List.Dedup

namespace BuildFeed

open Grammar (Gathers)

variable {pairs : List (String × String)} {t : PropertyTable}

namespace PropertyTable

theorem ofList_concat (pairs : List (String × String)) (pair : String × String) :
    ofList (pairs ++ [pair]) = (ofList pairs).insert pair.1 pair.2 := by
  simp only [ofList, List.foldl_append, List.foldl_cons, List.foldl_nil]

theorem insert_known {name value : String} (h : name ∈ t.entries.map Prod.fst) :
    (t.insert name value).entries = t.entries.map (replace name value) := by
  rw [insert, dif_pos h]

theorem insert_new {name value : String} (h : name ∉ t.entries.map Prod.fst) :
    (t.insert name value).entries = t.entries ++ [(name, value)] := by
  rw [insert, dif_neg h]

end PropertyTable

namespace Grammar

theorem eraseDups_concat (names : List String) (name : String) :
    (names ++ [name]).eraseDups =
      if name ∈ names then names.eraseDups else names.eraseDups ++ [name] := by
  rw [List.eraseDups_append]
  split
  · next h => simp [List.removeAll, h]
  · next h => simp [List.removeAll, h, List.eraseDups_cons]

theorem lookup_reverse_concat (pairs : List (String × String)) (pair : String × String)
    (name : String) :
    (pairs ++ [pair]).reverse.lookup name =
      if name = pair.1 then some pair.2 else pairs.reverse.lookup name := by
  rw [List.reverse_concat, List.lookup_cons]
  by_cases h : name = pair.1
  · simp [h]
  · have hbeq : (name == pair.1) = false := beq_eq_false_iff_ne.2 h
    rw [hbeq, if_neg h]

theorem gathers_insert (h : Gathers pairs t) (pair : String × String) :
    Gathers (pairs ++ [pair]) (t.insert pair.1 pair.2) := by
  obtain ⟨hnames, hvalues⟩ := h
  have hmem : pair.1 ∈ t.entries.map Prod.fst ↔ pair.1 ∈ pairs.map Prod.fst := by
    rw [hnames, List.mem_eraseDups]
  rw [Gathers, List.map_append, List.map_singleton, eraseDups_concat]
  by_cases hknown : pair.1 ∈ t.entries.map Prod.fst
  · rw [PropertyTable.insert_known hknown, PropertyTable.map_fst_replace, if_pos (hmem.1 hknown)]
    refine ⟨hnames, ?_⟩
    intro entry hentry
    obtain ⟨old, hold, rfl⟩ := List.mem_map.1 hentry
    rw [lookup_reverse_concat, PropertyTable.replace]
    by_cases hname : old.1 = pair.1
    · rw [if_pos hname, if_pos rfl]
    · rw [if_neg hname, if_neg hname]
      exact hvalues old hold
  · rw [PropertyTable.insert_new hknown, List.map_append, hnames, if_neg (hknown ∘ hmem.2)]
    refine ⟨rfl, ?_⟩
    intro entry hentry
    rw [lookup_reverse_concat]
    rcases List.mem_append.1 hentry with hold | hnew
    · have hname : entry.1 ≠ pair.1 := fun heq => hknown (heq ▸ List.mem_map_of_mem hold)
      rw [if_neg hname]
      exact hvalues entry hold
    · obtain rfl := List.mem_singleton.1 hnew
      exact if_pos rfl

theorem gathers_ofList (pairs : List (String × String)) :
    Gathers pairs (PropertyTable.ofList pairs) := by
  induction pairs using List.reverseRecOn with
  | nil => exact ⟨rfl, by rintro entry ⟨⟩⟩
  | append_singleton pairs pair ih =>
      rw [PropertyTable.ofList_concat]
      exact gathers_insert ih pair

theorem entries_of_gathers (h : Gathers pairs t) :
    t.entries = (pairs.map Prod.fst).eraseDups.map
      fun name => (name, (pairs.reverse.lookup name).getD "") := by
  rw [← h.1, List.map_map]
  refine (List.map_id t.entries).symm.trans (List.map_congr_left fun entry hentry => ?_)
  rw [Function.comp_apply, h.2 entry hentry, Option.getD_some, id]

theorem gathers_iff : Gathers pairs t ↔ PropertyTable.ofList pairs = t := by
  constructor
  · intro h
    apply PropertyTable.eq_of_entries
    rw [entries_of_gathers h, entries_of_gathers (gathers_ofList pairs)]
  · rintro rfl
    exact gathers_ofList pairs

theorem mem_of_gathers (h : Gathers pairs t) {entry : String × String} (hentry : entry ∈ t.entries) :
    entry ∈ pairs := by
  obtain ⟨before, after, hsplit, -⟩ := List.lookup_eq_some_iff.1 (h.2 entry hentry)
  rw [← List.mem_reverse, hsplit]
  exact List.mem_append_right before (List.mem_cons_self ..)

theorem length_le_of_gathers (h : Gathers pairs t) : t.entries.length ≤ pairs.length :=
  (List.Nodup.subperm t.nodup.of_map fun _ => mem_of_gathers h).length_le

end Grammar

namespace Codec

open Grammar (gathers_iff mem_of_gathers length_le_of_gathers)

theorem propertyTable_speaks (terms : Terms) :
    propertyTable.Speaks terms (Grammar.propertyTable terms.limits) := by
  have hitems : ((text.pair text).items "property table").Speaks terms
      (Grammar.counted terms.limits (Grammar.property terms.limits)) :=
    (text_speaks.pair text_speaks).items "property table"
  constructor
  · refine (hitems.reads.map PropertyTable.ofList).congr fun t => ?_
    ext bytes
    simp only [Grammar.propertyTable, gathers_iff]
  · rintro t bytes ⟨pairs, hpairs, stated, hstated, hle, hbytes⟩
    obtain ⟨front, -, back, hback, -⟩ := Language.mem_mul.1 hbytes
    have hsublist : List.Sublist t.filled.entries t.entries := List.filter_sublist
    have hcount : t.filled.entries.length ≤ pairs.length :=
      Nat.le_trans hsublist.length_le (length_le_of_gathers hpairs)
    refine Emission.failure_append.2 ⟨?_, Emission.concat_done fun entry hentry => ?_⟩
    · exact count_done hcount hstated hle
    · obtain ⟨part, hpart⟩ :=
        exists_mem_of_mem_prod hback entry (mem_of_gathers hpairs (hsublist.subset hentry))
      exact (text_speaks.pair text_speaks).writes hpart

end Codec

end BuildFeed
