namespace BuildFeed

structure PropertyTable where
  entries : List (String × String)
  nodup : (entries.map Prod.fst).Nodup := by simp
  deriving DecidableEq

namespace PropertyTable

def empty : PropertyTable :=
  { entries := [] }

instance : Inhabited PropertyTable := ⟨empty⟩

def get? (name : String) (t : PropertyTable) : Option String :=
  (t.entries.find? (·.1 = name)).map Prod.snd

def replace (name value : String) (entry : String × String) : String × String :=
  if entry.1 = name then (name, value) else entry

theorem map_fst_replace (name value : String) (entries : List (String × String)) :
    (entries.map (replace name value)).map Prod.fst = entries.map Prod.fst := by
  rw [List.map_map]
  apply List.map_congr_left
  intro entry _
  simp only [Function.comp_apply, replace]
  split <;> simp_all

def insert (name value : String) (t : PropertyTable) : PropertyTable :=
  if h : name ∈ t.entries.map Prod.fst then
    ⟨t.entries.map (replace name value), by rw [map_fst_replace]; exact t.nodup⟩
  else
    ⟨t.entries ++ [(name, value)], by
      rw [List.map_append, List.nodup_append]
      refine ⟨t.nodup, by simp, ?_⟩
      intro a ha b hb
      simp only [List.map_cons, List.map_nil, List.mem_singleton] at hb
      subst hb
      exact fun e => h (e ▸ ha)⟩

def ofList (entries : List (String × String)) : PropertyTable :=
  entries.foldl (fun t entry => t.insert entry.1 entry.2) empty

theorem entries_foldl_insert (t : PropertyTable) (entries : List (String × String))
    (h : ((t.entries ++ entries).map Prod.fst).Nodup) :
    (entries.foldl (fun t entry => t.insert entry.1 entry.2) t).entries = t.entries ++ entries := by
  induction entries generalizing t with
  | nil => simp
  | cons entry entries ih =>
      have hnew : entry.1 ∉ t.entries.map Prod.fst := by
        rw [List.map_append, List.nodup_append] at h
        intro hm
        exact h.2.2 _ hm _ (List.mem_cons_self ..) rfl
      have hinsert : (t.insert entry.1 entry.2).entries = t.entries ++ [entry] := by
        rw [insert, dif_neg hnew]
      have happend : (t.insert entry.1 entry.2).entries ++ entries = t.entries ++ entry :: entries := by
        rw [hinsert, List.append_assoc, List.singleton_append]
      rw [List.foldl_cons, ih _ (by rwa [happend]), happend]

theorem eq_of_entries {s t : PropertyTable} (h : s.entries = t.entries) : s = t := by
  cases s
  cases t
  cases h
  rfl

theorem ofList_entries (t : PropertyTable) : ofList t.entries = t :=
  eq_of_entries (entries_foldl_insert empty t.entries t.nodup)

def filter (keep : String × String → Bool) (t : PropertyTable) : PropertyTable :=
  ⟨t.entries.filter keep, (List.filter_sublist.map _).nodup t.nodup⟩

def isFilled (entry : String × String) : Bool :=
  entry.1 ≠ "" ∧ entry.2 ≠ ""

def filled (t : PropertyTable) : PropertyTable :=
  t.filter isFilled

def same (s t : PropertyTable) : Bool :=
  s.entries.length = t.entries.length && s.entries.all fun entry => t.get? entry.1 = some entry.2

end PropertyTable

end BuildFeed
