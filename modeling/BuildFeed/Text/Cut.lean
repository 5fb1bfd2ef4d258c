namespace BuildFeed.Text

def cutAt (mark : Char) (cs : List Char) : List Char × Option (List Char) :=
  (cs.takeWhile (· != mark), (cs.dropWhile (· != mark)).tail?)

theorem cutAt_of_not_mem {mark : Char} {cs : List Char} (h : mark ∉ cs) :
    cutAt mark cs = (cs, none) := by
  induction cs with
  | nil => rfl
  | cons c cs ih =>
      have hc : (c != mark) = true := by
        simp only [bne_iff_ne, ne_eq]
        exact fun e => h (e ▸ List.mem_cons_self ..)
      have := ih fun hm => h (List.mem_cons_of_mem _ hm)
      simp only [cutAt, Prod.mk.injEq] at this ⊢
      simp [hc, this]

theorem cutAt_append {mark : Char} {a : List Char} (h : mark ∉ a) (b : List Char) :
    cutAt mark (a ++ mark :: b) = (a, some b) := by
  induction a with
  | nil => simp [cutAt]
  | cons c a ih =>
      have hc : (c != mark) = true := by
        simp only [bne_iff_ne, ne_eq]
        exact fun e => h (e ▸ List.mem_cons_self ..)
      have := ih fun hm => h (List.mem_cons_of_mem _ hm)
      simp only [cutAt, Prod.mk.injEq] at this ⊢
      simp [hc, this]

def marked (mark : Char) : Option (List Char) → List Char
  | none => []
  | some cs => mark :: cs

theorem cutAt_marked {mark : Char} {front : List Char} (h : mark ∉ front)
    (rest : Option (List Char)) : cutAt mark (front ++ marked mark rest) = (front, rest) := by
  cases rest with
  | none => rw [marked, List.append_nil, cutAt_of_not_mem h]
  | some cs => exact cutAt_append h cs

theorem not_mem_cutAt (mark : Char) (cs : List Char) : mark ∉ (cutAt mark cs).1 := by
  intro h
  have hother := List.all_eq_true.1 List.all_takeWhile mark h
  simp at hother

theorem append_marked_cutAt (mark : Char) (cs : List Char) :
    (cutAt mark cs).1 ++ marked mark (cutAt mark cs).2 = cs := by
  by_cases h : mark ∈ cs
  · obtain ⟨front, rest, rfl, hfront⟩ := List.eq_append_cons_of_mem h
    rw [cutAt_append hfront, marked]
  · rw [cutAt_of_not_mem h, marked, List.append_nil]

end BuildFeed.Text
