import BuildFeed.Proofs.Grammar.Frame

namespace BuildFeed

open Grammar (given mem_given mul_given)

variable {α β : Type}

namespace Read

def Accepts (r : Read α) (spell : α → Language UInt8) : Prop :=
  ∀ bytes fault a s, r ⟨bytes, fault⟩ = .ok a s ↔
    ∃ used rest, bytes = used ++ rest ∧ s = ⟨rest, fault⟩ ∧ used ∈ spell a

variable {r : Read α} {f : α → Read β} {spell : α → Language UInt8}

theorem Accepts.congr (h : r.Accepts spell) {spell' : α → Language UInt8}
    (hspell : ∀ a, spell' a = spell a) : r.Accepts spell' := by
  intro bytes fault a s
  rw [hspell]
  exact h bytes fault a s

theorem accepts_pure_of {a : α} {P : α → Prop} (h : ∀ b, P b ↔ b = a) :
    (pure a : Read α).Accepts fun b => given (P b) 1 := by
  intro bytes fault b s
  constructor
  · intro hread
    cases hread
    exact ⟨[], bytes, rfl, rfl, (h a).2 rfl, Language.nil_mem_one⟩
  · rintro ⟨used, rest, rfl, rfl, hb, hused⟩
    cases (h b).1 hb
    cases hused
    rfl

theorem accepts_pure (a : α) : (pure a : Read α).Accepts fun b => given (b = a) 1 :=
  accepts_pure_of fun _ => Iff.rfl

theorem accepts_throw (error : ProtocolError) {P : α → Prop} (h : ∀ b, ¬P b)
    (spell : α → Language UInt8) : (throw error : Read α).Accepts fun b => given (P b) (spell b) := by
  intro bytes fault b s
  constructor
  · intro hread
    cases hread
  · rintro ⟨used, rest, -, -, hb, -⟩
    exact absurd hb (h b)

theorem Accepts.bind (hr : r.Accepts spell) {next : α → β → Language UInt8}
    (hf : ∀ a, (f a).Accepts (next a)) :
    (r >>= f).Accepts fun b => Grammar.any fun a => spell a * next a b := by
  intro bytes fault b s
  constructor
  · intro hread
    cases hfirst : r ⟨bytes, fault⟩ with
    | error error t =>
        rw [bind_of_error hfirst] at hread
        cases hread
    | ok a t =>
        rw [bind_of_ok hfirst] at hread
        obtain ⟨front, back, rfl, rfl, hfront⟩ := (hr ..).1 hfirst
        obtain ⟨used, rest, rfl, rfl, hused⟩ := (hf a ..).1 hread
        exact ⟨front ++ used, rest, (List.append_assoc ..).symm, rfl, a,
          Language.append_mem_mul hfront hused⟩
  · rintro ⟨used, rest, rfl, rfl, a, hused⟩
    obtain ⟨front, hfront, back, hback, rfl⟩ := Language.mem_mul.1 hused
    rw [List.append_assoc, bind_of_ok ((hr ..).2 ⟨front, back ++ rest, rfl, rfl, hfront⟩)]
    exact (hf a ..).2 ⟨back, rest, rfl, rfl, hback⟩

theorem Accepts.hidden (hr : r.Accepts spell) {P : β → Prop} {next : α → β → Language UInt8}
    (hf : ∀ a, (f a).Accepts fun b => given (P b) (next a b)) :
    (r >>= f).Accepts fun b => given (P b) (Grammar.any fun a => spell a * next a b) := by
  refine (hr.bind hf).congr fun b => ?_
  ext bytes
  constructor
  · rintro ⟨hb, a, hbytes⟩
    obtain ⟨front, hfront, back, hback, rfl⟩ := Language.mem_mul.1 hbytes
    exact ⟨a, Language.append_mem_mul hfront ⟨hb, hback⟩⟩
  · rintro ⟨a, hbytes⟩
    obtain ⟨front, hfront, back, ⟨hb, hback⟩, rfl⟩ := Language.mem_mul.1 hbytes
    exact ⟨hb, a, Language.append_mem_mul hfront hback⟩

theorem Accepts.field (hr : r.Accepts spell) (field : β → α) {P : β → Prop}
    {next : β → Language UInt8}
    (hf : ∀ a, (f a).Accepts fun b => given (P b ∧ field b = a) (next b)) :
    (r >>= f).Accepts fun b => given (P b) (spell (field b) * next b) := by
  refine (hr.bind hf).congr fun b => ?_
  ext bytes
  constructor
  · rintro ⟨hb, hbytes⟩
    obtain ⟨front, hfront, back, hback, rfl⟩ := Language.mem_mul.1 hbytes
    exact ⟨field b, Language.append_mem_mul hfront ⟨⟨hb, rfl⟩, hback⟩⟩
  · rintro ⟨a, hbytes⟩
    obtain ⟨front, hfront, back, ⟨⟨hb, rfl⟩, hback⟩, rfl⟩ := Language.mem_mul.1 hbytes
    exact ⟨hb, Language.append_mem_mul hfront hback⟩

theorem Accepts.map (hr : r.Accepts spell) (wrap : α → β) :
    (wrap <$> r).Accepts fun b => {bytes | ∃ a, wrap a = b ∧ bytes ∈ spell a} := by
  rw [map_eq_pure_bind]
  refine (hr.bind fun a => accepts_pure (wrap a)).congr fun b => ?_
  ext bytes
  constructor
  · rintro ⟨a, rfl, hbytes⟩
    refine ⟨a, ?_⟩
    rw [← List.append_nil bytes]
    exact Language.append_mem_mul hbytes ⟨rfl, Language.nil_mem_one⟩
  · rintro ⟨a, hbytes⟩
    obtain ⟨front, hfront, back, ⟨rfl, hback⟩, rfl⟩ := Language.mem_mul.1 hbytes
    cases hback
    exact ⟨a, rfl, by rwa [List.append_nil]⟩

theorem Accepts.wrapped (hr : r.Accepts spell) {wrap : α → β} {P : β → Prop}
    {spell' : β → Language UInt8} (hwrap : ∀ b, P b ↔ ∃ a, wrap a = b)
    (hspell : ∀ a, spell' (wrap a) = spell a) :
    (wrap <$> r).Accepts fun b => given (P b) (spell' b) := by
  refine (hr.map wrap).congr fun b => ?_
  ext bytes
  constructor
  · rintro ⟨hb, hbytes⟩
    obtain ⟨a, rfl⟩ := (hwrap b).1 hb
    rw [hspell] at hbytes
    exact ⟨a, rfl, hbytes⟩
  · rintro ⟨a, rfl, hbytes⟩
    rw [← hspell] at hbytes
    exact ⟨(hwrap (wrap a)).2 ⟨a, rfl⟩, hbytes⟩

theorem Accepts.some (hr : r.Accepts spell) {spell' : Option α → Language UInt8}
    (hnone : spell' none = 0) (hsome : ∀ a, spell' (some a) = spell a) :
    (Option.some <$> r).Accepts spell' := by
  refine (hr.map Option.some).congr fun a? => ?_
  ext bytes
  cases a? with
  | none =>
      rw [hnone]
      constructor
      · rintro ⟨⟩
      · rintro ⟨a, ⟨⟩, hbytes⟩
  | some a =>
      rw [hsome]
      constructor
      · intro hbytes
        exact ⟨a, rfl, hbytes⟩
      · rintro ⟨b, heq, hbytes⟩
        cases heq
        exact hbytes

theorem accepts_bytes (ending : StreamError) (n : Nat) :
    (bytes ending n).Accepts fun front => given (front.length = n) {front} := by
  intro all fault front s
  constructor
  · intro hread
    by_cases h : (all.take n).length = n
    · simp only [bytes, EStateM.adaptExcept, Source.next, if_pos h] at hread
      cases hread
      exact ⟨all.take n, all.drop n, (List.take_append_drop n all).symm, rfl, h, rfl⟩
    · simp only [bytes, EStateM.adaptExcept, Source.next, if_neg h] at hread
      cases hread
  · rintro ⟨used, rest, rfl, rfl, rfl, hused⟩
    cases hused
    exact bytes_append ending _ rest fault

theorem Accepts.cons (hr : r.Accepts spell) {rs : Read (List α)}
    {spells : List α → Language UInt8} (hrs : rs.Accepts spells)
    {all : List α → Language UInt8} (hnil : all [] = 0)
    (hcons : ∀ a as, all (a :: as) = spell a * spells as) :
    (do let a ← r; let as ← rs; pure (a :: as)).Accepts all := by
  have hmap (a : α) := (hrs.map (a :: ·))
  simp only [map_eq_pure_bind] at hmap
  refine (hr.bind hmap).congr fun as => ?_
  ext bytes
  cases as with
  | nil =>
      rw [hnil]
      constructor
      · rintro ⟨⟩
      · rintro ⟨a, hbytes⟩
        obtain ⟨_, _, _, ⟨_, ⟨⟩, _⟩, _⟩ := Language.mem_mul.1 hbytes
  | cons a as =>
      rw [hcons]
      constructor
      · intro hbytes
        obtain ⟨front, hfront, back, hback, rfl⟩ := Language.mem_mul.1 hbytes
        exact ⟨a, Language.append_mem_mul hfront ⟨as, rfl, hback⟩⟩
      · rintro ⟨b, hbytes⟩
        obtain ⟨front, hfront, back, ⟨bs, heq, hback⟩, rfl⟩ := Language.mem_mul.1 hbytes
        cases heq
        exact Language.append_mem_mul hfront hback

theorem Accepts.times (hr : r.Accepts spell) (n : Nat) :
    (times n r).Accepts fun as => given (as.length = n) (as.map spell).prod := by
  induction n with
  | zero =>
      refine (accepts_pure []).congr fun as => ?_
      ext bytes
      cases as <;> simp [mem_given]
  | succ n ih =>
      refine hr.cons ih ?_ ?_
      · ext bytes
        simp [mem_given]
      · intro a as
        simp only [List.length_cons, Nat.add_right_cancel_iff, List.map_cons, List.prod_cons,
          mul_given]

theorem accepts_mapM {f : β → Read α} {spell : β → α → Language UInt8}
    (hf : ∀ b, (f b).Accepts (spell b)) (bs : List β) :
    (bs.mapM f).Accepts fun as => given (bs.length = as.length) (List.zipWith spell bs as).prod := by
  induction bs with
  | nil =>
      refine (accepts_pure []).congr fun as => ?_
      ext bytes
      cases as <;> simp [mem_given]
  | cons b bs ih =>
      rw [List.mapM_cons]
      refine (hf b).cons ih ?_ ?_
      · ext bytes
        simp [mem_given]
      · intro a as
        simp only [List.length_cons, Nat.add_right_cancel_iff, List.zipWith_cons_cons,
          List.prod_cons, mul_given]

end Read

end BuildFeed
