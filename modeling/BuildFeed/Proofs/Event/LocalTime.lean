import BuildFeed.Proofs.InPlace.Forgetting

namespace BuildFeed

namespace Event

inductive Act where
  | withTime (time : Instant)
  | withThread (thread : Int32)
  | withSender (sender : String)
  | withHelp (help : String)
  | withContext (context : Context)
  | assignAll (assignments : List Assignment)
  | send (terms : Terms) (expected : EventType) (outlet : Outlet)
  | receive (terms : Terms) (expected : EventType) (source : Source)
  | readMessage
  | readLocalTime (zone : Zone)

def act (e : Event) : Act → Event
  | .withTime time => e.withTime time
  | .withThread thread => e.withThread thread
  | .withSender sender => e.withSender sender
  | .withHelp help => e.withHelp help
  | .withContext context => e.withContext context
  | .assignAll assignments => assignments.foldl assign e.copy
  | .send terms expected outlet => (InPlace.event terms expected).left (outlet, e)
  | .receive terms expected source => (InPlace.event terms expected).left (source, e)
  | .readMessage => e.readMessage.2
  | .readLocalTime zone => (e.readLocalTime zone).2

def IsFresh (e : Event) : Prop :=
  ∀ t ∈ e.localTime, t.instant = e.time

variable {e : Event}

theorem IsUnasked.isFresh (h : e.IsUnasked) : e.IsFresh := by
  intro t ht
  rw [h] at ht
  cases ht

theorem isUnasked_assignAll (assignments : List Assignment) (h : e.IsUnasked) :
    (assignments.foldl assign e).IsUnasked := by
  induction assignments generalizing e with
  | nil => exact h
  | cons assignment assignments ih =>
      have hassigned : (e.assign assignment).IsUnasked := by
        cases assignment <;> rfl
      exact ih hassigned

theorem IsFresh.instant_readLocalTime (h : e.IsFresh) (zone : Zone) :
    (e.readLocalTime zone).1.instant = e.time := by
  unfold readLocalTime
  cases hkept : e.localTime with
  | none => rfl
  | some t => exact h t hkept

theorem IsFresh.left_event {π : Type} [Port π] (h : e.IsFresh) (terms : Terms)
    (expected : EventType) (port : π) : ((InPlace.event terms expected).left (port, e)).IsFresh := by
  rcases InPlace.left_event terms expected port e with hsame | hunasked
  · rwa [hsame]
  · exact hunasked.isFresh

theorem IsFresh.act (h : e.IsFresh) (a : Act) : (e.act a).IsFresh := by
  cases a with
  | withTime time => exact IsUnasked.isFresh rfl
  | withThread | withSender | withHelp | withContext | readMessage => exact h
  | assignAll assignments => exact (isUnasked_assignAll assignments (e := e.copy) rfl).isFresh
  | send terms expected outlet => exact h.left_event terms expected outlet
  | receive terms expected source => exact h.left_event terms expected source
  | readLocalTime zone =>
      rintro t ⟨⟩
      exact h.instant_readLocalTime zone

theorem copy_act (e : Event) (a : Act) : (e.act a).copy = (e.copy.act a).copy := by
  cases a with
  | send terms expected outlet => exact InPlace.copy_left_event terms expected outlet e
  | receive terms expected source => exact InPlace.copy_left_event terms expected source e
  | _ => rfl

end Event

inductive EventOp where
  | raise (kind : EventKind) (message : Message) (time : Instant) (thread : Int32)
  | blank (type : EventType)
  | copy (i : Nat)
  | act (i : Nat) (a : Event.Act)

def EventOp.readsLocalTime : EventOp → Bool
  | act _ (.readLocalTime _) => true
  | _ => false

abbrev EventFamily := List Event

namespace EventFamily

def perform (family : EventFamily) : EventOp → EventFamily
  | .raise kind message time thread => family ++ [.of kind message time thread]
  | .blank type => family ++ [.blank type]
  | .copy i => family ++ (family[i]?.map Event.copy).toList
  | .act i a => family.modify i (·.act a)

def after (family : EventFamily) (ops : List EventOp) : EventFamily :=
  ops.foldl perform family

def same (i j : Nat) (family : EventFamily) : Bool :=
  match family[i]?, family[j]? with
  | some a, some b => i = j || a.same b
  | _, _ => false

def forgotten (family : EventFamily) : EventFamily :=
  family.map Event.copy

def IsFresh (family : EventFamily) : Prop :=
  ∀ e ∈ family, e.IsFresh

variable {family family' : EventFamily}

theorem IsFresh.append {born : List Event} (h : family.IsFresh)
    (hborn : ∀ e ∈ born, e.IsUnasked) : IsFresh (family ++ born) :=
  List.forall_mem_append.2 ⟨h, fun e he => (hborn e he).isFresh⟩

theorem IsFresh.modify (h : family.IsFresh) (i : Nat) (a : Event.Act) :
    IsFresh (family.modify i (·.act a)) := by
  intro later hlater
  obtain ⟨k, hk⟩ := List.mem_iff_getElem?.1 hlater
  rw [List.getElem?_modify] at hk
  obtain ⟨e, he, rfl⟩ := Option.map_eq_some_iff.1 hk
  have hfresh : e.IsFresh := h e (List.mem_of_getElem? he)
  split
  case isTrue => exact hfresh.act a
  case isFalse => exact hfresh

theorem IsFresh.perform (h : family.IsFresh) (op : EventOp) : (family.perform op).IsFresh := by
  cases op with
  | raise kind message time thread => exact h.append (List.forall_mem_singleton.2 rfl)
  | blank type => exact h.append (List.forall_mem_singleton.2 rfl)
  | copy i =>
      refine h.append fun born hborn => ?_
      obtain ⟨e, -, rfl⟩ := Option.map_eq_some_iff.1 (Option.mem_toList.1 hborn)
      rfl
  | act i a => exact h.modify i a

theorem IsFresh.after (h : family.IsFresh) (ops : List EventOp) : (family.after ops).IsFresh := by
  induction ops generalizing family with
  | nil => exact h
  | cons op ops ih => exact ih (h.perform op)

theorem forgotten_append (family born : EventFamily) :
    forgotten (family ++ born) = family.forgotten ++ born.forgotten :=
  List.map_append

theorem forgotten_forgotten (family : EventFamily) : family.forgotten.forgotten = family.forgotten :=
  List.map_map

theorem forgotten_modify {f g : Event → Event} (h : ∀ e, (f e).copy = (g e.copy).copy)
    (family : EventFamily) (i : Nat) :
    forgotten (family.modify i f) = forgotten (family.forgotten.modify i g) := by
  refine List.ext_getElem? fun k => ?_
  simp only [forgotten, List.getElem?_map, List.getElem?_modify]
  cases family[k]? with
  | none => rfl
  | some e =>
      refine congrArg some ?_
      by_cases hik : i = k
      · simp only [if_pos hik, h]
      · simp only [if_neg hik]
        rfl

theorem forgotten_perform (family : EventFamily) (op : EventOp) :
    (family.perform op).forgotten = (family.forgotten.perform op).forgotten := by
  cases op with
  | raise kind message time thread =>
      simp only [perform, forgotten_append, forgotten_forgotten]
  | blank type => simp only [perform, forgotten_append, forgotten_forgotten]
  | copy i =>
      simp only [perform, forgotten_append, forgotten_forgotten]
      simp only [forgotten, List.getElem?_map]
      cases family[i]? <;> rfl
  | act i a => exact family.forgotten_modify (fun e => e.copy_act a) i

theorem forgotten_perform_of_read (family : EventFamily) {op : EventOp}
    (hread : op.readsLocalTime = true) : (family.perform op).forgotten = family.forgotten := by
  cases op with
  | act i a =>
      cases a with
      | readLocalTime zone =>
          have hasked (e : Event) : (e.act (.readLocalTime zone)).copy = (id e.copy).copy := rfl
          rw [perform, family.forgotten_modify hasked, List.modify_id, forgotten_forgotten]
      | _ => cases hread
  | _ => cases hread

theorem forgotten_after (h : family.forgotten = family'.forgotten) (ops : List EventOp) :
    (family.after ops).forgotten =
      (family'.after (ops.filter fun op => !op.readsLocalTime)).forgotten := by
  induction ops generalizing family family' with
  | nil => exact h
  | cons op ops ih =>
      cases hread : op.readsLocalTime with
      | true =>
          rw [List.filter_cons_of_neg (by simp [hread])]
          exact ih ((family.forgotten_perform_of_read hread).trans h)
      | false =>
          rw [List.filter_cons_of_pos (by simp [hread])]
          refine ih ?_
          rw [family.forgotten_perform, h, ← family'.forgotten_perform]

theorem same_forgotten (i j : Nat) (family : EventFamily) :
    family.forgotten.same i j = family.same i j := by
  simp only [same, forgotten, List.getElem?_map]
  cases family[i]? <;> cases family[j]? <;> rfl

theorem local_time_is_never_stale (ops : List EventOp) :
    (∀ e ∈ after [] ops, ∀ zone, (e.readLocalTime zone).1.instant = e.time) ∧
      ∀ i j, (after [] ops).same i j =
        (after [] (ops.filter fun op => !op.readsLocalTime)).same i j := by
  constructor
  · intro e he
    have hfresh : IsFresh (after [] ops) := IsFresh.after (List.forall_mem_nil _) ops
    exact (hfresh e he).instant_readLocalTime
  · intro i j
    rw [← same_forgotten i j (after [] ops), forgotten_after rfl ops, same_forgotten]

theorem local_time_after_changes :
    let zone : Zone := fun _ => 3600
    let later : Instant := ⟨200, 0⟩
    let ops : List EventOp :=
      [.raise .buildStarted (.plain (some "go")) ⟨100, 0⟩ 1, .act 0 (.readLocalTime zone), .copy 0,
        .act 1 (.readLocalTime zone), .act 1 (.assignAll [.thread 2, .time later]), .copy 1,
        .act 1 (.readLocalTime zone), .act 0 (.receive ⟨currentVersion, {}⟩ .message ⟨[], none⟩)]
    ∃ received assigned copied, after [] ops = [received, assigned, copied] ∧
      (received.readLocalTime zone).1.instant = .epoch ∧
      (assigned.readLocalTime zone).1.instant = later ∧
      (copied.readLocalTime zone).1.instant = later ∧
      assigned.localTime ≠ copied.localTime ∧ (after [] ops).same 1 2 = true := by
  intro zone later ops
  obtain ⟨hshown, hsame⟩ := local_time_is_never_stale ops
  have hrun : after [] ops =
      [.blank .message,
        ⟨.buildStarted, .plain (some "go"), none, none, later, 2, .invalid, some ⟨later, 3600⟩⟩,
        ⟨.buildStarted, .plain (some "go"), none, none, later, 2, .invalid, none⟩] := rfl
  rw [hsame]
  rw [hrun] at hshown ⊢
  simp only [List.forall_mem_cons] at hshown
  obtain ⟨hreceived, hassigned, hcopied, -⟩ := hshown
  exact ⟨_, _, _, rfl, hreceived zone, hassigned zone, hcopied zone, nofun, rfl⟩

end EventFamily

end BuildFeed
