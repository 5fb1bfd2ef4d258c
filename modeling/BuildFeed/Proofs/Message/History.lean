import BuildFeed.Message.Family

namespace BuildFeed

inductive MessageOp (σ : Type) where
  | read (i : Nat) (format : Formatter (StateM σ)) (resolve : Resolver)
  | args (i : Nat)
  | isFormatted (i : Nat)
  | parts (i : Nat)
  | copy (i : Nat)
  | rewire (i : Nat)
  | same (i j : Nat)

inductive MessageAnswer where
  | text (text : Option String)
  | args (args : Option (List Arg))
  | flag (flag : Bool)
  | parts (parts : MessageParts)
  | index (i : Nat)
  | absent
  deriving DecidableEq

structure MessageHistory (σ : Type) where
  family : MessageFamily
  calls : List Nat := []
  state : σ

variable {σ : Type}

def MessageOp.reads (k : Nat) : MessageOp σ → Bool
  | read i _ _ => i = k
  | _ => false

def recorded (i : Nat) (format : Formatter (StateM σ)) : Formatter (StateT (List Nat) (StateM σ)) :=
  fun locale template args => do
    modify (· ++ [i])
    format locale template args

namespace MessageHistory

def readWith (format : Formatter (StateM σ)) (resolve : Resolver) (i : Nat)
    (h : MessageHistory σ) : Option String × MessageHistory σ :=
  let reading := h.family.readWith (m := StateT (List Nat) (StateM σ)) (recorded i format) resolve i
  let (((text, family), calls), state) := (reading.run h.calls).run h.state
  (text, ⟨family, calls, state⟩)

def look (i : Nat) (answer : Message → MessageAnswer) (h : MessageHistory σ) : MessageAnswer :=
  (h.family[i]?.map answer).getD .absent

def perform (h : MessageHistory σ) : MessageOp σ → MessageAnswer × MessageHistory σ
  | .read i format resolve =>
      let (text, later) := h.readWith format resolve i
      (.text text, later)
  | .args i => (h.look i fun message => .args message.args, h)
  | .isFormatted i => (h.look i fun message => .flag message.isFormatted, h)
  | .parts i => (h.look i fun message => .parts message.toParts, h)
  | .copy i => (.index h.family.length, { h with family := h.family.copy i })
  | .rewire i => (.index h.family.length, { h with family := h.family.rewire i })
  | .same i j => (.flag (h.family.same i j), h)

def after (h : MessageHistory σ) (ops : List (MessageOp σ)) : MessageHistory σ :=
  ops.foldl (fun h op => (h.perform op).2) h

end MessageHistory

namespace Message

def needsFormat (message : Message) : Bool :=
  match message.state with
  | .raw (some _) _ => true
  | _ => false

def textUnder (format : Formatter (StateM σ)) (resolve : Resolver) (state : σ) (message : Message) :
    Option String :=
  match message.state with
  | .formatted text => text
  | .raw none _ => none
  | .raw (some template) args =>
      some (match (format (resolve (message.locale.getD "")) template args state).1 with
        | .ok text => text
        | .error error => error.diagnostic template)

structure Evolves (read : Bool) (message later : Message) : Prop where
  locale : later.locale = message.locale
  kept : message.isFormatted = true → later = message
  untouched : read = false → later = message
  formatted : read = true → later.isFormatted = true

theorem Evolves.refl (message : Message) : Evolves false message message :=
  ⟨rfl, fun _ => rfl, fun _ => rfl, nofun⟩

theorem Evolves.trans {read again : Bool} {message later last : Message}
    (h : Evolves read message later) (hagain : Evolves again later last) :
    Evolves (read || again) message last where
  locale := hagain.locale.trans h.locale
  kept hformatted := by
    have hsame := h.kept hformatted
    rw [hagain.kept (hsame ▸ hformatted), hsame]
  untouched hread := by
    obtain ⟨hread, hagain'⟩ := Bool.or_eq_false_iff.1 hread
    rw [hagain.untouched hagain', h.untouched hread]
  formatted hread := by
    rcases Bool.or_eq_true_iff.1 hread with hread | hread
    · have hlater := h.formatted hread
      rwa [hagain.kept hlater]
    · exact hagain.formatted hread

theorem needsFormat_of_formatted {message : Message} (h : message.isFormatted = true) :
    message.needsFormat = false := by
  cases message with
  | mk content locale =>
    cases content with
    | formatted text => rfl
    | raw template args => cases h

theorem args_isSome (message : Message) : message.args.isSome = !message.isFormatted := by
  cases message with
  | mk content locale => cases content <;> rfl

theorem isFormatted_of_args {message : Message} (h : message.args = none) :
    message.isFormatted = true := by
  simpa [h] using message.args_isSome

theorem evolves_formatted (format : Formatter (StateM σ)) (resolve : Resolver) (state : σ)
    (message : Message) :
    Evolves true message
      ⟨.formatted (message.textUnder format resolve state), message.locale⟩ where
  locale := rfl
  kept h := by
    cases message with
    | mk content locale =>
      cases content with
      | formatted text => rfl
      | raw template args => cases h
  untouched := nofun
  formatted _ := rfl

theorem readWith_recorded (i : Nat) (format : Formatter (StateM σ)) (resolve : Resolver)
    (calls : List Nat) (state : σ) (message : Message) :
    ∃ later, ((message.readWith (recorded i format) resolve).run calls).run state =
      (((message.textUnder format resolve state,
          ⟨.formatted (message.textUnder format resolve state), message.locale⟩),
        calls ++ if message.needsFormat then [i] else []), later) := by
  cases message with
  | mk content locale =>
    cases content with
    | formatted text =>
      refine ⟨state, ?_⟩
      rw [needsFormat, if_neg Bool.false_ne_true, List.append_nil]
      rfl
    | raw template args =>
      cases template with
      | none =>
        refine ⟨state, ?_⟩
        rw [needsFormat, if_neg Bool.false_ne_true, List.append_nil]
        rfl
      | some template => exact ⟨(format (resolve (locale.getD "")) template args state).2, rfl⟩

end Message

namespace MessageHistory

variable {h : MessageHistory σ} {k : Nat} {message : Message}

theorem readWith_present (hk : h.family[k]? = some message) (format : Formatter (StateM σ))
    (resolve : Resolver) :
    ∃ state, h.readWith format resolve k =
      (message.textUnder format resolve h.state,
        ⟨h.family.set k ⟨.formatted (message.textUnder format resolve h.state), message.locale⟩,
          h.calls ++ if message.needsFormat then [k] else [], state⟩) := by
  obtain ⟨state, hread⟩ := message.readWith_recorded k format resolve h.calls h.state
  refine ⟨state, ?_⟩
  simp only [readWith, MessageFamily.readWith, hk]
  change (let reading := ((message.readWith (recorded k format) resolve).run h.calls).run h.state
    (reading.1.1.1,
      (⟨h.family.set k reading.1.1.2, reading.1.2, reading.2⟩ : MessageHistory σ))) = _
  rw [hread]

theorem readWith_absent (hk : h.family[k]? = none) (format : Formatter (StateM σ))
    (resolve : Resolver) : h.readWith format resolve k = (none, h) := by
  simp only [readWith, MessageFamily.readWith, hk]
  rfl

def needsFormat (h : MessageHistory σ) (k : Nat) : Bool :=
  h.family[k]?.any Message.needsFormat

theorem perform_of_not_read (h : MessageHistory σ) {op : MessageOp σ}
    (hop : ∀ k, op.reads k = false) :
    ∃ born, (h.perform op).2 = { h with family := h.family ++ born } := by
  cases op with
  | read i format resolve => simpa [MessageOp.reads] using hop i
  | copy i => exact ⟨_, rfl⟩
  | rewire i => exact ⟨_, rfl⟩
  | args i | isFormatted i | parts i | same i j => exact ⟨[], by rw [List.append_nil]; rfl⟩

theorem perform_evolves (h : MessageHistory σ) (op : MessageOp σ)
    (hk : h.family[k]? = some message) :
    ∃ later, (h.perform op).2.family[k]? = some later ∧
      message.Evolves (op.reads k) later := by
  have hlength := (List.getElem?_eq_some_iff.1 hk).1
  by_cases hop : ∀ i, op.reads i = false
  · obtain ⟨born, hborn⟩ := h.perform_of_not_read hop
    rw [hborn, hop k]
    exact ⟨message, by rwa [List.getElem?_append_left hlength], .refl message⟩
  · cases op with
    | read i format resolve =>
      change ∃ later, (h.readWith format resolve i).2.family[k]? = some later ∧
        message.Evolves (decide (i = k)) later
      cases hi : h.family[i]? with
      | none =>
        rw [readWith_absent hi]
        have hne : i ≠ k := by
          rintro rfl
          cases hi.symm.trans hk
        rw [decide_eq_false hne]
        exact ⟨message, hk, .refl message⟩
      | some other =>
        obtain ⟨state, hread⟩ := readWith_present hi format resolve
        rw [hread]
        by_cases hik : i = k
        · subst hik
          cases hi.symm.trans hk
          rw [decide_eq_true rfl]
          exact ⟨_, List.getElem?_set_self hlength, message.evolves_formatted format resolve h.state⟩
        · rw [decide_eq_false hik]
          exact ⟨message, by rwa [List.getElem?_set_ne hik], .refl message⟩
    | _ => exact absurd (fun _ => rfl) hop

theorem perform_calls (h : MessageHistory σ) (op : MessageOp σ) (k : Nat) :
    (h.perform op).2.calls.count k =
      h.calls.count k + if op.reads k && h.needsFormat k then 1 else 0 := by
  by_cases hop : ∀ i, op.reads i = false
  · obtain ⟨born, hborn⟩ := h.perform_of_not_read hop
    rw [hborn, hop k, Bool.false_and, if_neg Bool.false_ne_true, Nat.add_zero]
  · cases op with
    | read i format resolve =>
      change (h.readWith format resolve i).2.calls.count k =
        h.calls.count k + if decide (i = k) && h.needsFormat k then 1 else 0
      cases hi : h.family[i]? with
      | none =>
        rw [readWith_absent hi]
        by_cases hik : i = k
        · subst hik
          simp [needsFormat, hi]
        · simp [hik]
      | some other =>
        obtain ⟨state, hread⟩ := readWith_present hi format resolve
        rw [hread]
        by_cases hik : i = k
        · subst hik
          cases hneeds : other.needsFormat <;> simp [needsFormat, hi, hneeds]
        · cases other.needsFormat <;> simp [hik]
    | _ => exact absurd (fun _ => rfl) hop

theorem after_cons (h : MessageHistory σ) (op : MessageOp σ) (ops : List (MessageOp σ)) :
    h.after (op :: ops) = (h.perform op).2.after ops :=
  rfl

theorem after_evolves (h : MessageHistory σ) (ops : List (MessageOp σ))
    (hk : h.family[k]? = some message) :
    ∃ later, (h.after ops).family[k]? = some later ∧
      message.Evolves (ops.any (·.reads k)) later := by
  induction ops generalizing h message with
  | nil => exact ⟨message, hk, .refl message⟩
  | cons op ops ih =>
    obtain ⟨next, hnext, hfirst⟩ := h.perform_evolves op hk
    obtain ⟨later, hlater, hrest⟩ := ih (h.perform op).2 hnext
    exact ⟨later, hlater, hfirst.trans hrest⟩

theorem after_calls (h : MessageHistory σ) (ops : List (MessageOp σ))
    (hk : h.family[k]? = some message) :
    (h.after ops).calls.count k =
      h.calls.count k + if ops.any (·.reads k) && message.needsFormat then 1 else 0 := by
  induction ops generalizing h message with
  | nil => rfl
  | cons op ops ih =>
    obtain ⟨next, hnext, hfirst⟩ := h.perform_evolves op hk
    have hneeds : h.needsFormat k = message.needsFormat := by simp [needsFormat, hk]
    rw [after_cons, ih (h.perform op).2 hnext, h.perform_calls op k, hneeds, List.any_cons]
    -- a read leaves nothing to format for those that come after it
    cases hread : op.reads k with
    | false =>
      rw [hfirst.untouched hread]
      simp
    | true =>
      rw [Message.needsFormat_of_formatted (hfirst.formatted hread)]
      simp

def FormattedOnce (h : MessageHistory σ) : Prop :=
  ∀ k, h.calls.count k = 0 ∨
    h.calls.count k = 1 ∧ ∃ message, h.family[k]? = some message ∧ message.isFormatted = true

theorem formattedOnce_perform (hh : h.FormattedOnce) (op : MessageOp σ) :
    (h.perform op).2.FormattedOnce := by
  intro k
  rw [h.perform_calls op k]
  rcases hh k with hnone | ⟨hone, message, hk, hformatted⟩
  · by_cases hformats : op.reads k && h.needsFormat k
    · obtain ⟨hread, hneeds⟩ := Bool.and_eq_true_iff.1 hformats
      obtain ⟨message, hk, -⟩ := (Option.any_eq_true _ _).1 hneeds
      obtain ⟨later, hlater, hevolves⟩ := h.perform_evolves op hk
      right
      rw [hnone, if_pos hformats]
      exact ⟨rfl, later, hlater, hevolves.formatted hread⟩
    · left
      rw [hnone, if_neg hformats]
  · obtain ⟨later, hlater, hevolves⟩ := h.perform_evolves op hk
    have hneeds : h.needsFormat k = false := by
      simp [needsFormat, hk, Message.needsFormat_of_formatted hformatted]
    right
    rw [hone, hneeds, Bool.and_false]
    exact ⟨rfl, later, hlater, by rwa [hevolves.kept hformatted]⟩

theorem formattedOnce_after (hh : h.FormattedOnce) (ops : List (MessageOp σ)) :
    (h.after ops).FormattedOnce := by
  induction ops generalizing h with
  | nil => exact hh
  | cons op ops ih => exact ih (formattedOnce_perform hh op)

theorem look_of_present (hk : h.family[k]? = some message) (answer : Message → MessageAnswer) :
    h.look k answer = answer message := by
  rw [look, hk]
  rfl

theorem perform_read (hk : h.family[k]? = some message) (format : Formatter (StateM σ))
    (resolve : Resolver) :
    (h.perform (.read k format resolve)).1 = .text (message.textUnder format resolve h.state) ∧
      (h.perform (.read k format resolve)).2.family[k]? =
        some ⟨.formatted (message.textUnder format resolve h.state), message.locale⟩ := by
  obtain ⟨state, hread⟩ := readWith_present hk format resolve
  have hlength := (List.getElem?_eq_some_iff.1 hk).1
  simp only [perform, hread]
  exact ⟨trivial, List.getElem?_set_self hlength⟩

theorem text_of_later_read (hk : h.family[k]? = some message) (format format' : Formatter (StateM σ))
    (resolve resolve' : Resolver) (ops : List (MessageOp σ)) :
    (((h.perform (.read k format resolve)).2.after ops).perform (.read k format' resolve')).1 =
      (h.perform (.read k format resolve)).1 := by
  obtain ⟨htext, hfirst⟩ := perform_read hk format resolve
  obtain ⟨later, hlater, hevolves⟩ := after_evolves _ ops hfirst
  rw [(perform_read hlater format' resolve').1, htext, hevolves.kept rfl]
  rfl

theorem perform_copy (hk : h.family[k]? = some message) {op : MessageOp σ}
    (hop : op = .copy k ∨ op = .rewire k) :
    h.perform op = (.index h.family.length, { h with family := h.family ++ [message] }) := by
  rcases hop with rfl | rfl
  · simp only [perform, MessageFamily.copy, hk]
    rfl
  · simp only [perform, MessageFamily.rewire, hk, Option.map_some, Message.ofParts_toParts]
    rfl

theorem each_message_is_formatted_at_most_once (family : MessageFamily) (state : σ)
    (before after : List (MessageOp σ)) :
    let mid := MessageHistory.after { family, state } before
    let last := mid.after after
    (∀ k, last.calls.count k ≤ 1) ∧
    ∀ k message, mid.family[k]? = some message →
      (message.needsFormat = true →
        mid.calls.count k = 0 ∧
          last.calls.count k = if after.any (·.reads k) then 1 else 0) ∧
      (message.needsFormat = false → last.calls.count k = mid.calls.count k) ∧
      (∃ later, last.family[k]? = some later ∧ message.Evolves (after.any (·.reads k)) later ∧
        (last.perform (.args k)).1 = .args later.args ∧
        (last.perform (.isFormatted k)).1 = .flag (!later.args.isSome) ∧
        (message.args = none → later.args = none)) ∧
      (∀ format resolve format' resolve',
        let first := mid.perform (.read k format resolve)
        first.1 = .text (message.textUnder format resolve mid.state) ∧
          ((first.2.after after).perform (.read k format' resolve')).1 = first.1) ∧
      ∀ op, op = .copy k ∨ op = .rewire k →
        mid.perform op =
          (.index mid.family.length, { mid with family := mid.family ++ [message] }) := by
  intro mid last
  have hstart : FormattedOnce (σ := σ) { family, state } := fun _ => .inl rfl
  have hmid : mid.FormattedOnce := formattedOnce_after hstart before
  refine ⟨fun k => ?_, fun k message hk => ⟨fun hneeds => ?_, fun hneeds => ?_, ?_, ?_, ?_⟩⟩
  · rcases formattedOnce_after hmid after k with hnone | ⟨hone, -⟩
    · exact hnone ▸ Nat.zero_le 1
    · exact Nat.le_of_eq hone
  · have hunread : mid.calls.count k = 0 := by
      rcases hmid k with hnone | ⟨-, other, hother, hformatted⟩
      · exact hnone
      · cases hk.symm.trans hother
        rw [Message.needsFormat_of_formatted hformatted] at hneeds
        cases hneeds
    refine ⟨hunread, ?_⟩
    rw [mid.after_calls after hk, hunread, hneeds, Bool.and_true, Nat.zero_add]
  · rw [mid.after_calls after hk, hneeds, Bool.and_false, if_neg Bool.false_ne_true, Nat.add_zero]
  · obtain ⟨later, hlater, hevolves⟩ := mid.after_evolves after hk
    refine ⟨later, hlater, hevolves, look_of_present hlater _, ?_, fun hargs => ?_⟩
    · rw [later.args_isSome, Bool.not_not]
      exact look_of_present hlater _
    · rw [hevolves.kept (Message.isFormatted_of_args hargs), hargs]
  · intro format resolve format' resolve'
    exact ⟨(perform_read hk format resolve).1,
      text_of_later_read hk format format' resolve resolve' after⟩
  · exact fun op hop => perform_copy hk hop

theorem failed_read_fixes_the_text :
    let failing : Formatter (StateM Nat) := fun _ _ _ runs =>
      (.error (.indexOutOfRange 7 runs), runs + 1)
    let working : Formatter (StateM Nat) := fun _ _ _ runs => (.ok "late", runs + 1)
    let message : Message := .lazyIn "{0}" [.integer 1] "de"
    let before : List (MessageOp Nat) := [.copy 0, .read 1 working Locale.resolve]
    let after : List (MessageOp Nat) :=
      [.args 0, .read 0 failing Locale.resolve, .read 0 working Locale.resolve]
    let mid : MessageHistory Nat :=
      MessageHistory.after { family := [message, .plain (some "p")], state := 0 } before
    let first := mid.perform (.read 0 failing Locale.resolve)
    let last := mid.after after
    mid.family[0]? = some message ∧ mid.family[2]? = some message ∧
      message.needsFormat = true ∧
      first.1 = .text (some "\"{0}\"\nindex 7 is out of range for 0 argument(s)") ∧
      (first.2.perform (.read 0 working Locale.resolve)).1 = first.1 ∧
      mid.calls.count 0 = 0 ∧ last.calls.count 0 = 1 ∧
      last.calls.count 2 = 0 ∧ last.family[2]? = some message := by
  intro failing working message before after mid first last
  obtain ⟨-, hnext⟩ := each_message_is_formatted_at_most_once
    [message, .plain (some "p")] 0 before []
  obtain ⟨-, hlast⟩ := each_message_is_formatted_at_most_once
    [message, .plain (some "p")] 0 before after
  obtain ⟨htext, hagain⟩ :=
    (hnext 0 message rfl).2.2.2.1 failing Locale.resolve working Locale.resolve
  obtain ⟨hunread, honce⟩ := (hlast 0 message rfl).1 rfl
  obtain ⟨_, hnever⟩ := (hlast 2 message rfl).1 rfl
  obtain ⟨copied, hcopied, hevolves, _⟩ := (hlast 2 message rfl).2.2.1
  exact ⟨rfl, rfl, rfl, htext.trans (by decide), hagain, hunread, honce, hnever,
    hcopied.trans (congrArg some (hevolves.untouched rfl))⟩

end MessageHistory

end BuildFeed
