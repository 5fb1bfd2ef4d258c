import BuildFeed.Proofs.Grammar.Accept

namespace BuildFeed.Codec

open Grammar (given given_of mem_given mul_given)

variable {α β : Type}

structure Speaks (c : Codec α) (terms : Terms) (spell : α → Language UInt8) : Prop where
  reads : (c.parse terms).Accepts spell
  writes : ∀ {a bytes}, bytes ∈ spell a → (c.emit terms a).failure = none

variable {c : Codec α} {d : Codec β} {terms : Terms} {spell : α → Language UInt8}
  {spell' : β → Language UInt8}

theorem Speaks.congr (h : c.Speaks terms spell) {spell' : α → Language UInt8}
    (hspell : ∀ a, spell' a = spell a) : c.Speaks terms spell' := by
  refine ⟨h.reads.congr hspell, ?_⟩
  intro a bytes hbytes
  rw [hspell] at hbytes
  exact h.writes hbytes

theorem Speaks.iso (h : c.Speaks terms spell) {wrap : α → β} {unwrap : β → α}
    (hblank : c.read terms (unwrap (wrap c.blank)) = c.parse terms)
    (hwrap : ∀ b, wrap (unwrap b) = b) (hunwrap : ∀ a, unwrap (wrap a) = a)
    (hspell : ∀ b, spell' b = spell (unwrap b)) : (c.iso wrap unwrap).Speaks terms spell' := by
  constructor
  · have hparse : (c.iso wrap unwrap).parse terms = wrap <$> c.parse terms :=
      congrArg (wrap <$> ·) hblank
    rw [hparse]
    refine (h.reads.map wrap).congr fun b => ?_
    ext bytes
    rw [hspell]
    constructor
    · intro hbytes
      exact ⟨unwrap b, hwrap b, hbytes⟩
    · rintro ⟨a, rfl, hbytes⟩
      rwa [hunwrap]
  · intro b bytes hbytes
    rw [hspell] at hbytes
    exact h.writes hbytes

theorem ofLittleEndian_eq_ofDigits (bytes : List UInt8) :
    ofLittleEndian bytes = Nat.ofDigits 256 (bytes.map UInt8.toNat) := by
  induction bytes with
  | nil => rfl
  | cons b bytes ih => rw [ofLittleEndian, ih, List.map_cons, Nat.ofDigits_cons]

theorem lt_of_mem_word {width n : Nat} {bytes : List UInt8} (h : bytes ∈ Grammar.word width n) :
    n < Nat.pow 256 width := by
  obtain ⟨rfl, rfl⟩ := h
  rw [← List.length_map (f := UInt8.toNat)]
  refine Nat.ofDigits_lt_base_pow_length (by decide) ?_
  intro digit hdigit
  obtain ⟨b, -, rfl⟩ := List.mem_map.1 hdigit
  exact b.toNat_lt

theorem word_accepts (terms : Terms) (width : Nat) :
    ((word width).parse terms).Accepts (Grammar.word width) := by
  refine ((Read.accepts_bytes .endInField width).map ofLittleEndian).congr fun n => ?_
  ext bytes
  constructor
  · rintro ⟨hlength, hn⟩
    exact ⟨bytes, (ofLittleEndian_eq_ofDigits bytes).trans hn, hlength, rfl⟩
  · rintro ⟨front, rfl, hlength, hbytes⟩
    cases hbytes
    exact ⟨hlength, (ofLittleEndian_eq_ofDigits bytes).symm⟩

theorem word_iso_speaks {width : Nat} {wrap : Nat → α} {unwrap : α → Nat}
    (hwrap : ∀ a, wrap (unwrap a) = a) (hunwrap : ∀ n < Nat.pow 256 width, unwrap (wrap n) = n) :
    ((word width).iso wrap unwrap).Speaks terms fun a => Grammar.word width (unwrap a) := by
  constructor
  · refine ((word_accepts terms width).map wrap).congr fun a => ?_
    ext bytes
    constructor
    · intro hbytes
      exact ⟨unwrap a, hwrap a, hbytes⟩
    · rintro ⟨n, rfl, hbytes⟩
      rwa [hunwrap n (lt_of_mem_word hbytes)]
  · intro a bytes _
    rfl

theorem byte_speaks : byte.Speaks terms fun b => {[b]} := by
  have hword : byte.Speaks terms fun b => Grammar.word 1 b.toNat :=
    word_iso_speaks (fun _ => UInt8.ofNat_toNat) fun _ hn => UInt8.toNat_ofNat_of_lt' hn
  refine hword.congr fun b => ?_
  ext bytes
  constructor
  · rintro ⟨⟩
    exact ⟨rfl, by simp⟩
  · rintro ⟨hlength, hvalue⟩
    obtain ⟨a, rfl⟩ := List.length_eq_one_iff.1 hlength
    rw [List.map_singleton, Nat.ofDigits_singleton] at hvalue
    rw [UInt8.toNat_inj.1 hvalue]
    rfl

theorem int32_speaks : int32.Speaks terms Grammar.int32 := by
  refine word_iso_speaks ?_ ?_
  · intro n
    rw [UInt32.ofNat_toNat, Int32.toInt32_toUInt32]
  · intro n hn
    rw [UInt32.toUInt32_toInt32]
    exact UInt32.toNat_ofNat_of_lt' hn

theorem uint64_speaks : uint64.Speaks terms fun n => Grammar.word 8 n.toNat :=
  word_iso_speaks (fun _ => UInt64.ofNat_toNat) fun _ hn => UInt64.toNat_ofNat_of_lt' hn

theorem int64_speaks : int64.Speaks terms Grammar.int64 :=
  uint64_speaks.iso rfl Int64.toInt64_toUInt64 UInt64.toUInt64_toInt64 fun _ => rfl

theorem bool_speaks : bool.Speaks terms Grammar.flag := by
  constructor
  · have hread : (bool.parse terms).Accepts fun b =>
        given True ({[if b then 1 else 0]} * 1) := by
      refine byte_speaks.reads.field (fun b : Bool => if b then 1 else 0) fun stated => ?_
      split
      · exact Read.accepts_pure_of (by simp)
      · exact Read.accepts_pure_of (by simp)
      · exact Read.accepts_throw _ (by grind) _
    refine hread.congr fun b => ?_
    rw [given_of trivial, mul_one]
    rfl
  · intro b bytes _
    rfl

theorem coded_speaks [Coded α] [Inhabited α] :
    (coded (α := α)).Speaks terms Grammar.coded := by
  constructor
  · have hcode : (int32.parse terms).Accepts Grammar.int32 := int32_speaks.reads
    have hread : ((coded (α := α)).parse terms).Accepts fun a =>
        given True (Grammar.int32 (Coded.code a) * 1) := by
      refine hcode.field Coded.code fun code => ?_
      cases h : (Coded.ofCode? code : Option α) with
      | some a =>
          refine Read.accepts_pure_of fun b => ?_
          constructor
          · rintro ⟨-, rfl⟩
            exact Option.some.inj ((Coded.ofCode?_code b).symm.trans h)
          · rintro rfl
            exact ⟨trivial, Coded.code_of_ofCode? h⟩
      | none =>
          refine Read.accepts_throw _ ?_ _
          rintro b ⟨-, rfl⟩
          cases (Coded.ofCode?_code b).symm.trans h
    refine hread.congr fun a => ?_
    rw [given_of trivial, mul_one]
    rfl
  · intro a bytes _
    rfl

theorem encoded_eq (s : String) : Grammar.encoded s = Text.utf8 s := by
  rw [Text.utf8, ← String.utf8Encode_toList]
  simp [List.utf8Encode, Grammar.encoded]

theorem sized_accepts (terms : Terms) (what : String) :
    ((sized what).parse terms).Accepts fun bytes =>
      given (bytes.length ≤ terms.limits.maxText) (Grammar.word 4 bytes.length * {bytes}) := by
  refine (word_accepts terms 4).field List.length fun length => ?_
  split
  · next h =>
      refine (Read.accepts_bytes .endInBody length).congr fun bytes => ?_
      ext front
      simp only [mem_given]
      grind
  · next h =>
      refine Read.accepts_throw _ ?_ _
      rintro bytes ⟨hle, rfl⟩
      exact h hle

theorem mem_text_iff {limits : Limits} {s : String} {bytes : List UInt8} :
    bytes ∈ Grammar.text limits s ↔ (Text.utf8 s).length ≤ limits.maxText ∧
      ∃ length ∈ Grammar.word 4 (Text.utf8 s).length, bytes = length ++ Text.utf8 s := by
  rw [Grammar.text, mem_given, encoded_eq, Language.mem_mul]
  constructor
  · rintro ⟨hle, length, hlength, body, rfl, rfl⟩
    exact ⟨hle, length, hlength, rfl⟩
  · rintro ⟨hle, length, hlength, rfl⟩
    exact ⟨hle, length, hlength, _, rfl, rfl⟩

def Fits (limits : Limits) (s : String) : Prop :=
  (Text.utf8 s).length ≤ limits.maxText ∧ (Text.utf8 s).length < UInt32.size

theorem fits_of_mem {limits : Limits} {s : String} {bytes : List UInt8}
    (h : bytes ∈ Grammar.text limits s) : Fits limits s := by
  obtain ⟨hle, length, hlength, -⟩ := mem_text_iff.1 h
  exact ⟨hle, lt_of_mem_word hlength⟩

theorem fits_empty (limits : Limits) : Fits limits "" :=
  ⟨Nat.zero_le _, by decide⟩

theorem text_emit_done {s : String} (h : Fits terms.limits s) :
    (text.emit terms s).failure = none := by
  have hemit : text.emit terms s =
      (word 4).emit terms (Text.utf8 s).length ++ .chunk (Text.utf8 s) := if_pos h
  rw [hemit]
  rfl

theorem text_emit_failure {s : String} {error : ProtocolError}
    (h : (text.emit terms s).failure = some error) :
    ¬Fits terms.limits s ∧
      error = .lengthOutOfRange "string" (Text.utf8 s).length terms.limits.maxText := by
  by_cases hfits : Fits terms.limits s
  · cases (text_emit_done hfits).symm.trans h
  · have hemit : text.emit terms s =
        .fail (.lengthOutOfRange "string" (Text.utf8 s).length terms.limits.maxText) := if_neg hfits
    rw [hemit] at h
    cases h
    exact ⟨hfits, rfl⟩

theorem text_speaks : text.Speaks terms (Grammar.text terms.limits) := by
  constructor
  · have hread : (text.parse terms).Accepts fun s => given True
        (given ((Text.utf8 s).length ≤ terms.limits.maxText)
          (Grammar.word 4 (Text.utf8 s).length * {Text.utf8 s}) * 1) := by
      refine (sized_accepts terms "string").field Text.utf8 fun bytes => ?_
      cases h : Text.ofUtf8 bytes with
      | ok s =>
          refine Read.accepts_pure_of fun t => ?_
          constructor
          · rintro ⟨-, rfl⟩
            exact Except.ok.inj ((Text.ofUtf8_utf8 t).symm.trans h)
          · rintro rfl
            exact ⟨trivial, Text.utf8_of_ofUtf8 h⟩
      | error fault =>
          refine Read.accepts_throw _ ?_ _
          rintro t ⟨-, rfl⟩
          cases (Text.ofUtf8_utf8 t).symm.trans h
    refine hread.congr fun s => ?_
    rw [given_of trivial, mul_one, Grammar.text, encoded_eq]
  · intro s bytes hbytes
    exact text_emit_done (fits_of_mem hbytes)

theorem Speaks.optional (h : c.Speaks terms spell) :
    c.optional.Speaks terms (Grammar.optional spell) := by
  constructor
  · have hflag : (bool.parse terms).Accepts Grammar.flag := bool_speaks.reads
    have hvalue (present : Bool) : Read.Accepts
        (if present then some <$> c.parse terms else pure none)
        fun a? => given (True ∧ a?.isSome = present) (a?.elim 1 spell) := by
      cases present with
      | false =>
          refine (Read.accepts_pure none).congr fun a? => ?_
          ext bytes
          cases a? <;> simp [mem_given]
      | true =>
          refine h.reads.wrapped ?_ fun _ => rfl
          intro a?
          rw [true_and, Option.isSome_iff_exists]
          exact exists_congr fun _ => eq_comm
    refine (hflag.field Option.isSome hvalue).congr fun a? => ?_
    rw [given_of trivial]
    cases a? with
    | none => exact (mul_one _).symm
    | some a => rfl
  · intro a? bytes hbytes
    cases a? with
    | none => rfl
    | some a =>
        obtain ⟨front, -, back, hback, -⟩ := Language.mem_mul.1 hbytes
        exact Emission.failure_append.2 ⟨rfl, h.writes hback⟩

theorem optionalText_speaks : optionalText.Speaks terms (Grammar.optionalText terms.limits) :=
  text_speaks.optional

theorem Speaks.since {c : Codec (Option α)} {spell : Option α → Language UInt8}
    (h : c.Speaks terms spell) (hblank : c.blank = none) (first : Int32) :
    (c.since first).Speaks terms fun a? =>
      if first ≤ terms.version then spell a? else given (a? = none) 1 := by
  by_cases hv : terms.version < first
  · have hparse : (c.since first).parse terms = pure none := if_pos hv
    simp only [if_neg (Int32.not_le.2 hv)]
    constructor
    · rw [hparse]
      exact Read.accepts_pure none
    · intro a? bytes _
      have hemit : (c.since first).emit terms a? = ∅ := if_pos hv
      rw [hemit]
      rfl
  · have hparse : (c.since first).parse terms = c.parse terms := by
      rw [parse.eq_def c, hblank]
      exact if_neg hv
    simp only [if_pos (Int32.not_lt.1 hv)]
    constructor
    · rw [hparse]
      exact h.reads
    · intro a? bytes hbytes
      have hemit : (c.since first).emit terms a? = c.emit terms a? := if_neg hv
      rw [hemit]
      exact h.writes hbytes

theorem count_accepts (terms : Terms) (what : String) :
    ((count what).parse terms).Accepts fun n =>
      {bytes | ∃ stated : Int32, stated.toInt = n ∧ n ≤ terms.limits.maxItems ∧
        bytes ∈ Grammar.int32 stated} := by
  have hstated : (int32.parse terms).Accepts Grammar.int32 := int32_speaks.reads
  have hcount (stated : Int32) : Read.Accepts
      (if 0 ≤ stated.toInt ∧ stated.toInt ≤ terms.limits.maxItems then pure stated.toInt.toNat
        else throw (.lengthOutOfRange what stated.toInt terms.limits.maxItems))
      fun n => given (stated.toInt = n ∧ n ≤ terms.limits.maxItems) 1 := by
    split
    · next h =>
        refine Read.accepts_pure_of fun n => ?_
        omega
    · next h =>
        refine Read.accepts_throw _ ?_ _
        rintro n ⟨hn, hle⟩
        omega
  rw [count_parse]
  refine (hstated.bind hcount).congr fun n => ?_
  ext bytes
  constructor
  · rintro ⟨stated, hn, hle, hbytes⟩
    refine ⟨stated, ?_⟩
    rw [← List.append_nil bytes]
    exact Language.append_mem_mul hbytes ⟨⟨hn, hle⟩, Language.nil_mem_one⟩
  · rintro ⟨stated, hbytes⟩
    obtain ⟨front, hfront, back, ⟨⟨hn, hle⟩, hback⟩, rfl⟩ := Language.mem_mul.1 hbytes
    cases hback
    rw [List.append_nil]
    exact ⟨stated, hn, hle, hfront⟩

theorem exists_mem_of_mem_prod {as : List α} {bytes : List UInt8}
    (h : bytes ∈ (as.map spell).prod) : ∀ a ∈ as, ∃ part, part ∈ spell a := by
  induction as generalizing bytes with
  | nil => simp
  | cons a as ih =>
      rw [List.map_cons, List.prod_cons] at h
      obtain ⟨front, hfront, back, hback, -⟩ := Language.mem_mul.1 h
      rintro b (_ | ⟨_, hb⟩)
      · exact ⟨front, hfront⟩
      · exact ih hback b hb

theorem count_done {what : String} {m n : Nat} {stated : Int32} (hmn : m ≤ n)
    (hstated : stated.toInt = n) (hle : n ≤ terms.limits.maxItems) :
    ((count what).emit terms m).failure = none := by
  have hlt : m < Nat.pow 2 31 := by
    have hmax := stated.toInt_lt
    have hpow : Nat.pow 2 31 = 2147483648 := rfl
    omega
  have hfault : countFault? what terms.limits m = none := if_pos ⟨Nat.le_trans hmn hle, hlt⟩
  simp only [count, hfault]
  rfl

theorem Speaks.items (h : c.Speaks terms spell) (what : String) :
    (c.items what).Speaks terms (Grammar.counted terms.limits spell) := by
  constructor
  · have hitems (n : Nat) : (Read.times n (c.parse terms)).Accepts
        fun as => given (True ∧ as.length = n) (as.map spell).prod := by
      simpa only [true_and] using h.reads.times n
    refine ((count_accepts terms what).field List.length hitems).congr fun as => ?_
    rw [given_of trivial]
    ext bytes
    constructor
    · rintro ⟨stated, hstated, hle, hbytes⟩
      obtain ⟨front, hfront, back, hback, rfl⟩ := Language.mem_mul.1 hbytes
      exact Language.append_mem_mul ⟨stated, hstated, hle, hfront⟩ hback
    · intro hbytes
      obtain ⟨front, ⟨stated, hstated, hle, hfront⟩, back, hback, rfl⟩ := Language.mem_mul.1 hbytes
      exact ⟨stated, hstated, hle, Language.append_mem_mul hfront hback⟩
  · rintro as bytes ⟨stated, hstated, hle, hbytes⟩
    obtain ⟨front, -, back, hback, -⟩ := Language.mem_mul.1 hbytes
    refine Emission.failure_append.2 ⟨count_done le_rfl hstated hle, Emission.concat_done fun a ha => ?_⟩
    obtain ⟨part, hpart⟩ := exists_mem_of_mem_prod hback a ha
    exact h.writes hpart

theorem Speaks.pair (hc : c.Speaks terms spell) (hd : d.Speaks terms spell') :
    (c.pair d).Speaks terms fun p => spell p.1 * spell' p.2 := by
  constructor
  · have hpair (a : α) (b : β) : Read.Accepts (pure (a, b)) fun p : α × β =>
        given ((True ∧ p.1 = a) ∧ p.2 = b) 1 := by
      refine Read.accepts_pure_of fun p => ?_
      simp [Prod.ext_iff]
    refine (hc.reads.field Prod.fst fun a => hd.reads.field Prod.snd (hpair a)).congr fun p => ?_
    rw [given_of trivial, mul_one]
  · intro p bytes hbytes
    obtain ⟨front, hfront, back, hback, -⟩ := Language.mem_mul.1 hbytes
    exact Emission.failure_append.2 ⟨hc.writes hfront, hd.writes hback⟩

theorem textList_speaks :
    textList.Speaks terms (Grammar.counted terms.limits (Grammar.text terms.limits)) :=
  text_speaks.items "string list"

theorem argument_fits {limits : Limits} {value : String} (h : bytes ∈ Grammar.argument limits value) :
    Fits limits value := by
  obtain ⟨value?, rfl, hbytes⟩ := h
  cases value? with
  | none => exact fits_empty limits
  | some value =>
      obtain ⟨_, -, _, htext, -⟩ := Language.mem_mul.1 hbytes
      exact fits_of_mem htext

theorem presentText_speaks : presentText.Speaks terms (Grammar.argument terms.limits) := by
  constructor
  · have htext : (optionalText.parse terms).Accepts (Grammar.optionalText terms.limits) :=
      optionalText_speaks.reads
    exact htext.map (·.getD "")
  · intro value bytes hbytes
    exact Emission.failure_append.2 ⟨rfl, text_emit_done (argument_fits hbytes)⟩

theorem argTexts_speaks : argTexts.Speaks terms (Grammar.arguments terms.limits) :=
  (presentText_speaks.items "argument list").optional

theorem instant_speaks : instant.Speaks terms Grammar.instant := by
  constructor
  · have hword : (int64.parse terms).Accepts Grammar.int64 := int64_speaks.reads
    rw [parse.eq_def, instant_read]
    refine (hword.map _).congr fun t => ?_
    ext bytes
    simp only [Instant.ofNanos_eq_iff, and_assoc]
    rfl
  · rintro t bytes ⟨n, hn, -, -⟩
    have hword : t.toWord? = some (Int64.ofInt t.toNanos) := by
      rw [Instant.toWord?, hn]
      exact if_pos ⟨n.minValue_le_toInt, n.toInt_le⟩
    simp only [instant, hword]
    rfl

end BuildFeed.Codec
