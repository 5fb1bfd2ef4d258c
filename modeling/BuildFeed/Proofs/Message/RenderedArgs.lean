import BuildFeed.Proofs.Transfer.EventFrame

namespace BuildFeed

namespace Template

def reference? (item : List Char) : Option (Nat × List Char) :=
  let (head, spec) := Text.cutAt ':' item
  (Text.word64? (Text.trim (Text.cutAt ',' head).1)).map fun index => (index, spec.getD [])

def Piece.reference? : Piece → Option (Nat × List Char)
  | placeholder _ item => Template.reference? item
  | _ => none

def references (template : String) : List (Nat × List Char) :=
  (pieces 0 template.toList).filterMap Piece.reference?

def LeavesNumbersPlain (template : String) (args : List Arg) : Prop :=
  ∀ reference ∈ references template, reference.2 ≠ [] →
    ∀ arg ∈ args[reference.1]?, arg.kind = .text

instance (template : String) (args : List Arg) : Decidable (LeavesNumbersPlain template args) :=
  inferInstanceAs (Decidable (∀ reference ∈ references template, _))

variable {locale : Locale} {args args' : List Arg}

def AgreeOn (locale : Locale) (args args' : List Arg) (reference : Nat × List Char) : Prop :=
  args[reference.1]?.map (·.render locale (some reference.2)) =
    args'[reference.1]?.map (·.render locale (some reference.2))

theorem render_getD (locale : Locale) (arg : Arg) (spec : Option (List Char)) :
    arg.render locale (some (spec.getD [])) = arg.render locale spec := by
  cases spec <;> rfl

theorem expandItem_congr (hlength : args.length = args'.length) {item : List Char}
    (h : ∀ reference ∈ reference? item, AgreeOn locale args args' reference) (position : Nat) :
    expandItem locale args position item = expandItem locale args' position item := by
  simp only [expandItem]
  cases hindex : Text.word64? (Text.trim (Text.cutAt ',' (Text.cutAt ':' item).1).1) with
  | none => rfl
  | some index =>
      have hagree : AgreeOn locale args args' (index, (Text.cutAt ':' item).2.getD []) :=
        h _ (by simp only [reference?, hindex, Option.map_some, Option.mem_some_iff])
      simp only [AgreeOn, render_getD] at hagree
      cases harg : args[index]? with
      | none =>
          have harg' : args'[index]? = none := by
            rw [harg, Option.map_none] at hagree
            exact Option.map_eq_none_iff.1 hagree.symm
          simp only [harg, harg', hlength]
      | some arg =>
          rw [harg, Option.map_some] at hagree
          obtain ⟨arg', harg', hrender⟩ := Option.map_eq_some_iff.1 hagree.symm
          simp only [harg, harg', hrender]

theorem expand_congr (hlength : args.length = args'.length) {piece : Piece}
    (h : ∀ reference ∈ piece.reference?, AgreeOn locale args args' reference) :
    piece.expand locale args = piece.expand locale args' := by
  cases piece with
  | literal c => rfl
  | stray position => rfl
  | placeholder position item => exact expandItem_congr hlength h position

theorem mapM_congr {ε α β : Type} {f g : α → Except ε β} {as : List α}
    (h : ∀ a ∈ as, f a = g a) : as.mapM f = as.mapM g := by
  induction as with
  | nil => rfl
  | cons a as ih =>
      have hrest := ih fun b hb => h b (List.mem_cons_of_mem a hb)
      rw [List.mapM_cons, List.mapM_cons, h a (List.mem_cons_self ..), hrest]

theorem format_congr (hlength : args.length = args'.length) {template : String}
    (h : ∀ reference ∈ references template, AgreeOn locale args args' reference) :
    format locale template args = format locale template args' := by
  have hpieces : (pieces 0 template.toList).mapM (Piece.expand locale args) =
      (pieces 0 template.toList).mapM (Piece.expand locale args') := by
    refine mapM_congr fun piece hpiece => expand_congr hlength fun reference hreference => ?_
    exact h reference (List.mem_filterMap.2 ⟨piece, hpiece, hreference⟩)
  simp only [format, formatChars, hpieces]

theorem render_text_of_plain (locale : Locale) {arg : Arg} {spec : List Char}
    (h : spec ≠ [] → arg.kind = .text) :
    (Arg.text (arg.toText locale)).render locale (some spec) = arg.render locale (some spec) := by
  have hchars : (arg.toText locale).toList = arg.toChars locale := String.toList_ofList
  cases spec with
  | nil => exact congrArg Except.ok hchars
  | cons c spec =>
      cases arg with
      | text value => exact congrArg Except.ok hchars
      | integer n => cases h (List.cons_ne_nil c spec)
      | decimal d => cases h (List.cons_ne_nil c spec)

theorem format_rendered (locale : Locale) {template : String} {args : List Arg}
    (h : LeavesNumbersPlain template args) :
    format locale template (args.map fun arg => .text (arg.toText locale)) =
      format locale template args := by
  refine format_congr (List.length_map ..) fun reference hreference => ?_
  rw [AgreeOn, List.getElem?_map, Option.map_map]
  refine Option.map_congr fun arg harg => ?_
  exact render_text_of_plain locale fun hspec => h reference hreference hspec arg harg

end Template

namespace Message

def LeavesNumbersPlain (message : Message) : Prop :=
  ∀ template args, message.state = .raw (some template) args →
    Template.LeavesNumbersPlain template args

theorem text_withTextArgs {message : Message} (h : message.LeavesNumbersPlain) :
    message.withTextArgs.text = message.text := by
  obtain ⟨state, locale⟩ := message
  cases state with
  | formatted text => rfl
  | raw template args =>
      cases template with
      | none => rfl
      | some template =>
          have hformat := Template.format_rendered (Locale.resolve (locale.getD ""))
            (h template args rfl)
          simp only [text, read, withTextArgs, readWith, hformat]

end Message

theorem Event.text_imageMessage {e : Event} (h : e.message.LeavesNumbersPlain) (version : Int32) :
    (e.imageMessage version).text = e.message.text := by
  rw [imageMessage]
  split
  · split
    · exact Message.text_withTextArgs h
    · rfl
  · rfl

theorem rendered_args_keep_the_text :
    (∀ locale template args, Template.LeavesNumbersPlain template args →
      Template.format locale template (args.map fun arg => .text (arg.toText locale)) =
        Template.format locale template args) ∧
    ∀ (version : Int32) (writer reader : Limits), writer ≤ reader →
      ∀ (e : Event) (bytes : List UInt8), e.message.LeavesNumbersPlain →
        e.encode ⟨version, writer⟩ = .ok bytes →
          ∀ rest fault, ∃ received,
            Event.read ⟨version, reader⟩ e.type ⟨bytes ++ rest, fault⟩ =
              .ok received ⟨rest, fault⟩ ∧
            received.message.text = e.message.text := by
  constructor
  · intro locale template args h
    exact Template.format_rendered locale h
  · intro version writer reader hl e bytes hplain h rest fault
    obtain ⟨hdone, rfl⟩ := Event.bytes_of_encode h
    exact ⟨e.image version, Event.read_recovers hl e hdone rest fault,
      Event.text_imageMessage hplain version⟩

theorem older_reader_sees_the_same_diagnostic :
    let args : List Arg := [.decimal ⟨0x4004000000000000⟩, .text "x"]
    let german := Locale.resolve "de_DE.UTF-8"
    let e : Event :=
      { kind := .buildStarted, message := .lazyIn "\x7b0:\x7d\x7b2\x7d" args "de" }
    let bytes : List UInt8 :=
      [2, 1, 7, 0, 0, 0, 123, 48, 58, 125, 123, 50, 125, 0, 0, 0, 0, 0, 0, 0, 0, 0, 0, 0, 0, 0, 0,
        0, 1, 2, 0, 0, 0, 1, 3, 0, 0, 0, 50, 44, 53, 1, 1, 0, 0, 0, 120, 1, 2, 0, 0, 0, 100, 101]
    Template.format german "\x7b0,5\x7d|\x7b1:F2\x7d" [.text "2,5", .text "x"] =
        Template.format german "\x7b0,5\x7d|\x7b1:F2\x7d" args ∧
      e.encode ⟨1, {}⟩ = .ok bytes ∧ ∃ received,
        Event.read ⟨1, {}⟩ .buildStarted ⟨bytes ++ [7], none⟩ = .ok received ⟨[7], none⟩ ∧
          received.message.text =
            some "\"\x7b0:\x7d\x7b2\x7d\"\nindex 2 is out of range for 2 argument(s)" := by
  intro args german e bytes
  obtain ⟨hformat, hread⟩ := rendered_args_keep_the_text
  have halike := hformat german "\x7b0,5\x7d|\x7b1:F2\x7d" args (by decide +kernel)
  have htexts : args.map (fun arg => .text (arg.toText german)) =
      [Arg.text "2,5", .text "x"] := by decide +kernel
  have hplain : e.message.LeavesNumbersPlain := by
    rintro _ _ ⟨⟩
    decide +kernel
  have hdone : (e.emit ⟨1, {}⟩).failure = none := by decide +kernel
  have hbytes : (e.emit ⟨1, {}⟩).bytes = bytes := by decide +kernel
  have hencode : e.encode ⟨1, {}⟩ = .ok bytes := by rw [Event.encode_of_done hdone, hbytes]
  have htext : e.message.text =
      some "\"\x7b0:\x7d\x7b2\x7d\"\nindex 2 is out of range for 2 argument(s)" := by
    decide +kernel
  have hlimits : ({} : Limits) ≤ {} := ⟨Nat.le_refl _, Nat.le_refl _⟩
  rw [htexts] at halike
  exact ⟨halike, hencode, htext ▸ hread 1 {} {} hlimits e bytes hplain hencode [7] none⟩

end BuildFeed
