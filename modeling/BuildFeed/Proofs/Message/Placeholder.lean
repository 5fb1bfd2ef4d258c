import BuildFeed.Message.Lazy
import BuildFeed.Proofs.Message.TemplateGrammar
import BuildFeed.Proofs.Text.Numeral

namespace BuildFeed

namespace Template

/-- The parts of an item. The first colon opens the specifier, and the first comma before it the
alignment. -/
@[ext]
structure Parts where
  index : List Char
  alignment : Option (List Char)
  spec : Option (List Char)
  index_plain : ',' ∉ index ∧ ':' ∉ index
  alignment_plain : ∀ cs ∈ alignment, ':' ∉ cs

namespace Parts

def head (parts : Parts) : List Char :=
  parts.index ++ Text.marked ',' parts.alignment

def written (parts : Parts) : List Char :=
  parts.head ++ Text.marked ':' parts.spec

theorem colon_not_mem_head (parts : Parts) : ':' ∉ parts.head := by
  rw [head, List.mem_append]
  rintro (hindex | halignment)
  · exact parts.index_plain.2 hindex
  · cases hcs : parts.alignment with
    | none =>
        rw [hcs] at halignment
        cases halignment
    | some cs =>
        rw [hcs] at halignment
        have hmem : ':' ∈ cs := (List.mem_cons.1 halignment).resolve_left (by decide)
        exact parts.alignment_plain cs hcs hmem

theorem cutAt_written (parts : Parts) :
    Text.cutAt ':' parts.written = (parts.head, parts.spec) :=
  Text.cutAt_marked parts.colon_not_mem_head parts.spec

theorem cutAt_head (parts : Parts) :
    Text.cutAt ',' parts.head = (parts.index, parts.alignment) :=
  Text.cutAt_marked parts.index_plain.1 parts.alignment

theorem written_injective : Function.Injective written := by
  intro parts parts' h
  have hwhole := parts.cutAt_written
  rw [h, parts'.cutAt_written, Prod.mk.injEq] at hwhole
  have hhead := parts.cutAt_head
  rw [← hwhole.1, parts'.cutAt_head, Prod.mk.injEq] at hhead
  exact Parts.ext hhead.1.symm hhead.2.symm hwhole.2.symm

theorem exists_written (item : List Char) : ∃ parts : Parts, parts.written = item := by
  have hitem := Text.append_marked_cutAt ':' item
  have hcolon := Text.not_mem_cutAt ':' item
  generalize (Text.cutAt ':' item).1 = head, (Text.cutAt ':' item).2 = spec at hitem hcolon
  have hhead := Text.append_marked_cutAt ',' head
  have hcomma := Text.not_mem_cutAt ',' head
  generalize (Text.cutAt ',' head).1 = index, (Text.cutAt ',' head).2 = alignment at hhead hcomma
  subst hhead
  rw [List.mem_append, not_or] at hcolon
  refine ⟨⟨index, alignment, spec, ⟨hcomma, hcolon.1⟩, ?_⟩, hitem⟩
  rintro cs rfl hmem
  exact hcolon.2 (List.mem_cons_of_mem _ hmem)

def HasIndex (parts : Parts) (index : Nat) : Prop :=
  ∃ sign, Text.Spells parts.index sign index ∧ sign ≠ .minus ∧ index < UInt64.size

def HasAlignment (parts : Parts) (alignment : Int) : Prop :=
  match parts.alignment with
  | none => alignment = 0
  | some cs => ∃ sign width,
      Text.Spells cs sign width ∧ sign.Fits (Nat.pow 2 31) width ∧ alignment = sign.apply width

def index? (parts : Parts) : Option Nat :=
  Text.word64? (Text.trim parts.index)

def alignment? (parts : Parts) : Option Int :=
  (parts.alignment.map (Text.signed? (Nat.pow 2 31) ∘ Text.trim)).getD (some 0)

theorem index?_eq_some {parts : Parts} {index : Nat} :
    parts.index? = some index ↔ parts.HasIndex index :=
  Text.unsigned?_trim_eq_some

theorem alignment?_eq_some {parts : Parts} {alignment : Int} :
    parts.alignment? = some alignment ↔ parts.HasAlignment alignment := by
  rw [alignment?, HasAlignment]
  cases parts.alignment with
  | none =>
      simp only [Option.map_none, Option.getD_none, Option.some.injEq]
      exact eq_comm
  | some cs => exact Text.signed?_trim_eq_some

end Parts

variable {locale : Locale} {args : List Arg} {position : Nat} {parts : Parts}

theorem expandItem_written (locale : Locale) (args : List Arg) (position : Nat) (parts : Parts) :
    expandItem locale args position parts.written = (do
      let some index := parts.index? | throw (.malformed position)
      let some alignment := parts.alignment? | throw (.malformed position)
      if maxWidth ≤ alignment.natAbs then
        throw (.widthOutOfRange alignment.natAbs)
      let some arg := args[index]? | throw (.indexOutOfRange index args.length)
      let text ← arg.render locale parts.spec
      pure (pad (0 < alignment) alignment.natAbs text)) := by
  simp only [expandItem, parts.cutAt_written, parts.cutAt_head]
  rfl

/-- A text with only spaces added to it, in front for a positive alignment, so that it takes up the
width of the alignment if it does not fill it already. -/
structure Aligned (alignment : Int) (shown text : List Char) : Prop where
  length : text.length = max alignment.natAbs shown.length
  spaces : ∃ blanks, (∀ c ∈ blanks, c = ' ') ∧
    text = if 0 < alignment then blanks ++ shown else shown ++ blanks

theorem aligned_iff {alignment : Int} {shown text : List Char} :
    Aligned alignment shown text ↔ text = pad (0 < alignment) alignment.natAbs shown := by
  rw [pad]
  constructor
  · rintro ⟨hlength, blanks, hblanks, rfl⟩
    have hcount : blanks.length = alignment.natAbs - shown.length := by
      split at hlength <;> rw [List.length_append] at hlength <;> omega
    rw [List.eq_replicate_of_mem hblanks, hcount]
    simp only [decide_eq_true_eq]
  · rintro rfl
    refine ⟨?_, List.replicate (alignment.natAbs - shown.length) ' ', ?_, ?_⟩
    · split <;> rw [List.length_append, List.length_replicate] <;> omega
    · exact fun c hc => List.eq_of_mem_replicate hc
    · simp only [decide_eq_true_eq]

namespace Parts

def Shows (locale : Locale) (args : List Arg) (parts : Parts) (text : List Char) : Prop :=
  ∃ index alignment arg shown, parts.HasIndex index ∧ parts.HasAlignment alignment ∧
    alignment.natAbs < maxWidth ∧ args[index]? = some arg ∧
    arg.render locale parts.spec = .ok shown ∧ Aligned alignment shown text

inductive Refused (locale : Locale) (args : List Arg) (position : Nat) (parts : Parts) :
    FormatError → Prop where
  | index : (∀ index, ¬parts.HasIndex index) →
      Refused locale args position parts (.malformed position)
  | alignment {index : Nat} : parts.HasIndex index → (∀ alignment, ¬parts.HasAlignment alignment) →
      Refused locale args position parts (.malformed position)
  | width {index : Nat} {alignment : Int} : parts.HasIndex index → parts.HasAlignment alignment →
      maxWidth ≤ alignment.natAbs →
      Refused locale args position parts (.widthOutOfRange alignment.natAbs)
  | range {index : Nat} {alignment : Int} : parts.HasIndex index → parts.HasAlignment alignment →
      alignment.natAbs < maxWidth → args.length ≤ index →
      Refused locale args position parts (.indexOutOfRange index args.length)
  | rendering {index : Nat} {alignment : Int} {arg : Arg} {error : FormatError} :
      parts.HasIndex index → parts.HasAlignment alignment → alignment.natAbs < maxWidth →
      args[index]? = some arg → arg.render locale parts.spec = .error error →
      Refused locale args position parts error

end Parts

theorem expandItem_of_shows {text : List Char} (h : parts.Shows locale args text) :
    expandItem locale args position parts.written = .ok text := by
  obtain ⟨index, alignment, arg, shown, hindex, halignment, hwidth, harg, hrender, haligned⟩ := h
  rw [expandItem_written, Parts.index?_eq_some.2 hindex, Parts.alignment?_eq_some.2 halignment,
    aligned_iff.1 haligned]
  simp only [if_neg (Nat.not_le.2 hwidth), harg, hrender]
  rfl

theorem expandItem_of_refused {error : FormatError}
    (h : parts.Refused locale args position error) :
    expandItem locale args position parts.written = .error error := by
  rw [expandItem_written]
  cases h with
  | index hnone =>
      have hindex : parts.index? = none :=
        Option.eq_none_iff_forall_ne_some.2 fun index h => hnone index (Parts.index?_eq_some.1 h)
      simp only [hindex]
      rfl
  | alignment hindex hnone =>
      have halignment : parts.alignment? = none :=
        Option.eq_none_iff_forall_ne_some.2 fun alignment h =>
          hnone alignment (Parts.alignment?_eq_some.1 h)
      simp only [Parts.index?_eq_some.2 hindex, halignment]
      rfl
  | width hindex halignment hwidth =>
      simp only [Parts.index?_eq_some.2 hindex, Parts.alignment?_eq_some.2 halignment,
        if_pos hwidth]
      rfl
  | range hindex halignment hwidth hrange =>
      simp only [Parts.index?_eq_some.2 hindex, Parts.alignment?_eq_some.2 halignment,
        if_neg (Nat.not_le.2 hwidth), List.getElem?_eq_none hrange]
      rfl
  | rendering hindex halignment hwidth harg hrender =>
      simp only [Parts.index?_eq_some.2 hindex, Parts.alignment?_eq_some.2 halignment,
        if_neg (Nat.not_le.2 hwidth), harg, hrender]
      rfl

theorem shows_or_refused (locale : Locale) (args : List Arg) (position : Nat) (parts : Parts) :
    (∃ text, parts.Shows locale args text) ∨ ∃ error, parts.Refused locale args position error := by
  by_cases hindices : ∃ index, parts.HasIndex index
  case neg => exact .inr ⟨_, .index (not_exists.1 hindices)⟩
  obtain ⟨index, hindex⟩ := hindices
  by_cases halignments : ∃ alignment, parts.HasAlignment alignment
  case neg => exact .inr ⟨_, .alignment hindex (not_exists.1 halignments)⟩
  obtain ⟨alignment, halignment⟩ := halignments
  by_cases hwidth : alignment.natAbs < maxWidth
  case neg => exact .inr ⟨_, .width hindex halignment (Nat.not_lt.1 hwidth)⟩
  cases harg : args[index]? with
  | none =>
      exact .inr ⟨_, .range hindex halignment hwidth (List.getElem?_eq_none_iff.1 harg)⟩
  | some arg =>
      cases hrender : arg.render locale parts.spec with
      | error error => exact .inr ⟨error, .rendering hindex halignment hwidth harg hrender⟩
      | ok shown =>
          exact .inl ⟨_, index, alignment, arg, shown, hindex, halignment, hwidth, harg, hrender,
            aligned_iff.2 rfl⟩

theorem placeholder_shows_aligned_rendering (locale : Locale) (args : List Arg) (position : Nat) :
    Function.Bijective Parts.written ∧ ∀ parts : Parts,
      (∀ text, expandItem locale args position parts.written = .ok text ↔
        parts.Shows locale args text) ∧
      ∀ error, expandItem locale args position parts.written = .error error ↔
        parts.Refused locale args position error := by
  refine ⟨⟨Parts.written_injective, Parts.exists_written⟩, fun parts => ⟨?_, ?_⟩⟩
  · refine fun text => ⟨fun h => ?_, expandItem_of_shows⟩
    rcases shows_or_refused locale args position parts with ⟨found, hshows⟩ | ⟨error, hrefused⟩
    · cases h.symm.trans (expandItem_of_shows hshows)
      exact hshows
    · cases h.symm.trans (expandItem_of_refused hrefused)
  · refine fun error => ⟨fun h => ?_, expandItem_of_refused⟩
    rcases shows_or_refused locale args position parts with ⟨text, hshows⟩ | ⟨found, hrefused⟩
    · cases h.symm.trans (expandItem_of_shows hshows)
    · cases h.symm.trans (expandItem_of_refused hrefused)
      exact hrefused

example : expandItem .invariant [.text "é:"] 0 " 0 , -4 :x,y:".toList = .ok "é:  ".toList := by
  decide +kernel

end Template

end BuildFeed
