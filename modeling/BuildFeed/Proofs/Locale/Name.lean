import BuildFeed.Config
import BuildFeed.Proofs.Message.Integers
import Mathlib.Data.List.DropRight

namespace BuildFeed

namespace Text

theorem trim_eq_rdropWhile (cs : List Char) : trim cs = (trimStart cs).rdropWhile isBlank :=
  rfl

theorem trimStart_trim (cs : List Char) : trimStart (trim cs) = trim cs := by
  refine List.dropWhile_eq_self_iff.2 fun hpos => ?_
  obtain ⟨blanks, hfront⟩ := List.rdropWhile_prefix isBlank (trimStart cs)
  rw [← trim_eq_rdropWhile] at hfront
  have hlength : 0 < (trimStart cs).length := by
    rw [← hfront, List.length_append]
    omega
  have hfirst := List.dropWhile_get_zero_not isBlank cs hlength
  have hsame : (trim cs)[0] = (trimStart cs)[0] := by
    simp only [← hfront, List.getElem_append_left hpos]
  rwa [hsame]

theorem trim_trim (cs : List Char) : trim (trim cs) = trim cs := by
  rw [trim_eq_rdropWhile, trimStart_trim, trim_eq_rdropWhile cs, List.rdropWhile_idempotent]

theorem trim_map {f : Char → Char} (h : ∀ c, isBlank (f c) = isBlank c) (cs : List Char) :
    trim (cs.map f) = (trim cs).map f := by
  have hstart (cs : List Char) : trimStart (cs.map f) = (trimStart cs).map f := by
    have hblank : isBlank ∘ f = isBlank := funext h
    rw [trimStart, trimStart, List.dropWhile_map, hblank]
  rw [trim, trim, trimEnd, trimEnd, hstart, ← List.map_reverse, hstart, List.map_reverse]

theorem mem_of_mem_trim {cs : List Char} {c : Char} (h : c ∈ trim cs) : c ∈ cs := by
  obtain ⟨before, after, -, hcs⟩ := exists_blanks_around cs
  rw [hcs]
  exact List.mem_append_left _ (List.mem_append_right _ h)

end Text

namespace Locale

variable {cs : List Char}

def hyphenated (c : Char) : Char :=
  if c = '_' then '-' else c

structure IsTag (cs : List Char) : Prop where
  plain : ∀ c ∈ cs, c ≠ '.' ∧ c ≠ '@' ∧ c ≠ '_'
  trimmed : Text.trim cs = cs
  special : cs.map Char.toLower ≠ ['c'] ∧ cs.map Char.toLower ≠ ['p', 'o', 's', 'i', 'x']

theorem map_hyphenated (h : '_' ∉ cs) : cs.map hyphenated = cs := by
  refine (List.map_congr_left fun c hc => ?_).trans (List.map_id cs)
  have hne : c ≠ '_' := fun heq => h (heq ▸ hc)
  rw [hyphenated, if_neg hne, id]

theorem isBlank_hyphenated (c : Char) : Text.isBlank (hyphenated c) = Text.isBlank c := by
  unfold hyphenated
  split
  next h =>
    subst h
    rfl
  next => rfl

theorem hyphen_mem_lower (h : '_' ∈ cs) : '-' ∈ (cs.map hyphenated).map Char.toLower :=
  List.mem_map.2 ⟨'-', List.mem_map.2 ⟨'_', h, rfl⟩, rfl⟩

theorem isTag_nil : IsTag [] :=
  ⟨nofun, rfl, nofun, nofun⟩

theorem isTag_normalChars (raw : List Char) : IsTag (normalChars raw) := by
  unfold normalChars
  extract_lets base lower
  split
  next => exact isTag_nil
  next hspecial =>
    rw [not_or] at hspecial
    change IsTag (base.map hyphenated)
    have hcut : ∀ c ∈ base, c ≠ '.' ∧ c ≠ '@' := by
      intro c hc
      have hfront := List.mem_takeWhile_imp (Text.mem_of_mem_trim hc)
      simpa using hfront
    -- a special name has no hyphen, so that none of its characters was an underscore
    have hlower (name : List Char) (hname : '-' ∉ name) (hbase : lower ≠ name) :
        (base.map hyphenated).map Char.toLower ≠ name := by
      intro heq
      have hplain : '_' ∉ base := fun hmem => hname (heq ▸ hyphen_mem_lower hmem)
      rw [map_hyphenated hplain] at heq
      exact hbase heq
    refine ⟨?_, ?_, hlower _ (by decide) hspecial.1, hlower _ (by decide) hspecial.2⟩
    · intro c hc
      obtain ⟨b, hb, rfl⟩ := List.mem_map.1 hc
      unfold hyphenated
      split
      next => decide
      next hne => exact ⟨(hcut b hb).1, (hcut b hb).2, hne⟩
    · rw [Text.trim_map isBlank_hyphenated, Text.trim_trim]

theorem normalChars_of_isTag (h : IsTag cs) : normalChars cs = cs := by
  have hfront : (cs.takeWhile fun c => c != '.' && c != '@') = cs := by
    refine List.takeWhile_eq_self_iff.2 fun c hc => ?_
    simp [(h.plain c hc).1, (h.plain c hc).2.1]
  have hplain : '_' ∉ cs := fun hmem => (h.plain '_' hmem).2.2 rfl
  have hspecial : ¬(cs.map Char.toLower = ['c'] ∨
      cs.map Char.toLower = ['p', 'o', 's', 'i', 'x']) := not_or.2 h.special
  simp only [normalChars, hfront, h.trimmed, if_neg hspecial]
  exact map_hyphenated hplain

theorem normalizeName_normalizeName (raw : String) :
    normalizeName (normalizeName raw) = normalizeName raw := by
  have htag := isTag_normalChars raw.toList
  rw [normalizeName, normalizeName, String.toList_ofList, normalChars_of_isTag htag]

theorem resolve_normalizeName (raw : String) : resolve (normalizeName raw) = resolve raw := by
  simp only [resolve, normalizeName_normalizeName]

theorem name_resolve (raw : String) : (resolve raw).name = normalizeName raw :=
  rfl

theorem marks_resolve (raw : String) :
    (resolve raw).marks = marksOf (language (normalizeName raw)) := by
  simp only [resolve]

theorem marksOf_apart (language : String) : (marksOf language).Apart := by
  unfold marksOf
  by_cases hperiod : language ∈ commaPeriodLanguages
  · rw [if_pos hperiod]
    exact ⟨by decide, by decide, by decide⟩
  · rw [if_neg hperiod]
    by_cases hspace : language ∈ commaSpaceLanguages
    · rw [if_pos hspace]
      exact ⟨by decide, by decide, by decide⟩
    · rw [if_neg hspace]
      exact ⟨by decide, by decide, by decide⟩

def primary (name : String) : List Char :=
  (Text.cutAt '-' name.toList).1

theorem language_eq (name : String) :
    language name = String.ofList ((primary name).map Char.toLower) :=
  rfl

theorem marks_resolve_congr {raw raw' : String}
    (h : (primary (normalizeName raw)).map Char.toLower =
      (primary (normalizeName raw')).map Char.toLower) :
    (resolve raw).marks = (resolve raw').marks := by
  rw [marks_resolve, marks_resolve, language_eq, language_eq, h]

end Locale

def Environment.localeSetting (env : Environment) : String :=
  (["LC_ALL", "LC_NUMERIC", "LANG"].findSome? env.value?).getD ""

def Config.localeSetting (c : Config) (env : Environment) : String :=
  c.locale.getD env.localeSetting

namespace Locale

theorem currentName_eq (env : Environment) : currentName env = normalizeName env.localeSetting := by
  unfold currentName Environment.localeSetting
  split
  next h => rw [h, Option.getD_some]
  next h =>
    rw [h, Option.getD_none]
    decide

theorem localeName_eq (c : Config) (env : Environment) :
    c.localeName env = normalizeName (c.localeSetting env) := by
  unfold Config.localeName Config.localeSetting
  split
  next h => rw [h, Option.getD_some]
  next h => rw [h, Option.getD_none, currentName_eq]

theorem locale_name_keeps_meaning :
    (∀ raw, normalizeName (normalizeName raw) = normalizeName raw ∧
      resolve raw = resolve (normalizeName raw) ∧ resolve raw = resolve (resolve raw).name ∧
      (resolve raw).name = normalizeName raw ∧
      ((resolve raw).name = "" → resolve raw = invariant) ∧
      (resolve raw).marks.Apart) ∧
    (∀ env, resolve (currentName env) = resolve env.localeSetting) ∧
    (∀ (c : Config) env, resolve (c.localeName env) = resolve (c.localeSetting env)) ∧
    ∀ raw raw', (primary (normalizeName raw)).map Char.toLower =
        (primary (normalizeName raw')).map Char.toLower →
      (resolve raw).marks = (resolve raw').marks := by
  refine ⟨fun raw => ⟨?_, ?_, ?_, ?_, fun hname => ?_, ?_⟩, fun env => ?_, fun c env => ?_, ?_⟩
  · exact normalizeName_normalizeName raw
  · rw [resolve_normalizeName]
  · rw [name_resolve, resolve_normalizeName]
  · exact name_resolve raw
  · rw [name_resolve] at hname
    rw [← resolve_normalizeName, hname]
    decide +kernel
  · rw [marks_resolve]
    exact marksOf_apart _
  · rw [currentName_eq, resolve_normalizeName]
  · rw [localeName_eq, resolve_normalizeName]
  · exact fun raw raw' h => marks_resolve_congr h

theorem posix_name_keeps_meaning :
    let env : Environment := fun name => if name = "LANG" then some " de_AT.UTF-8@euro" else some ""
    (resolve (currentName env)) = ⟨"de-AT", ',', '.'⟩ ∧
      resolve (Config.localeName {} env) = ⟨"de-AT", ',', '.'⟩ ∧
      (resolve "POSIX.UTF-8").name = "" ∧ resolve "POSIX.UTF-8" = invariant ∧
      (primary (normalizeName "DE")).map Char.toLower =
        (primary (normalizeName "de_AT@euro")).map Char.toLower ∧
      (resolve "DE").marks = (resolve "de_AT@euro").marks := by
  intro env
  obtain ⟨hnames, hcurrent, hconfig, hmarks⟩ := locale_name_keeps_meaning
  obtain ⟨-, -, -, -, hinvariant, -⟩ := hnames "POSIX.UTF-8"
  have hsetting : resolve env.localeSetting = ⟨"de-AT", ',', '.'⟩ := by decide +kernel
  have hempty : (resolve "POSIX.UTF-8").name = "" := by decide +kernel
  have hprimary : (primary (normalizeName "DE")).map Char.toLower =
      (primary (normalizeName "de_AT@euro")).map Char.toLower := by decide +kernel
  exact ⟨(hcurrent env).trans hsetting, (hconfig {} env).trans hsetting, hempty,
    hinvariant hempty, hprimary, hmarks _ _ hprimary⟩

end Locale

end BuildFeed
