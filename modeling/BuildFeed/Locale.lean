import BuildFeed.Decimal.Fixed
import BuildFeed.Environment
import BuildFeed.Text.Blank

namespace BuildFeed

structure Locale where
  name : String
  marks : Decimal.Separators
  deriving DecidableEq

namespace Locale

def invariant : Locale :=
  ⟨"", '.', ','⟩

instance : Inhabited Locale := ⟨invariant⟩

def isInvariant (locale : Locale) : Bool :=
  locale.name.isEmpty

def normalChars (raw : List Char) : List Char :=
  let base := Text.trim (raw.takeWhile fun c => c != '.' && c != '@')
  let lower := base.map Char.toLower
  if lower = ['c'] ∨ lower = ['p', 'o', 's', 'i', 'x'] then []
  else base.map fun c => if c = '_' then '-' else c

/-- The tag of a locale name: no encoding or modifier, hyphens for underscores, and empty for
`C` and `POSIX`. -/
def normalizeName (raw : String) : String :=
  String.ofList (normalChars raw.toList)

def commaPeriodLanguages : List String :=
  ["da", "de", "es", "id", "it", "nl", "pt", "tr"]

def commaSpaceLanguages : List String :=
  ["cs", "fi", "fr", "nb", "nn", "pl", "ru", "sv", "uk"]

def language (name : String) : String :=
  String.ofList ((name.toList.takeWhile (· != '-')).map Char.toLower)

def marksOf (language : String) : Decimal.Separators :=
  if language ∈ commaPeriodLanguages then ⟨',', '.'⟩
  else if language ∈ commaSpaceLanguages then ⟨',', '\u00A0'⟩
  else ⟨'.', ','⟩

def resolve (raw : String) : Locale :=
  let name := normalizeName raw
  ⟨name, marksOf (language name)⟩

def currentName (env : Environment) : String :=
  match ["LC_ALL", "LC_NUMERIC", "LANG"].findSome? env.value? with
  | some raw => normalizeName raw
  | none => ""

end Locale

end BuildFeed
