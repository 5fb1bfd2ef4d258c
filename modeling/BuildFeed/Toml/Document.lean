import BuildFeed.Toml.Lexeme

namespace BuildFeed.Toml

inductive Origin where
  /-- Between braces: complete as it stands. -/
  | literal
  | header
  /-- On the way to the table of a header. -/
  | path
  /-- By a key with dots. -/
  | dotted
  deriving DecidableEq

inductive Node where
  | text (value : String)
  | integer (value : Int)
  | float
  | boolean (value : Bool)
  | dateTime
  | array (items : List Node)
  | table (origin : Origin) (entries : List (String × Node))
  | tables (elements : List (List (String × Node)))

abbrev Entries := List (String × Node)

namespace Entries

def set (key : String) (node : Node) (entries : Entries) : Entries :=
  if entries.any (·.1 = key) then
    entries.map fun entry => if entry.1 = key then (key, node) else entry
  else entries ++ [(key, node)]

/-- Changes the table at the end of a path; missing tables are made. Keys with dots add only to
tables that no header has opened. The change learns whether keys with dots made its table. -/
def alter (dotted : Bool) (change : Bool → Entries → Option Entries) :
    List String → Bool → Entries → Option Entries
  | [], madeByDots, entries => change madeByDots entries
  | key :: path, _, entries =>
      match entries.lookup key with
      | none => do
          let origin := if dotted then Origin.dotted else Origin.path
          let sub ← alter dotted change path dotted []
          pure (entries.set key (.table origin sub))
      | some (.table .literal _) => none
      | some (.table origin sub) => do
          if dotted ∧ origin = .header then none
          let sub ← alter dotted change path (origin = .dotted) sub
          pure (entries.set key (.table origin sub))
      | some (.tables elements) => do
          let last ← elements.getLast?
          let last ← alter dotted change path false last
          pure (entries.set key (.tables (elements.dropLast ++ [last])))
      | some _ => none

def assign (path : List String) (key : String) (value : Node) (entries : Entries) :
    Option Entries :=
  let change (madeByDots : Bool) (table : Entries) : Option Entries :=
    if madeByDots = path.isEmpty ∨ (table.lookup key).isSome then none
    else some (table ++ [(key, value)])
  alter true change path false entries

def openTable (path : List String) (key : String) (entries : Entries) : Option Entries :=
  let change (_ : Bool) (table : Entries) : Option Entries :=
    match table.lookup key with
    | none => some (table ++ [(key, .table .header [])])
    | some (.table .path sub) => some (table.set key (.table .header sub))
    | some _ => none
  alter false change path false entries

def openElement (path : List String) (key : String) (entries : Entries) : Option Entries :=
  let change (_ : Bool) (table : Entries) : Option Entries :=
    match table.lookup key with
    | none => some (table ++ [(key, .tables [[]])])
    | some (.tables elements) => some (table.set key (.tables (elements ++ [[]])))
    | some _ => none
  alter false change path false entries

end Entries

open Scan

def splitPath (path : List String) : Option (List String × String) :=
  path.getLast?.map fun key => (path.dropLast, key)

def assignment (value : Scan Node) : Scan (List String × Node) := do
  let path ← keyPath
  char '='
  spaces
  let node ← value
  spaces
  pure (path, node)

def arrayOf (value : Scan Node) : Scan Node := do
  char '['
  let items ← many do
    gap
    let item ← value
    gap
    if (← peek) ≠ some ']' then char ','
    pure item
  gap
  char ']'
  pure (.array items)

def tableOf (value : Scan Node) : Scan Node := do
  char '\x7b'
  let pairs ← attempt (separated ',' (assignment value))
  spaces
  char '\x7d'
  let entries := (pairs.getD []).foldlM (fun (entries : Entries) (path, node) => do
    let (path, key) ← splitPath path
    entries.assign path key node) ([] : Entries)
  match entries with
  | some entries => pure (.table .literal entries)
  | none => fail

def value : Nat → Scan Node
  | 0 => fail
  | depth + 1 =>
      Node.text <$> string <|> arrayOf (value depth) <|> tableOf (value depth) <|>
        (word "true".toList *> pure (.boolean true)) <|>
        (word "false".toList *> pure (.boolean false)) <|>
        (dateTime *> pure .dateTime) <|> (float *> pure .float) <|> Node.integer <$> integer

def maxDepth : Nat := 80

inductive Line where
  | assignment (path : List String) (value : Node)
  | table (path : List String)
  | element (path : List String)

def header : Scan Line := do
  char '['
  match ← attempt (char '[') with
  | some _ =>
      let path ← keyPath
      word [']', ']']
      pure (.element path)
  | none =>
      let path ← keyPath
      char ']'
      pure (.table path)

def line : Scan Line := do
  let line ← if (← peek) = some '[' then header
    else do
      let (path, node) ← assignment (value (maxDepth + 1))
      pure (Line.assignment path node)
  lineEnd
  pure line

structure Draft where
  root : Entries
  current : List String

def Draft.add (draft : Draft) : Line → Option Draft
  | .assignment path node => do
      let (path, key) ← splitPath path
      let change (_ : Bool) (table : Entries) : Option Entries := table.assign path key node
      let root ← draft.root.alter false change draft.current false
      pure { draft with root }
  | .table path => do
      let (parents, key) ← splitPath path
      pure ⟨← draft.root.openTable parents key, path⟩
  | .element path => do
      let (parents, key) ← splitPath path
      pure ⟨← draft.root.openElement parents key, path⟩

def lines : Scan (List Line) := do
  gap
  let _ ← attempt comment
  let lines ← many do
    let line ← line
    gap
    let _ ← attempt comment
    pure line
  if ← isDone then pure lines else fail

def dropByteOrderMark (cs : List Char) : List Char :=
  if cs.head? = some '\uFEFF' then cs.tail else cs

def parse (text : String) : Option Entries := do
  let (lines, _) ← lines (dropByteOrderMark text.toList)
  let draft ← lines.foldlM Draft.add ⟨[], []⟩
  pure draft.root

end BuildFeed.Toml
