import BuildFeed.Message.Arg
import BuildFeed.Text.Cut

namespace BuildFeed.Template

inductive Piece where
  | literal (c : Char)
  | placeholder (position : Nat) (item : List Char)
  | stray (position : Nat)
  deriving DecidableEq

def isBrace (c : Char) : Bool :=
  c == '{' || c == '}'

def takeItem (cs : List Char) : Option (List Char × List Char) :=
  match cs.dropWhile (!isBrace ·) with
  | '}' :: rest => some (cs.takeWhile (!isBrace ·), rest)
  | _ => none

theorem takeItem_length {cs item rest : List Char} (h : takeItem cs = some (item, rest)) :
    rest.length < cs.length := by
  unfold takeItem at h
  split at h
  next after heq =>
    have hle := (List.dropWhile_sublist (p := (!isBrace ·)) (l := cs)).length_le
    simp only [Option.some.injEq, Prod.mk.injEq] at h
    rw [heq, h.2] at hle
    exact hle
  next => simp at h

def utf8Length : List Char → Nat
  | [] => 0
  | c :: cs => c.utf8Size + utf8Length cs

def pieces (position : Nat) : List Char → List Piece
  | [] => []
  | '{' :: '{' :: rest => .literal '{' :: pieces (position + 2) rest
  | '}' :: '}' :: rest => .literal '}' :: pieces (position + 2) rest
  | '{' :: rest =>
      match h : takeItem rest with
      | none => [.stray position]
      | some (item, after) =>
          .placeholder position item ::
            pieces (position + 2 + utf8Length item) after
  | '}' :: _ => [.stray position]
  | c :: rest => .literal c :: pieces (position + c.utf8Size) rest
termination_by cs => cs.length
decreasing_by
  · grind
  · grind
  · have hlen := takeItem_length h
    grind
  · grind

def pad (onLeft : Bool) (width : Nat) (text : List Char) : List Char :=
  let blanks := List.replicate (width - text.length) ' '
  if onLeft then blanks ++ text else text ++ blanks

def expandItem (locale : Locale) (args : List Arg) (position : Nat) (item : List Char) :
    Except FormatError (List Char) := do
  let (head, spec) := Text.cutAt ':' item
  let (index, alignment) := Text.cutAt ',' head
  let some index := Text.word64? (Text.trim index)
    | throw (.malformed position)
  let some alignment := (alignment.map (Text.signed? (Nat.pow 2 31) ∘ Text.trim)).getD (some 0)
    | throw (.malformed position)
  if maxWidth ≤ alignment.natAbs then
    throw (.widthOutOfRange alignment.natAbs)
  let some arg := args[index]?
    | throw (.indexOutOfRange index args.length)
  let text ← arg.render locale spec
  pure (pad (0 < alignment) alignment.natAbs text)

def Piece.expand (locale : Locale) (args : List Arg) : Piece → Except FormatError (List Char)
  | literal c => pure [c]
  | placeholder position item => expandItem locale args position item
  | stray position => throw (.malformed position)

def formatChars (locale : Locale) (template : List Char) (args : List Arg) :
    Except FormatError (List Char) := do
  let texts ← (pieces 0 template).mapM (Piece.expand locale args)
  pure texts.flatten

def format (locale : Locale) (template : String) (args : List Arg) : Except FormatError String := do
  let text ← formatChars locale template.toList args
  pure (String.ofList text)

end BuildFeed.Template
