import BuildFeed.Message.Template
import Mathlib.Data.List.TakeWhile

namespace BuildFeed

def FormatError.shifted (n : Nat) : FormatError → FormatError
  | malformed position => malformed (position + n)
  | error => error

theorem readSpecifier_ne_malformed (kind : NumberKind) (spec : List Char) (position : Nat) :
    readSpecifier kind spec ≠ .error (.malformed position) := by
  cases spec with
  | nil => nofun
  | cons letter digits =>
      simp only [readSpecifier]
      split
      · nofun
      · split
        · nofun
        · split
          · nofun
          · split <;> nofun

theorem readSpecifier_bind_ne_malformed (kind : NumberKind) (spec : List Char) (position : Nat)
    {f : Char × Option Nat → Except FormatError (List Char)}
    (hf : ∀ found, f found ≠ .error (.malformed position)) :
    readSpecifier kind spec >>= f ≠ .error (.malformed position) := by
  intro h
  cases hread : readSpecifier kind spec with
  | error error =>
      rw [hread] at h
      cases h
      exact readSpecifier_ne_malformed kind spec position hread
  | ok found =>
      rw [hread] at h
      exact hf found h

theorem Arg.render_ne_malformed (locale : Locale) (arg : Arg) (spec : Option (List Char))
    (position : Nat) : arg.render locale spec ≠ .error (.malformed position) := by
  rcases spec with _ | _ | ⟨c, spec⟩
  · nofun
  · nofun
  · cases arg with
    | text value => nofun
    | integer n =>
        refine readSpecifier_bind_ne_malformed .integer (c :: spec) position fun found => ?_
        dsimp only
        split <;> nofun
    | decimal d =>
        refine readSpecifier_bind_ne_malformed .decimal (c :: spec) position fun found => ?_
        dsimp only
        split <;> nofun

namespace Template

def BraceFree (cs : List Char) : Prop :=
  ∀ c ∈ cs, isBrace c = false

instance : DecidablePred BraceFree :=
  fun cs => List.decidableBAll (fun c => isBrace c = false) cs

inductive Token where
  | plain (c : Char) (h : isBrace c = false)
  | openBrace
  | closeBrace
  | placeholder (item : List Char) (h : BraceFree item)

namespace Token

def written : Token → List Char
  | plain c _ => [c]
  | openBrace => ['{', '{']
  | closeBrace => ['}', '}']
  | placeholder item _ => '{' :: (item ++ ['}'])

def expand (locale : Locale) (args : List Arg) (position : Nat) :
    Token → Except FormatError (List Char)
  | plain c _ => .ok [c]
  | openBrace => .ok ['{']
  | closeBrace => .ok ['}']
  | placeholder item _ => expandItem locale args position item

def piece (position : Nat) : Token → Piece
  | plain c _ => .literal c
  | openBrace => .literal '{'
  | closeBrace => .literal '}'
  | placeholder item _ => .placeholder position item

theorem expand_piece (locale : Locale) (args : List Arg) (position : Nat) (token : Token) :
    (token.piece position).expand locale args = token.expand locale args position := by
  cases token <;> rfl

end Token

def writeOut (tokens : List Token) : List Char :=
  tokens.flatMap Token.written

def expandAll (locale : Locale) (args : List Arg) :
    Nat → List Token → Except FormatError (List Char)
  | _, [] => .ok []
  | position, token :: tokens => do
      let front ← token.expand locale args position
      let rest ← expandAll locale args (position + utf8Length token.written) tokens
      pure (front ++ rest)

inductive Broken : List Char → Prop where
  | unclosed {item : List Char} : BraceFree item → Broken ('{' :: item)
  | nested {item rest : List Char} :
      BraceFree item → item ≠ [] → Broken ('{' :: (item ++ '{' :: rest))
  | lone {rest : List Char} : rest.head? ≠ some '}' → Broken ('}' :: rest)

inductive Offends (locale : Locale) (args : List Arg) (position : Nat) :
    List Char → FormatError → Prop where
  | broken {cs : List Char} : Broken cs → Offends locale args position cs (.malformed position)
  | token {token : Token} {rest : List Char} {error : FormatError} :
      token.expand locale args position = .error error →
      Offends locale args position (token.written ++ rest) error

def formatFrom (locale : Locale) (args : List Arg) (position : Nat) (cs : List Char) :
    Except FormatError (List Char) := do
  let texts ← (pieces position cs).mapM (Piece.expand locale args)
  pure texts.flatten

variable {locale : Locale} {args : List Arg} {position : Nat} {cs : List Char}

theorem utf8Length_eq (cs : List Char) : utf8Length cs = (String.ofList cs).utf8ByteSize := by
  induction cs with
  | nil => rfl
  | cons c cs ih => rw [utf8Length, ih, String.ofList_cons, String.utf8ByteSize_append,
      String.utf8ByteSize_singleton]

theorem utf8Length_append (as bs : List Char) :
    utf8Length (as ++ bs) = utf8Length as + utf8Length bs := by
  simp only [utf8Length_eq, String.ofList_append, String.utf8ByteSize_append]

theorem takeItem_of_braceFree {item : List Char} (h : BraceFree item) : takeItem item = none := by
  have hdrop : item.dropWhile (!isBrace ·) = [] :=
    List.dropWhile_eq_nil_iff.2 fun c hc => by rw [h c hc]; rfl
  simp only [takeItem, hdrop]

theorem takeItem_append {item : List Char} (h : BraceFree item) {c : Char} (hc : isBrace c = true)
    (rest : List Char) :
    takeItem (item ++ c :: rest) = if c = '}' then some (item, rest) else none := by
  have hall : ∀ c ∈ item, (!isBrace c) = true := fun c hc => by rw [h c hc]; rfl
  have hdrop : (item ++ c :: rest).dropWhile (!isBrace ·) = c :: rest := by
    rw [List.dropWhile_append_of_pos hall, List.dropWhile_cons_of_neg (by simp [hc])]
  have htake : (item ++ c :: rest).takeWhile (!isBrace ·) = item := by
    rw [List.takeWhile_append_of_pos hall, List.takeWhile_cons_of_neg (by simp [hc]),
      List.append_nil]
  by_cases hclose : c = '}'
  · subst hclose
    simp only [takeItem, hdrop, htake, if_pos]
  · simp only [takeItem, hdrop, if_neg hclose]
    split
    · next heq => exact absurd (List.cons.inj heq).1 hclose
    · rfl

theorem head?_of_braceFree {item tail : List Char} (h : BraceFree item)
    (htail : item = [] → tail.head? ≠ some '{') : (item ++ tail).head? ≠ some '{' := by
  cases item with
  | nil => exact htail rfl
  | cons c item =>
      rintro ⟨⟩
      cases h '{' (List.mem_cons_self ..)

theorem pieces_placeholder {cs : List Char} (h : cs.head? ≠ some '{') (position : Nat) :
    pieces position ('{' :: cs) =
      match takeItem cs with
      | none => [.stray position]
      | some (item, rest) =>
          .placeholder position item :: pieces (position + 2 + utf8Length item) rest := by
  have hopen : ∀ rest, cs = '{' :: rest → False := by
    rintro rest rfl
    exact h rfl
  rw [pieces.eq_4 position cs hopen]
  split <;> simp only [*]

theorem pieces_written (token : Token) (position : Nat) (rest : List Char) :
    pieces position (token.written ++ rest) =
      token.piece position :: pieces (position + utf8Length token.written) rest := by
  cases token with
  | plain c h =>
      have hopen : c ≠ '{' := by
        rintro rfl
        cases h
      have hclose : c ≠ '}' := by
        rintro rfl
        cases h
      exact pieces.eq_6 position c rest (fun _ h _ => hopen h) (fun _ h _ => hclose h) hopen hclose
  | openBrace => exact pieces.eq_2 position rest
  | closeBrace => exact pieces.eq_3 position rest
  | placeholder item h =>
      have hitem : takeItem (item ++ '}' :: rest) = some (item, rest) := takeItem_append h rfl rest
      have hlength : position + utf8Length ('{' :: (item ++ ['}'])) =
          position + 2 + utf8Length item := by
        have hbraces : utf8Length ['}'] = 1 ∧ Char.utf8Size '{' = 1 := ⟨rfl, rfl⟩
        rw [utf8Length, utf8Length_append]
        omega
      simp only [Token.written, List.cons_append, List.append_assoc, List.nil_append, hlength]
      have hbraces : some '}' ≠ some '{' := by decide
      have hhead : (item ++ '}' :: rest).head? ≠ some '{' := head?_of_braceFree h fun _ => hbraces
      rw [pieces_placeholder hhead, hitem]
      rfl

theorem pieces_broken {cs : List Char} (h : Broken cs) (position : Nat) :
    pieces position cs = [.stray position] := by
  cases h with
  | @unclosed item hitem =>
      have hhead : (item ++ []).head? ≠ some '{' := head?_of_braceFree hitem fun _ => nofun
      rw [List.append_nil] at hhead
      rw [pieces_placeholder hhead, takeItem_of_braceFree hitem]
  | @nested item rest hitem hne =>
      have hhead : (item ++ '{' :: rest).head? ≠ some '{' :=
        head?_of_braceFree hitem fun h => absurd h hne
      have htake : takeItem (item ++ '{' :: rest) = none := takeItem_append hitem rfl rest
      rw [pieces_placeholder hhead, htake]
  | @lone rest hrest =>
      refine pieces.eq_5 position rest ?_
      rintro more rfl
      exact hrest rfl

theorem exists_braceFree (cs : List Char) :
    ∃ item tail, cs = item ++ tail ∧ BraceFree item ∧
      (tail = [] ∨ ∃ rest, tail = '{' :: rest ∨ tail = '}' :: rest) := by
  induction cs with
  | nil => exact ⟨[], [], rfl, nofun, .inl rfl⟩
  | cons c cs ih =>
      cases hc : isBrace c with
      | true =>
          refine ⟨[], c :: cs, rfl, nofun, .inr ⟨cs, ?_⟩⟩
          simpa [isBrace] using hc
      | false =>
          obtain ⟨item, tail, rfl, hitem, htail⟩ := ih
          exact ⟨c :: item, tail, rfl, List.forall_mem_cons.2 ⟨hc, hitem⟩, htail⟩

theorem open_cases {cs : List Char} (h : cs.head? ≠ some '{') :
    (∃ token rest, '{' :: cs = Token.written token ++ rest) ∨ Broken ('{' :: cs) := by
  obtain ⟨item, tail, rfl, hitem, rfl | ⟨rest, rfl | rfl⟩⟩ := exists_braceFree cs
  · rw [List.append_nil]
    exact .inr (.unclosed hitem)
  · refine .inr (.nested hitem ?_)
    rintro rfl
    exact h rfl
  · refine .inl ⟨.placeholder item hitem, rest, ?_⟩
    simp only [Token.written, List.cons_append, List.append_assoc, List.nil_append]

theorem front_cases (cs : List Char) :
    cs = [] ∨ (∃ token rest, cs = Token.written token ++ rest) ∨ Broken cs := by
  cases cs with
  | nil => exact .inl rfl
  | cons c cs =>
      refine .inr ?_
      cases hc : isBrace c with
      | false => exact .inl ⟨.plain c hc, cs, rfl⟩
      | true =>
          have hbrace : c = '{' ∨ c = '}' := by simpa [isBrace] using hc
          by_cases hdouble : cs.head? = some c
          · obtain ⟨rest, rfl⟩ := List.head?_eq_some_iff.1 hdouble
            rcases hbrace with rfl | rfl
            · exact .inl ⟨.openBrace, rest, rfl⟩
            · exact .inl ⟨.closeBrace, rest, rfl⟩
          · rcases hbrace with rfl | rfl
            · exact open_cases hdouble
            · exact .inr (.lone hdouble)

theorem Token.length_written_pos (token : Token) : 0 < token.written.length := by
  cases token <;> exact Nat.succ_pos _

theorem template_induction {motive : List Char → Prop} (nil : motive [])
    (token : ∀ token rest, motive rest → motive (Token.written token ++ rest))
    (broken : ∀ cs, Broken cs → motive cs) (cs : List Char) : motive cs := by
  rcases front_cases cs with rfl | ⟨front, rest, rfl⟩ | hbroken
  · exact nil
  · have hshort : rest.length < (front.written ++ rest).length := by
      rw [List.length_append]
      exact Nat.lt_add_of_pos_left front.length_written_pos
    exact token front rest (template_induction nil token broken rest)
  · exact broken cs hbroken
termination_by cs.length

theorem expandItem_shifted (locale : Locale) (args : List Arg) (position n : Nat) (item : List Char) :
    expandItem locale args (position + n) item =
      (expandItem locale args position item).mapError (.shifted n) := by
  simp only [expandItem]
  split
  · split
    · split
      · rfl
      · split
        · next arg _ =>
            cases hrender : arg.render locale (Text.cutAt ':' item).2 with
            | ok text => rfl
            | error error =>
              cases error with
              | malformed found => exact absurd hrender (arg.render_ne_malformed locale _ found)
              | _ => rfl
        · rfl
    · rfl
  · rfl

theorem formatFrom_nil : formatFrom locale args position [] = .ok [] := by
  rw [formatFrom, pieces]
  rfl

theorem formatFrom_written (token : Token) (rest : List Char) :
    formatFrom locale args position (token.written ++ rest) = (do
      let front ← token.expand locale args position
      let after ← formatFrom locale args (position + utf8Length token.written) rest
      pure (front ++ after)) := by
  simp only [formatFrom, pieces_written, List.mapM_cons, token.expand_piece, bind_assoc, pure_bind,
    List.flatten_cons]

theorem formatFrom_broken {cs : List Char} (h : Broken cs) :
    formatFrom locale args position cs = .error (.malformed position) := by
  rw [formatFrom, pieces_broken h]
  rfl

theorem formatFrom_writeOut (tokens : List Token) (rest : List Char) (position : Nat) :
    formatFrom locale args position (writeOut tokens ++ rest) = (do
      let front ← expandAll locale args position tokens
      let after ← formatFrom locale args (position + utf8Length (writeOut tokens)) rest
      pure (front ++ after)) := by
  induction tokens generalizing position with
  | nil => exact (bind_pure (formatFrom locale args position rest)).symm
  | cons token tokens ih =>
      have hwritten : writeOut (token :: tokens) = token.written ++ writeOut tokens := rfl
      rw [hwritten, List.append_assoc, formatFrom_written, ih, expandAll, utf8Length_append,
        Nat.add_assoc]
      simp only [bind_assoc, pure_bind, List.append_assoc]

theorem formatFrom_offends {error : FormatError} (h : Offends locale args position cs error) :
    formatFrom locale args position cs = .error error := by
  cases h with
  | broken hbroken => exact formatFrom_broken hbroken
  | token hexpand =>
      rw [formatFrom_written, hexpand]
      rfl

theorem exists_split (locale : Locale) (args : List Arg) (cs : List Char) :
    ∀ position, ∃ tokens text rest, cs = writeOut tokens ++ rest ∧
      expandAll locale args position tokens = .ok text ∧
      (rest = [] ∨ ∃ error,
        Offends locale args (position + utf8Length (writeOut tokens)) rest error) := by
  induction cs using template_induction with
  | nil => exact fun position => ⟨[], [], [], rfl, rfl, .inl rfl⟩
  | broken cs hbroken => exact fun position => ⟨[], [], cs, rfl, rfl, .inr ⟨_, .broken hbroken⟩⟩
  | token front rest ih =>
      intro position
      cases hfront : front.expand locale args position with
      | error error =>
          exact ⟨[], [], front.written ++ rest, rfl, rfl, .inr ⟨error, .token hfront⟩⟩
      | ok first =>
          obtain ⟨tokens, text, last, rfl, htokens, hlast⟩ :=
            ih (position + utf8Length front.written)
          refine ⟨front :: tokens, first ++ text, last, ?_, ?_, ?_⟩
          · exact (List.append_assoc ..).symm
          · rw [expandAll, hfront]
            simp only [bind, Except.bind, htokens]
            rfl
          · have hwritten : writeOut (front :: tokens) = front.written ++ writeOut tokens := rfl
            rwa [hwritten, utf8Length_append, ← Nat.add_assoc]

theorem formatFrom_eq_ok {text : List Char} :
    formatFrom locale args position cs = .ok text ↔
      ∃ tokens, cs = writeOut tokens ∧ expandAll locale args position tokens = .ok text := by
  constructor
  · intro h
    obtain ⟨tokens, found, rest, rfl, htokens, hrest⟩ := exists_split locale args cs position
    rw [formatFrom_writeOut, htokens] at h
    rcases hrest with rfl | ⟨error, hoffends⟩
    · rw [formatFrom_nil] at h
      cases h
      exact ⟨tokens, List.append_nil _, htokens.trans (by rw [List.append_nil])⟩
    · rw [formatFrom_offends hoffends] at h
      cases h
  · rintro ⟨tokens, rfl, htokens⟩
    rw [← List.append_nil (writeOut tokens), formatFrom_writeOut, htokens, formatFrom_nil]
    exact congrArg Except.ok (List.append_nil text)

theorem formatFrom_eq_error {error : FormatError} :
    formatFrom locale args position cs = .error error ↔
      ∃ tokens rest, cs = writeOut tokens ++ rest ∧
        (∃ text, expandAll locale args position tokens = .ok text) ∧
        Offends locale args (position + utf8Length (writeOut tokens)) rest error := by
  constructor
  · intro h
    obtain ⟨tokens, text, rest, rfl, htokens, hrest⟩ := exists_split locale args cs position
    rw [formatFrom_writeOut, htokens] at h
    rcases hrest with rfl | ⟨found, hoffends⟩
    · rw [formatFrom_nil] at h
      cases h
    · rw [formatFrom_offends hoffends] at h
      cases h
      exact ⟨tokens, rest, rfl, ⟨text, htokens⟩, hoffends⟩
  · rintro ⟨tokens, rest, rfl, ⟨text, htokens⟩, hoffends⟩
    rw [formatFrom_writeOut, htokens, formatFrom_offends hoffends]
    rfl

theorem mapError_bind {ε ε' α β : Type} (f : ε → ε') (x : Except ε α) (g : α → Except ε β) :
    (x >>= g).mapError f = x.mapError f >>= fun a => (g a).mapError f := by
  cases x <;> rfl

theorem Token.expand_shifted (locale : Locale) (args : List Arg) (position n : Nat) (token : Token) :
    token.expand locale args (position + n) =
      (token.expand locale args position).mapError (.shifted n) := by
  cases token with
  | placeholder item h => exact expandItem_shifted locale args position n item
  | _ => rfl

theorem formatFrom_shifted (locale : Locale) (args : List Arg) (n : Nat) (cs : List Char) :
    ∀ position, formatFrom locale args (position + n) cs =
      (formatFrom locale args position cs).mapError (.shifted n) := by
  induction cs using template_induction with
  | nil =>
      intro position
      rw [formatFrom_nil, formatFrom_nil]
      rfl
  | broken cs hbroken =>
      intro position
      rw [formatFrom_broken hbroken, formatFrom_broken hbroken]
      rfl
  | token front rest ih =>
      intro position
      rw [formatFrom_written, formatFrom_written, front.expand_shifted, mapError_bind,
        Nat.add_right_comm, ih]
      simp only [mapError_bind]
      rfl

def doubledChars (cs : List Char) : List Char :=
  cs.flatMap fun c => if isBrace c then [c, c] else [c]

def doubled (text : String) : String :=
  String.ofList (doubledChars text.toList)

theorem exists_token (c : Char) : ∃ token : Token,
    (if isBrace c then [c, c] else [c]) = token.written ∧
      ∀ locale args position, token.expand locale args position = .ok [c] := by
  cases hc : isBrace c with
  | false => exact ⟨.plain c hc, rfl, fun _ _ _ => rfl⟩
  | true =>
      have hbrace : c = '{' ∨ c = '}' := by simpa [isBrace] using hc
      rcases hbrace with rfl | rfl
      · exact ⟨.openBrace, rfl, fun _ _ _ => rfl⟩
      · exact ⟨.closeBrace, rfl, fun _ _ _ => rfl⟩

theorem formatFrom_doubledChars (locale : Locale) (args : List Arg) (position : Nat)
    (cs : List Char) : formatFrom locale args position (doubledChars cs) = .ok cs := by
  induction cs generalizing position with
  | nil => exact formatFrom_nil
  | cons c cs ih =>
      obtain ⟨token, hwritten, hexpand⟩ := exists_token c
      have hcons : doubledChars (c :: cs) = token.written ++ doubledChars cs := by
        rw [← hwritten]
        rfl
      rw [hcons, formatFrom_written, hexpand, ih]
      rfl

theorem format_eq (locale : Locale) (template : String) (args : List Arg) :
    format locale template args =
      (formatFrom locale args 0 template.toList).map String.ofList := rfl

theorem format_eq_ok {template text : String} :
    format locale template args = .ok text ↔
      formatFrom locale args 0 template.toList = .ok text.toList := by
  rw [format_eq]
  cases formatFrom locale args 0 template.toList with
  | error error => exact ⟨nofun, nofun⟩
  | ok cs =>
      simp only [Except.map, Except.ok.injEq]
      exact ⟨fun h => by rw [← h, String.toList_ofList], fun h => by rw [h, String.ofList_toList]⟩

theorem format_eq_error {template : String} {error : FormatError} :
    format locale template args = .error error ↔
      formatFrom locale args 0 template.toList = .error error := by
  rw [format_eq]
  cases formatFrom locale args 0 template.toList with
  | error found => simp only [Except.map, Except.error.injEq]
  | ok cs => exact ⟨nofun, nofun⟩

theorem format_append {a x : String} (h : format locale a args = .ok x) (b : String) :
    format locale (a ++ b) args =
      ((format locale b args).mapError (.shifted a.utf8ByteSize)).map (x ++ ·) := by
  obtain ⟨tokens, htokens, hexpand⟩ := formatFrom_eq_ok.1 (format_eq_ok.1 h)
  have hsize : 0 + utf8Length (writeOut tokens) = 0 + a.utf8ByteSize := by
    rw [← htokens, utf8Length_eq, String.ofList_toList]
  rw [format_eq, String.toList_append, htokens, formatFrom_writeOut, hexpand, hsize,
    formatFrom_shifted, format_eq]
  cases formatFrom locale args 0 b.toList with
  | error error => rfl
  | ok cs =>
    change Except.ok (String.ofList (x.toList ++ cs)) = .ok (x ++ String.ofList cs)
    rw [String.ofList_append, String.ofList_toList]

theorem template_formats_iff_in_grammar (locale : Locale) (args : List Arg) :
    (∀ template text, format locale template args = .ok text ↔
      ∃ tokens, template.toList = writeOut tokens ∧
        expandAll locale args 0 tokens = .ok text.toList) ∧
    (∀ template error, format locale template args = .error error ↔
      ∃ tokens rest, template.toList = writeOut tokens ++ rest ∧
        (∃ text, expandAll locale args 0 tokens = .ok text) ∧
        Offends locale args (String.ofList (writeOut tokens)).utf8ByteSize rest error) ∧
    (∀ a x, format locale a args = .ok x → ∀ b, format locale (a ++ b) args =
      ((format locale b args).mapError (.shifted a.utf8ByteSize)).map (x ++ ·)) ∧
    ∀ text, format locale (doubled text) args = .ok text := by
  refine ⟨?_, ?_, ?_, ?_⟩
  · intro template text
    exact format_eq_ok.trans formatFrom_eq_ok
  · intro template error
    rw [format_eq_error, formatFrom_eq_error]
    simp only [Nat.zero_add, utf8Length_eq]
  · intro a x h b
    exact format_append h b
  · intro text
    refine format_eq_ok.2 ?_
    rw [doubled, String.toList_ofList]
    exact formatFrom_doubledChars locale args 0 text.toList

theorem stray_brace_is_found_behind_tokens :
    let args : List Arg := [.integer 7]
    format .invariant "é\x7b\x7b\x7b0\x7d\x7d\x7d" args = .ok "é\x7b7\x7d" ∧
      format .invariant ("é\x7b\x7b\x7b0\x7d\x7d\x7d" ++ "\x7dx") args = .error (.malformed 9) := by
  intro args
  obtain ⟨haccepts, hrejects, happend, _⟩ := template_formats_iff_in_grammar .invariant args
  have hfront : format .invariant "é\x7b\x7b\x7b0\x7d\x7d\x7d" args = .ok "é\x7b7\x7d" :=
    (haccepts _ _).2
      ⟨[.plain 'é' rfl, .openBrace, .placeholder ['0'] (by decide), .closeBrace],
        by decide, by decide⟩
  have hback : format .invariant "\x7dx" args = .error (.malformed 0) :=
    (hrejects _ _).2 ⟨[], ['}', 'x'], by decide, ⟨[], rfl⟩, .broken (.lone (by decide))⟩
  have hwhole := happend _ _ hfront "\x7dx"
  rw [hback] at hwhole
  exact ⟨hfront, hwhole⟩

end Template

end BuildFeed
