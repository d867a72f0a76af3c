/-
# Tether.Lib.SqlSelect — a generated SELECT, read back

`SELECT … FROM "schema"."table" WHERE …` with quoted names and a list of columns or `*`.
The lexer is the one of `Tether.Lib.Sql` with three signs more; outside quotes these stand
for themselves wherever a token may end.

What the WHERE lexer reads, this one reads as the same tokens, and it goes on after a blank
or a sign as if nothing had been before (`scans_of_lex`).  So a statement is read piece by
piece, and is what it was written from (`Select.read_textWith`).
-/
import Tether.Lib.Sql

namespace Tether.Lib.Sql

set_option autoImplicit false

inductive Sign where
  | comma
  | dot
  | star
  deriving DecidableEq

def Sign.char : Sign → Char
  | .comma => ','
  | .dot => '.'
  | .star => '*'

def Sign.ofChar (c : Char) : Option Sign :=
  if c = ',' then some .comma else if c = '.' then some .dot else if c = '*' then some .star
  else none

@[simp] theorem Sign.ofChar_char (sign : Sign) : Sign.ofChar sign.char = some sign := by
  cases sign <;> decide

inductive Lexeme where
  | token (t : Token)
  | sign (s : Sign)
  deriving DecidableEq

/-- Outside quotes a sign ends the token before it. -/
def Mode.scan (m : Mode) (c : Char) : Option (List Lexeme × Mode) :=
  match m, Sign.ofChar c with
  | .quoted read, _ => next (.quoted read)
  | m, some sign => m.finish.map fun ended => (ended.map .token ++ [.sign sign], .blank)
  | m, none => next m
where
  next (m : Mode) : Option (List Lexeme × Mode) :=
    (m.next c).map fun (tokens, m') => (tokens.map .token, m')

def scanFrom : Mode → List Char → Option (List Lexeme)
  | m, [] => m.finish.map fun ended => ended.map .token
  | m, c :: cs => (m.scan c).bind fun (lexemes, m') => (scanFrom m' cs).map (lexemes ++ ·)

def scan : List Char → Option (List Lexeme) := scanFrom .blank

/-! ## Pieces of a text -/

/-- A token may end before `rest`. -/
def Boundary (rest : List Char) : Prop := ∀ c ∈ rest.head?, c = ' ' ∨ (Sign.ofChar c).isSome

/-- The lexer reads `text` as `lexemes` wherever a token may end behind it. -/
def Scans (text : List Char) (lexemes : List Lexeme) : Prop :=
  ∀ rest, Boundary rest →
    scanFrom .blank (text ++ rest) = (scanFrom .blank rest).map (lexemes ++ ·)

theorem scanFrom_blank (cs : List Char) : scanFrom .blank (' ' :: cs) = scanFrom .blank cs := by
  have skipped : Mode.scan .blank ' ' = some ([], .blank) := by decide
  simp [scanFrom, skipped]

theorem scanFrom_sign (sign : Sign) (cs : List Char) :
    scanFrom .blank (sign.char :: cs) = (scanFrom .blank cs).map (.sign sign :: ·) := by
  simp [scanFrom, Mode.scan, Mode.finish]

/-- The WHERE lexer knows no signs outside quotes. -/
theorem scan_of_next {m m' : Mode} {c : Char} {tokens : List Token}
    (stepped : m.next c = some (tokens, m')) : m.scan c = some (tokens.map .token, m') := by
  have unread : (Sign.ofChar c).isSome → (∀ read, m ≠ .quoted read) → m.next c = none := by
    intro sign outside
    have cases : c = ',' ∨ c = '.' ∨ c = '*' := by
      by_contra other
      simp only [not_or] at other
      simp [Sign.ofChar, other] at sign
    cases m with
    | quoted read => exact absurd rfl (outside read)
    | _ => rcases cases with rfl | rfl | rfl <;> simp [Mode.next, Mode.next.other, Mode.start]
  cases m with
  | quoted read => simp [Mode.scan, Mode.scan.next, stepped]
  | _ =>
      have plain : Sign.ofChar c = none := by
        by_contra sign
        have := unread (Option.isSome_iff_ne_none.2 sign) (by simp)
        simp [this] at stepped
      simp [Mode.scan, Mode.scan.next, plain, stepped]

theorem next_blank {m : Mode} {tokens : List Token} (ended : m.finish = some tokens) :
    m.next ' ' = some (tokens, .blank) := by
  have start : Mode.start ' ' = some ([], .blank) := by decide
  cases m with
  | blank | closing read | number n | word read =>
      cases ended
      simp [Mode.next, Mode.next.other, Mode.finish, start]
  | quoted read | dollar | less => cases ended

theorem scan_sign {m : Mode} {tokens : List Token} (ended : m.finish = some tokens) {c : Char}
    {sign : Sign} (is : Sign.ofChar c = some sign) :
    m.scan c = some (tokens.map .token ++ [.sign sign], .blank) := by
  cases m with
  | quoted read => cases ended
  | _ => simp only [Mode.scan, is, ended, Option.map_some]

theorem scanFrom_finish {m : Mode} {tokens : List Token} (ended : m.finish = some tokens)
    {rest : List Char} (boundary : Boundary rest) :
    scanFrom m rest = (scanFrom .blank rest).map (tokens.map .token ++ ·) := by
  have idle : Mode.finish .blank = some [] := rfl
  cases rest with
  | nil => simp only [scanFrom, ended, idle, Option.map_some, List.map_nil, List.append_nil]
  | cons c cs =>
      rcases boundary c rfl with rfl | sign
      · rw [scanFrom_blank, scanFrom, scan_of_next (next_blank ended)]
        rfl
      · obtain ⟨sign, is⟩ := Option.isSome_iff_exists.1 sign
        rw [scanFrom, scanFrom, scan_sign ended is, scan_sign idle is]
        simp [Function.comp_def]

/-- **What the WHERE lexer reads, the statement lexer reads.** -/
theorem scans_of_lex {text : List Char} {tokens : List Token} (read : lex text = some tokens) :
    Scans text (tokens.map .token) := by
  intro rest boundary
  -- over the text, from any mode the lexer is in
  have run : ∀ (cs : List Char) (m : Mode) (tokens : List Token), lexFrom m cs = some tokens →
      scanFrom m (cs ++ rest) = (scanFrom .blank rest).map (tokens.map .token ++ ·) := by
    intro cs
    induction cs with
    | nil => exact fun m tokens ended => scanFrom_finish ended boundary
    | cons c cs ih =>
        intro m tokens lexed
        obtain ⟨⟨first, m'⟩, stepped, later⟩ := Option.bind_eq_some_iff.1 lexed
        obtain ⟨after, lexed', rfl⟩ := Option.map_eq_some_iff.1 later
        have rest' := ih m' after lexed'
        rw [List.cons_append, scanFrom, scan_of_next stepped]
        simp [rest', Function.comp_def]
  exact run text .blank tokens read

namespace Scans

variable {text text' : List Char} {lexemes lexemes' : List Lexeme}

/-- Two pieces with a blank in between. -/
theorem append (scans : Scans text lexemes) (scans' : Scans text' lexemes') :
    Scans (text ++ ' ' :: text') (lexemes ++ lexemes') := by
  intro rest boundary
  have blank : Boundary (' ' :: text' ++ rest) := fun c first => Or.inl (Option.some.inj first).symm
  rw [List.append_assoc, scans _ blank, List.cons_append, scanFrom_blank, scans' rest boundary]
  simp [Function.comp_def]

/-- Two pieces with a sign in between. -/
theorem append_sign (scans : Scans text lexemes) (sign : Sign) (scans' : Scans text' lexemes') :
    Scans (text ++ sign.char :: text') (lexemes ++ .sign sign :: lexemes') := by
  intro rest boundary
  have ends : Boundary (sign.char :: text' ++ rest) := by
    intro c first
    cases first
    exact Or.inr (by simp)
  rw [List.append_assoc, scans _ ends, List.cons_append, scanFrom_sign, scans' rest boundary]
  simp [Function.comp_def]

theorem blank_cons (scans : Scans text lexemes) : Scans (' ' :: text) lexemes := by
  intro rest boundary
  rw [List.cons_append, scanFrom_blank, scans rest boundary]

theorem scan_eq (scans : Scans text lexemes) : scan text = some lexemes := by
  have whole := scans [] (by simp [Boundary])
  simpa [scan, scanFrom, Mode.finish] using whole

end Scans

theorem scans_star : Scans ['*'] [.sign .star] := by
  intro rest _
  exact scanFrom_sign .star rest

theorem scans_quoteIdent (name : List Char) :
    Scans (quoteIdent name) [.token (.ident name)] := by
  have lexed : lex (quoteIdent name) = some [.ident name] := by
    have read := reads_quoteIdent name [] (by simp)
    rwa [List.append_nil] at read
  exact scans_of_lex lexed

theorem scans_word {w : List Char} (nonempty : w ≠ []) (alpha : ∀ c ∈ w, c.isAlpha) :
    Scans w [.token (.word (w.map Char.toUpper))] := by
  have lexed : lex w = some [.word (w.map Char.toUpper)] := by
    have read := reads_word nonempty alpha [] (by simp)
    rwa [List.append_nil] at read
  exact scans_of_lex lexed

/-! ## Statements -/

/-- `columns` is `none` for `*`. -/
structure Select where
  columns : Option (List (List Char))
  schema : List Char
  table : List Char
  conds : List Cond

namespace Select

def columnText : Option (List (List Char)) → List Char
  | none => ['*']
  | some names => ", ".toList.intercalate (names.map quoteIdent)

/-- The statement, with any text behind its WHERE. -/
def textWith (columns : Option (List (List Char))) (schema table clause : List Char) :
    List Char :=
  "SELECT".toList ++ ' ' :: columnText columns ++ ' ' :: "FROM".toList ++
    ' ' :: (quoteIdent schema ++ '.' :: quoteIdent table) ++ ' ' :: "WHERE".toList ++ ' ' :: clause

/-- The names up to the first that no comma follows. -/
def readNames : List Lexeme → Option (List (List Char) × List Lexeme)
  | .token (.ident name) :: .sign .comma :: rest =>
      (readNames rest).map fun (names, rest) => (name :: names, rest)
  | .token (.ident name) :: rest => some ([name], rest)
  | _ => none

def readColumns : List Lexeme → Option (Option (List (List Char)) × List Lexeme)
  | .sign .star :: rest => some (none, rest)
  | lexemes => (readNames lexemes).map fun (names, rest) => (some names, rest)

def token? : Lexeme → Option Token
  | .token t => some t
  | .sign _ => none

def keyword (w : String) : Lexeme := .token (.keyword w)

theorem scans_keyword (w : String) (nonempty : w.toList ≠ [])
    (alpha : w.toList.all Char.isAlpha = true) (upper : w.toList.map Char.toUpper = w.toList) :
    Scans w.toList [keyword w] := by
  have word := scans_word nonempty (List.all_eq_true.1 alpha)
  rwa [upper] at word

/-- What follows the columns. -/
def readFrom (columns : Option (List (List Char))) : List Lexeme → Option Select
  | source :: .token (.ident schema) :: .sign .dot :: .token (.ident table) :: filter :: rest =>
      if source = keyword "FROM" ∧ filter = keyword "WHERE" then
        ((rest.mapM token?).bind conditions).map fun conds => ⟨columns, schema, table, conds⟩
      else none
  | _ => none

def ofLexemes : List Lexeme → Option Select
  | first :: rest =>
      if first = keyword "SELECT" then
        (readColumns rest).bind fun (columns, rest) => readFrom columns rest
      else none
  | [] => none

def read (text : List Char) : Option Select := (scan text).bind ofLexemes

/-- The lexemes of a list of names. -/
def nameLexemes : List (List Char) → List Lexeme
  | [] => []
  | [name] => [.token (.ident name)]
  | name :: names => .token (.ident name) :: .sign .comma :: nameLexemes names

theorem scans_names {names : List (List Char)} (nonempty : names ≠ []) :
    Scans (", ".toList.intercalate (names.map quoteIdent)) (nameLexemes names) := by
  induction names with
  | nil => exact absurd rfl nonempty
  | cons name names ih =>
      cases names with
      | nil => simpa [nameLexemes] using scans_quoteIdent name
      | cons name' names =>
          have rest := (ih (by simp)).blank_cons
          have both := (scans_quoteIdent name).append_sign .comma rest
          simpa [nameLexemes, Sign.char, List.intercalate_cons_cons] using both

/-- A lexeme that is not a comma ends the names. -/
theorem readNames_nameLexemes {names : List (List Char)} (nonempty : names ≠ []) {l : Lexeme}
    (ends : l ≠ .sign .comma) (rest : List Lexeme) :
    readNames (nameLexemes names ++ l :: rest) = some (names, l :: rest) := by
  induction names with
  | nil => exact absurd rfl nonempty
  | cons name names ih =>
      cases names with
      | nil =>
          cases l with
          | token t => rfl
          | sign s => cases s <;> first | exact absurd rfl ends | rfl
      | cons name' names =>
          have later := ih (by simp)
          simp [nameLexemes, readNames, later]

def columnLexemes : Option (List (List Char)) → List Lexeme
  | none => [.sign .star]
  | some names => nameLexemes names

theorem scans_columnText {columns : Option (List (List Char))} (listed : columns ≠ some []) :
    Scans (columnText columns) (columnLexemes columns) := by
  cases columns with
  | none => exact scans_star
  | some names => exact scans_names fun empty => listed (congrArg some empty)

theorem readColumns_columnLexemes {columns : Option (List (List Char))}
    (listed : columns ≠ some []) {l : Lexeme} (ends : l ≠ .sign .comma) (rest : List Lexeme) :
    readColumns (columnLexemes columns ++ l :: rest) = some (columns, l :: rest) := by
  cases columns with
  | none => rfl
  | some names =>
      have nonempty : names ≠ [] := fun empty => listed (congrArg some empty)
      have plain : readColumns (nameLexemes names ++ l :: rest) =
          (readNames (nameLexemes names ++ l :: rest)).map fun (names, rest) =>
            (some names, rest) := by
        cases names with
        | nil => exact absurd rfl nonempty
        | cons name names => cases names <;> rfl
      rw [columnLexemes, plain, readNames_nameLexemes nonempty ends]
      rfl

theorem mapM_token? (tokens : List Token) :
    (tokens.map Lexeme.token).mapM token? = some tokens := by
  rw [List.mapM_map]
  have same : token? ∘ Lexeme.token = pure := rfl
  rw [same, List.mapM_pure, List.map_id']
  rfl

theorem scans_textWith {columns : Option (List (List Char))} (listed : columns ≠ some [])
    (schema table : List Char) {clause : List Char} {tokens : List Token}
    (lexed : lex clause = some tokens) :
    Scans (textWith columns schema table clause)
      (keyword "SELECT" :: columnLexemes columns ++ keyword "FROM" :: .token (.ident schema) ::
        .sign .dot :: .token (.ident table) :: keyword "WHERE" :: tokens.map .token) := by
  have select := scans_keyword "SELECT" (by decide) (by decide) (by decide)
  have source := scans_keyword "FROM" (by decide) (by decide) (by decide)
  have filter := scans_keyword "WHERE" (by decide) (by decide) (by decide)
  have name := (scans_quoteIdent schema).append_sign .dot (scans_quoteIdent table)
  have whole := ((((select.append (scans_columnText listed)).append source).append name).append
    filter).append (scans_of_lex lexed)
  have order : ∀ (s f w : Lexeme) (columns name rest : List Lexeme),
      [s] ++ columns ++ [f] ++ name ++ [w] ++ rest = s :: columns ++ f :: (name ++ w :: rest) := by
    simp
  rw [order] at whole
  exact whole

/-- **A generated statement is read back as what it was written from.** -/
theorem read_textWith {columns : Option (List (List Char))} (listed : columns ≠ some [])
    (schema table : List Char) {clause : List Char} {tokens : List Token} {conds : List Cond}
    (lexed : lex clause = some tokens) (meant : conditions tokens = some conds) :
    read (textWith columns schema table clause) = some ⟨columns, schema, table, conds⟩ := by
  have columnsRead := readColumns_columnLexemes listed (l := keyword "FROM") (by decide)
    (.token (.ident schema) :: .sign .dot :: .token (.ident table) :: keyword "WHERE" ::
      tokens.map .token)
  rw [read, (scans_textWith listed schema table lexed).scan_eq, Option.bind_some,
    List.cons_append, ofLexemes, if_pos rfl, columnsRead, Option.bind_some]
  dsimp only
  rw [readFrom, if_pos ⟨rfl, rfl⟩, mapM_token?, Option.bind_some, meant]
  rfl

end Select

end Tether.Lib.Sql
