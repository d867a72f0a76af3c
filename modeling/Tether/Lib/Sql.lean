/-
# Tether.Lib.Sql — a WHERE text: its tokens, its conditions and their truth

The part of SQL that a generated WHERE text uses: double-quoted identifiers with the
quote doubled inside, `$n` placeholders, `=`, `<>`, and the words `IS`, `NOT`, `NULL`
and `AND`.  The lexer is a machine that reads one character at a time, so it needs no
measure and runs on any text.

Truth is three-valued: a comparison with NULL on either side is UNKNOWN, and AND is
TRUE only when both sides are.

A text that is written token by token with blanks in between is read back token by
token (`Reads.append`).
-/
import Mathlib.Data.List.Infix

namespace Tether.Lib.Sql

set_option autoImplicit false

/-! ## Tokens -/

/-- `word` is in upper case: words outside quotes are read without regard to case. -/
inductive Token where
  | ident (name : List Char)
  | param (n : Nat)
  | eq
  | ne
  | word (letters : List Char)
  deriving DecidableEq

/-- What the lexer is in the middle of. -/
inductive Mode where
  | blank
  | quoted (read : List Char)
  /-- After a quote inside a quoted identifier: its end, or one half of a doubled quote. -/
  | closing (read : List Char)
  | dollar
  | number (n : Nat)
  | less
  | word (read : List Char)
  deriving DecidableEq

/-- The token that ends here. -/
def Mode.finish : Mode → Option (List Token)
  | .blank => some []
  | .closing read => some [.ident read]
  | .number n => some [.param n]
  | .word read => some [.word (read.map Char.toUpper)]
  | .quoted _ | .dollar | .less => none

/-- The first character of a token. -/
def Mode.start (c : Char) : Option (List Token × Mode) :=
  if c = ' ' then some ([], .blank)
  else if c = '"' then some ([], .quoted [])
  else if c = '$' then some ([], .dollar)
  else if c = '=' then some ([.eq], .blank)
  else if c = '<' then some ([], .less)
  else if c.isAlpha then some ([], .word [c])
  else none

def Mode.next (m : Mode) (c : Char) : Option (List Token × Mode) :=
  match m with
  | .quoted read => if c = '"' then some ([], .closing read) else some ([], .quoted (read ++ [c]))
  | .closing read => if c = '"' then some ([], .quoted (read ++ ['"'])) else other
  | .dollar => if c.isDigit then some ([], .number (c.toNat - 48)) else none
  | .number n => if c.isDigit then some ([], .number (10 * n + (c.toNat - 48))) else other
  | .less => if c = '>' then some ([.ne], .blank) else none
  | .word read => if c.isAlpha then some ([], .word (read ++ [c])) else other
  | .blank => other
where
  /-- The token before `c` ends and another one starts. -/
  other : Option (List Token × Mode) :=
    m.finish.bind fun ended => (Mode.start c).map fun (tokens, m') => (ended ++ tokens, m')

def lexFrom : Mode → List Char → Option (List Token)
  | m, [] => m.finish
  | m, c :: cs => (m.next c).bind fun (tokens, m') => (lexFrom m' cs).map (tokens ++ ·)

def lex : List Char → Option (List Token) := lexFrom .blank

/-! ## Conditions -/

inductive Comparison where
  | eq
  | ne
  deriving DecidableEq

inductive Cond where
  | compare (column : List Char) (op : Comparison) (n : Nat)
  | null (column : List Char) (negated : Bool)
  deriving DecidableEq

def Token.keyword (w : String) : Token := .word w.toList

def Cond.ofTokens : List Token → Option Cond
  | [.ident column, .eq, .param n] => some (.compare column .eq n)
  | [.ident column, .ne, .param n] => some (.compare column .ne n)
  | [.ident column, is, last] =>
      if is = .keyword "IS" ∧ last = .keyword "NULL" then some (.null column false) else none
  | [.ident column, is, not, last] =>
      if is = .keyword "IS" ∧ not = .keyword "NOT" ∧ last = .keyword "NULL" then
        some (.null column true)
      else none
  | _ => none

/-- Conditions joined by AND; both `=` and `IS` bind tighter. -/
def conditions (tokens : List Token) : Option (List Cond) :=
  (tokens.splitOn (.keyword "AND")).mapM Cond.ofTokens

/-! ## Truth -/

inductive Truth where
  | true
  | false
  | unknown
  deriving DecidableEq

namespace Truth

def not : Truth → Truth
  | true => false
  | false => true
  | unknown => unknown

def and : Truth → Truth → Truth
  | true, t | t, true => t
  | false, _ | _, false => false
  | unknown, unknown => unknown

theorem and_eq_true {s t : Truth} : s.and t = true ↔ s = true ∧ t = true := by
  cases s <;> cases t <;> decide

/-- The conjunction of a list; of an empty one it is TRUE. -/
def all (ts : List Truth) : Truth := ts.foldr and true

theorem all_eq_true {ts : List Truth} : all ts = true ↔ ∀ t ∈ ts, t = true := by
  induction ts with
  | nil => simp [all]
  | cons t ts ih => rw [all, List.foldr_cons, and_eq_true, List.forall_mem_cons, ← ih, all]

end Truth

section Evaluation

variable {V : Type} [DecidableEq V] (null : V)

/-- `v = w` in SQL. -/
def equals (v w : V) : Truth :=
  if v = null ∨ w = null then .unknown else if v = w then .true else .false

/-- `none` when a column or an argument is missing. -/
def Cond.eval (row : List Char → Option V) (args : List V) : Cond → Option Truth
  | .compare column op n =>
      match row column, if n = 0 then none else args[n - 1]? with
      | some v, some w =>
          match op with
          | .eq => some (equals null v w)
          | .ne => some (equals null v w).not
      | _, _ => none
  | .null column negated =>
      (row column).map fun v => if (v = null) ↔ negated = false then .true else .false

/-- The truth of a WHERE text on a row. -/
def evalWhere (text : List Char) (row : List Char → Option V) (args : List V) : Option Truth :=
  (lex text).bind fun tokens => (conditions tokens).bind fun cs =>
    (cs.mapM (Cond.eval null row args)).map Truth.all

end Evaluation

/-! ## Reading back what was written -/

/-- An identifier in double quotes. -/
def quoteIdent (name : List Char) : List Char :=
  '"' :: name.flatMap (fun c => if c = '"' then ['"', '"'] else [c]) ++ ['"']

def Cond.text : Cond → List Char
  | .compare column .eq n => quoteIdent column ++ " = $".toList ++ Nat.toDigits 10 n
  | .compare column .ne n => quoteIdent column ++ " <> $".toList ++ Nat.toDigits 10 n
  | .null column false => quoteIdent column ++ " IS NULL".toList
  | .null column true => quoteIdent column ++ " IS NOT NULL".toList

def Cond.tokens : Cond → List Token
  | .compare column .eq n => [.ident column, .eq, .param n]
  | .compare column .ne n => [.ident column, .ne, .param n]
  | .null column false => [.ident column, .keyword "IS", .keyword "NULL"]
  | .null column true => [.ident column, .keyword "IS", .keyword "NOT", .keyword "NULL"]

def whereText (cs : List Cond) : List Char := " AND ".toList.intercalate (cs.map Cond.text)

/-- The lexer reads `text` as `tokens` wherever a blank or the end follows it. -/
def Reads (text : List Char) (tokens : List Token) : Prop :=
  ∀ rest : List Char, (∀ c ∈ rest.head?, c = ' ') →
    lexFrom .blank (text ++ rest) = (lexFrom .blank rest).map (tokens ++ ·)

theorem lexFrom_blank (cs : List Char) : lexFrom .blank (' ' :: cs) = lexFrom .blank cs := by
  simp [lexFrom, Mode.next, Mode.next.other, Mode.finish, Mode.start]

theorem lexFrom_finish {m : Mode} {tokens : List Token} (ended : m.finish = some tokens)
    {rest : List Char} (boundary : ∀ c ∈ rest.head?, c = ' ') :
    lexFrom m rest = (lexFrom .blank rest).map (tokens ++ ·) := by
  cases rest with
  | nil =>
      rw [lexFrom, ended, lexFrom]
      simp [Mode.finish]
  | cons c cs =>
      obtain rfl : c = ' ' := boundary c rfl
      have next : m.next ' ' = some (tokens, .blank) := by
        cases m <;> simp_all [Mode.next, Mode.next.other, Mode.finish, Mode.start]
      rw [lexFrom_blank, lexFrom, next]
      rfl

theorem Reads.append {text text' : List Char} {tokens tokens' : List Token}
    (reads : Reads text tokens) (reads' : Reads text' tokens') :
    Reads (text ++ ' ' :: text') (tokens ++ tokens') := by
  intro rest boundary
  rw [List.append_assoc, reads _ (by simp), List.cons_append, lexFrom_blank, reads' rest boundary]
  simp [Option.map_map, Function.comp_def]

theorem reads_eq : Reads ['='] [.eq] := by
  intro rest _
  simp [lexFrom, Mode.next, Mode.next.other, Mode.finish, Mode.start]

theorem reads_ne : Reads ['<', '>'] [.ne] := by
  intro rest _
  simp [lexFrom, Mode.next, Mode.next.other, Mode.finish, Mode.start, Function.comp_def]

theorem reads_quoteIdent (name : List Char) : Reads (quoteIdent name) [.ident name] := by
  intro rest boundary
  -- what is inside the quotes is read character by character
  have inside : ∀ read : List Char,
      lexFrom (.quoted read)
          (name.flatMap (fun c => if c = '"' then ['"', '"'] else [c]) ++ '"' :: rest) =
        lexFrom (.closing (read ++ name)) rest := by
    induction name with
    | nil => simp [lexFrom, Mode.next]
    | cons c name ih =>
        intro read
        by_cases quote : c = '"'
        · simp [quote, lexFrom, Mode.next, ih, Function.comp_def]
        · simp [quote, lexFrom, Mode.next, ih]
  have opened : lexFrom .blank (quoteIdent name ++ rest) = lexFrom (.closing name) rest := by
    have quoted := inside []
    simp only [List.nil_append] at quoted
    rw [← quoted]
    simp [quoteIdent, lexFrom, Mode.next, Mode.next.other, Mode.finish, Mode.start]
  rw [opened]
  exact lexFrom_finish rfl boundary

theorem reads_param (n : Nat) : Reads ('$' :: Nat.toDigits 10 n) [.param n] := by
  intro rest boundary
  have digits : ∀ (ds : List Char) (k : Nat), (∀ d ∈ ds, d.isDigit) →
      lexFrom (.number k) (ds ++ rest) = lexFrom (.number (Nat.ofDigitChars 10 ds k)) rest := by
    intro ds
    induction ds with
    | nil => exact fun k _ => rfl
    | cons d ds ih =>
        intro k digit
        rw [Nat.ofDigitChars_cons, ← ih _ fun d' member => digit d' (List.mem_cons_of_mem _ member)]
        simp [lexFrom, Mode.next, digit d List.mem_cons_self]
  have allDigits : ∀ d ∈ Nat.toDigits 10 n, d.isDigit := fun d member =>
    Nat.isDigit_of_mem_toDigits (by decide) (by decide) member
  have value : Nat.ofDigitChars 10 (Nat.toDigits 10 n) 0 = n := Nat.ofDigitChars_ten_toDigits
  have nonempty : Nat.toDigits 10 n ≠ [] := Nat.toDigits_ne_nil
  have read : lexFrom .blank ('$' :: Nat.toDigits 10 n ++ rest) = lexFrom (.number n) rest := by
    generalize Nat.toDigits 10 n = ds at *
    cases ds with
    | nil => exact absurd rfl nonempty
    | cons d ds =>
        rw [Nat.ofDigitChars_cons] at value
        have later := digits ds (10 * 0 + (d.toNat - '0'.toNat)) fun d' member =>
          allDigits d' (List.mem_cons_of_mem _ member)
        rw [value] at later
        rw [← later]
        simp [lexFrom, Mode.next, Mode.next.other, Mode.finish, Mode.start, Function.comp_def,
          allDigits d List.mem_cons_self]
  rw [read]
  exact lexFrom_finish rfl boundary

theorem reads_word {w : List Char} (nonempty : w ≠ []) (alpha : ∀ c ∈ w, c.isAlpha) :
    Reads w [.word (w.map Char.toUpper)] := by
  intro rest boundary
  have letters : ∀ (cs read : List Char), (∀ c ∈ cs, c.isAlpha) →
      lexFrom (.word read) (cs ++ rest) = lexFrom (.word (read ++ cs)) rest := by
    intro cs
    induction cs with
    | nil => simp
    | cons c cs ih =>
        intro read alpha
        have later := ih (read ++ [c]) fun c' member => alpha c' (List.mem_cons_of_mem _ member)
        rw [List.append_assoc, List.singleton_append] at later
        rw [← later]
        simp [lexFrom, Mode.next, alpha c List.mem_cons_self]
  cases w with
  | nil => exact absurd rfl nonempty
  | cons c cs =>
      have starts : Mode.start c = some ([], .word [c]) := by
        have letter := alpha c List.mem_cons_self
        unfold Mode.start
        split_ifs with blank quote dollar equal less
        · exact absurd (blank ▸ letter) (by decide)
        · exact absurd (quote ▸ letter) (by decide)
        · exact absurd (dollar ▸ letter) (by decide)
        · exact absurd (equal ▸ letter) (by decide)
        · exact absurd (less ▸ letter) (by decide)
        · rfl
      have later := letters cs [c] fun c' member => alpha c' (List.mem_cons_of_mem _ member)
      have first : lexFrom .blank (c :: cs ++ rest) = lexFrom (.word ([c] ++ cs)) rest := by
        rw [← later]
        simp [lexFrom, Mode.next, Mode.next.other, Mode.finish, starts]
      rw [first]
      exact lexFrom_finish rfl boundary

theorem Cond.reads_text (c : Cond) : Reads c.text c.tokens := by
  have is : Reads "IS".toList [.keyword "IS"] := reads_word (by decide) (List.all_eq_true.1 rfl)
  have not : Reads "NOT".toList [.keyword "NOT"] := reads_word (by decide) (List.all_eq_true.1 rfl)
  have null : Reads "NULL".toList [.keyword "NULL"] :=
    reads_word (by decide) (List.all_eq_true.1 rfl)
  match c with
  | .compare column .eq n =>
      simpa [text, tokens] using (reads_quoteIdent column).append (reads_eq.append (reads_param n))
  | .compare column .ne n =>
      simpa [text, tokens] using (reads_quoteIdent column).append (reads_ne.append (reads_param n))
  | .null column false =>
      simpa [text, tokens] using (reads_quoteIdent column).append (is.append null)
  | .null column true =>
      simpa [text, tokens] using (reads_quoteIdent column).append (is.append (not.append null))

theorem reads_whereText {cs : List Cond} (nonempty : cs ≠ []) :
    Reads (whereText cs) ([Token.keyword "AND"].intercalate (cs.map Cond.tokens)) := by
  have and : Reads "AND".toList [.keyword "AND"] := reads_word (by decide) (List.all_eq_true.1 rfl)
  induction cs with
  | nil => exact absurd rfl nonempty
  | cons c cs ih =>
      cases cs with
      | nil => simpa [whereText] using c.reads_text
      | cons c' cs =>
          have rest := ih (by simp)
          simpa [whereText, List.intercalate_cons_cons] using c.reads_text.append (and.append rest)

theorem Cond.ofTokens_tokens (c : Cond) : ofTokens c.tokens = some c := by
  match c with
  | .compare column .eq n | .compare column .ne n => rfl
  | .null column false | .null column true => rfl

/-- **A written WHERE text is read back as the conditions it was written from.** -/
theorem conditions_whereText {cs : List Cond} (nonempty : cs ≠ []) :
    (lex (whereText cs)).bind conditions = some cs := by
  have tokens := reads_whereText nonempty [] (by simp)
  rw [List.append_nil] at tokens
  have noAnd : ∀ ts ∈ cs.map Cond.tokens, Token.keyword "AND" ∉ ts := by
    intro ts member
    obtain ⟨c, -, rfl⟩ := List.mem_map.1 member
    match c with
    | .compare column .eq n | .compare column .ne n => simp [Cond.tokens, Token.keyword]
    | .null column false | .null column true => simp [Cond.tokens, Token.keyword]
  rw [lex, tokens]
  simp only [lexFrom, Mode.finish, Option.map_some, Option.bind_some, List.append_nil]
  rw [conditions, List.splitOn_intercalate _ noAnd (by simpa using nonempty), List.mapM_map]
  have each : Cond.ofTokens ∘ Cond.tokens = pure := funext Cond.ofTokens_tokens
  rw [each, List.mapM_pure, List.map_id']
  rfl

end Tether.Lib.Sql
