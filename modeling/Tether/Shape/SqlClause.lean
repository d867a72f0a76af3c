/-
# Tether.Shape.SqlClause — one filter, evaluated by Postgres and by Go

A snapshot is what Postgres finds with the WHERE text of `SQLClause`; the live path
asks `Filter.Match`.  The text is read back by the lexer of `Tether.Lib.Sql` as the
conditions of the filter (`read_sqlClause`), so both evaluators look at the same
predicates, one by one; the values are in no part of it (`sqlClause_faithful`).

They agree except at NULL: SQL knows no truth for a comparison with NULL, where `!=`
with one NULL and `=` with two of them match in Go.  `match_iff_sql_iff` says that this
is the only difference, and when it shows.
-/
import Tether.Lib.Sql
import Tether.Shape.ParseWhere

namespace Tether.Shape

open Tether.Lib Tether.Wal

set_option autoImplicit false

def quoteIdent (ident : String) : List Char := Sql.quoteIdent ident.toList

/-- The loop of `SQLClause` from placeholder `argN` on: the parts of the text and the
arguments. -/
def sqlParts (u : Unicode) :
    Nat → List Predicate → Except WhereError (List (List Char) × List Value)
  | _, [] => .ok ([], [])
  | argN, p :: ps =>
      match validateIdent u p.column.toList with
      | .error e => .error e
      | .ok () =>
          let col := quoteIdent p.column
          match p.op with
          | .eq =>
              (sqlParts u (argN + 1) ps).map fun (parts, args) =>
                ((col ++ " = $".toList ++ Nat.toDigits 10 argN) :: parts, p.value :: args)
          | .ne =>
              (sqlParts u (argN + 1) ps).map fun (parts, args) =>
                ((col ++ " <> $".toList ++ Nat.toDigits 10 argN) :: parts, p.value :: args)
          | .isNull =>
              (sqlParts u argN ps).map fun (parts, args) =>
                ((col ++ " IS NULL".toList) :: parts, args)
          | .isNotNull =>
              (sqlParts u argN ps).map fun (parts, args) =>
                ((col ++ " IS NOT NULL".toList) :: parts, args)

def sqlClause (u : Unicode) (f : Filter) : Except WhereError (List Char × List Value) :=
  if f.preds = [] then .error .emptyFilter
  else (sqlParts u 1 f.preds).map fun (parts, args) => (" AND ".toList.intercalate parts, args)

/-! ## The conditions of a filter -/

def PredOp.compares : PredOp → Bool
  | .eq | .ne => true
  | .isNull | .isNotNull => false

/-- The conditions of `preds`, with placeholders from `$argN` on. -/
def sqlConds : Nat → List Predicate → List Sql.Cond
  | _, [] => []
  | argN, p :: ps =>
      match p.op with
      | .eq => .compare p.column.toList .eq argN :: sqlConds (argN + 1) ps
      | .ne => .compare p.column.toList .ne argN :: sqlConds (argN + 1) ps
      | .isNull => .null p.column.toList false :: sqlConds argN ps
      | .isNotNull => .null p.column.toList true :: sqlConds argN ps

/-- The arguments of the comparisons, in order. -/
def comparands (preds : List Predicate) : List Value :=
  (preds.filter fun p => p.op.compares).map Predicate.value

theorem comparands_compare {p : Predicate} (compares : p.op.compares = true)
    (ps : List Predicate) : comparands (p :: ps) = p.value :: comparands ps := by
  simp [comparands, compares]

theorem comparands_null {p : Predicate} (tests : p.op.compares = false) (ps : List Predicate) :
    comparands (p :: ps) = comparands ps := by
  simp [comparands, tests]

theorem sqlParts_eq {u : Unicode} (argN : Nat) {preds : List Predicate}
    (valid : ∀ p ∈ preds, validateIdent u p.column.toList = .ok ()) :
    sqlParts u argN preds = .ok ((sqlConds argN preds).map Sql.Cond.text, comparands preds) := by
  induction preds generalizing argN with
  | nil => rfl
  | cons p ps ih =>
      have later := fun n => ih n fun q member => valid q (List.mem_cons_of_mem _ member)
      simp only [sqlParts, valid p List.mem_cons_self]
      cases op : p.op <;>
        simp [sqlConds, comparands, op, later, Except.map, quoteIdent, Sql.Cond.text,
          PredOp.compares]

/-- **What `SQLClause` writes reads back as the filter.** -/
theorem read_sqlClause {u : Unicode} {f : Filter} (nonempty : f.preds ≠ [])
    (valid : ∀ p ∈ f.preds, validateIdent u p.column.toList = .ok ()) :
    ∃ text, sqlClause u f = .ok (text, comparands f.preds) ∧
      (Sql.lex text).bind Sql.conditions = some (sqlConds 1 f.preds) := by
  refine ⟨Sql.whereText (sqlConds 1 f.preds), ?_, Sql.conditions_whereText ?_⟩
  · rw [sqlClause, if_neg nonempty, sqlParts_eq 1 valid]
    rfl
  · obtain ⟨preds⟩ := f
    cases preds with
    | nil => exact absurd rfl nonempty
    | cons p ps => cases op : p.op <;> simp [sqlConds, op]

/-! ## What the rendered text says -/

section Rendered

variable {u : Unicode}

theorem compares_of_mem_nullTests {suffix : GoString} {op : PredOp}
    (kind : (suffix, op) ∈ nullTests) : op.compares = false := by
  simp only [nullTests, List.mem_cons, Prod.mk.injEq, List.not_mem_nil, or_false] at kind
  rcases kind with ⟨-, rfl⟩ | ⟨-, rfl⟩ <;> rfl

theorem compares_of_mem_comparisons {sep : GoString} {op : PredOp}
    (kind : (sep, op) ∈ comparisons) : op.compares = true := by
  simp only [comparisons, List.mem_cons, Prod.mk.injEq, List.not_mem_nil, or_false] at kind
  rcases kind with ⟨-, rfl⟩ | ⟨-, rfl⟩ | ⟨-, rfl⟩ <;> rfl

/-- A parsed comparison took the next argument, a null test took none. -/
theorem ParsedPart.args_eq {part : GoString} {args rest : List Value} {p : Predicate}
    (parsed : ParsedPart u part args p rest) (ps : List Predicate) {left : List Value}
    (later : rest = comparands ps ++ left) : args = comparands (p :: ps) ++ left := by
  cases parsed with
  | nullTest kind _ _ _ =>
      rw [comparands_null (compares_of_mem_nullTests kind)]
      exact later
  | comparison kind _ _ _ given =>
      rw [comparands_compare (compares_of_mem_comparisons kind), given, later]
      rfl

theorem ParsedParts.args_eq {parts : List GoString} {args rest : List Value}
    {ps : List Predicate} (parsed : ParsedParts u parts args ps rest) :
    args = comparands ps ++ rest := by
  induction parsed with
  | nil => rfl
  | cons first _ ih => exact first.args_eq _ ih

/-- The values of a parsed filter's comparisons are the arguments, in order. -/
theorem parseWhere_comparands {clause : GoString} {args : List Value} {f : Filter}
    (parsed : parseWhere u clause args = .ok f) : comparands f.preds = args := by
  obtain ⟨parts, -, all⟩ := parseWhere_parts parsed
  have taken := all.args_eq
  rw [List.append_nil] at taken
  exact taken.symm

/-- The predicate a condition was rendered from, without its value. -/
def condShape : Sql.Cond → String × PredOp
  | .compare column .eq _ => (String.ofList column, .eq)
  | .compare column .ne _ => (String.ofList column, .ne)
  | .null column false => (String.ofList column, .isNull)
  | .null column true => (String.ofList column, .isNotNull)

def placeholder : Sql.Cond → Option Nat
  | .compare _ _ n => some n
  | .null _ _ => none

theorem map_condShape_sqlConds (argN : Nat) (preds : List Predicate) :
    (sqlConds argN preds).map condShape = preds.map fun p => (p.column, p.op) := by
  induction preds generalizing argN with
  | nil => rfl
  | cons p ps ih =>
      cases op : p.op <;> simp [sqlConds, op, condShape, ih]

theorem placeholders_sqlConds (argN : Nat) (preds : List Predicate) :
    (sqlConds argN preds).filterMap placeholder =
      List.range' argN (comparands preds).length := by
  induction preds generalizing argN with
  | nil => rfl
  | cons p ps ih =>
      cases op : p.op with
      | eq | ne =>
          rw [comparands_compare (by rw [op]; rfl)]
          simp [sqlConds, op, placeholder, ih, List.range'_succ]
      | isNull | isNotNull =>
          rw [comparands_null (by rw [op]; rfl), ← ih argN]
          simp only [sqlConds, op]
          exact List.filterMap_cons_none rfl

/-- The conditions do not depend on the values. -/
theorem sqlConds_congr {preds preds' : List Predicate}
    (same : preds'.map (fun p => (p.column, p.op)) = preds.map fun p => (p.column, p.op))
    (argN : Nat) : sqlConds argN preds' = sqlConds argN preds := by
  induction preds generalizing argN preds' with
  | nil =>
      rw [List.map_eq_nil_iff.1 same]
  | cons p ps ih =>
      cases preds' with
      | nil => cases same
      | cons p' ps' =>
          obtain ⟨first, rest⟩ := List.cons.inj same
          obtain ⟨column, op⟩ := Prod.mk.inj first
          cases kind : p.op <;>
            simp only [sqlConds, op.trans kind, kind, column, ih rest]

/-- **`SQLClause` renders a parsed filter faithfully.**  The text reads back as the
columns and operators in order, the placeholders are `$1`, `$2`, …, the arguments are
those of the comparisons, and no value has a part in the text. -/
theorem sqlClause_faithful (u : Unicode) (clause : GoString) (args : List Value) (f : Filter)
    (parsed : parseWhere u clause args = .ok f) :
    ∃ text conds, sqlClause u f = .ok (text, comparands f.preds) ∧
      (Sql.lex text).bind Sql.conditions = some conds ∧
      conds.map condShape = (f.preds.map fun p => (p.column, p.op)) ∧
      conds.filterMap placeholder = List.range' 1 (comparands f.preds).length ∧
      comparands f.preds = args ∧
      ∀ f' : Filter, (f'.preds.map fun p => (p.column, p.op)) =
          (f.preds.map fun p => (p.column, p.op)) →
        sqlClause u f' = .ok (text, comparands f'.preds) := by
  obtain ⟨nonempty, valid⟩ := parseWhere_ok parsed
  obtain ⟨text, rendered, read⟩ := read_sqlClause nonempty valid
  refine ⟨text, _, rendered, read, map_condShape_sqlConds 1 _, placeholders_sqlConds 1 _,
    parseWhere_comparands parsed, fun f' same => ?_⟩
  have nonempty' : f'.preds ≠ [] := by
    intro empty
    rw [empty] at same
    exact nonempty (List.map_eq_nil_iff.1 same.symm)
  have valid' : ∀ p ∈ f'.preds, validateIdent u p.column.toList = .ok () := by
    intro p member
    have shape : (p.column, p.op) ∈ f.preds.map fun p => (p.column, p.op) :=
      same ▸ List.mem_map_of_mem member
    obtain ⟨q, here, alike⟩ := List.mem_map.1 shape
    rw [← (Prod.mk.inj alike).1]
    exact valid q here
  have conds := sqlConds_congr same 1
  rw [sqlClause, if_neg nonempty, sqlParts_eq 1 valid] at rendered
  rw [sqlClause, if_neg nonempty', sqlParts_eq 1 valid', conds]
  exact congrArg (fun r : Except WhereError (List Char × List Value) =>
    r.map fun (text, _) => (text, comparands f'.preds)) rendered

end Rendered

namespace Tickets

/-- `state != ? AND note IS NULL AND owner = ?` -/
def unfinished (state owner : Value) : Filter :=
  ⟨[⟨"state", .ne, state⟩, ⟨"note", .isNull, .null⟩, ⟨"owner", .eq, owner⟩]⟩

theorem sqlClause_faithful_unfinished :
    ∃ text, sqlClause .ascii (unfinished (.string "done") (.int64 7)) =
        .ok (text, [.string "done", .int64 7]) ∧
      ∀ state owner, sqlClause .ascii (unfinished state owner) = .ok (text, [state, owner]) := by
  have parsed : parseWhere .ascii (.ofString "state != ? AND note IS NULL AND owner = ?")
      [.string "done", .int64 7] = .ok (unfinished (.string "done") (.int64 7)) := by
    decide +kernel
  obtain ⟨text, _, rendered, -, -, -, -, others⟩ := sqlClause_faithful .ascii _ _ _ parsed
  exact ⟨text, rendered, fun state owner => others (unfinished state owner) rfl⟩

end Tickets

/-! ## The two evaluators -/

/-- The columns of a row, as the text names them. -/
def Row.column (row : Row) (name : List Char) : Option Value := row.lookup (String.ofList name)

theorem Row.column_toList (row : Row) (name : String) :
    Row.column row name.toList = row.lookup name :=
  congrArg (fun name => (row.lookup name : Option Value)) String.ofList_toList

/-- What SQL makes of one predicate; `none` when the row lacks the column. -/
def Predicate.truth (row : Row) (p : Predicate) : Option Sql.Truth :=
  (row.lookup p.column).map fun v =>
    match p.op with
    | .eq => Sql.equals .null v p.value
    | .ne => (Sql.equals .null v p.value).not
    | .isNull => if v = .null then .true else .false
    | .isNotNull => if v = .null then .false else .true

theorem mapM_eval_sqlConds (row : Row) (before : List Value) (preds : List Predicate) :
    (sqlConds (before.length + 1) preds).mapM
        (Sql.Cond.eval .null (Row.column row) (before ++ comparands preds)) =
      preds.mapM (Predicate.truth row) := by
  induction preds generalizing before with
  | nil => rfl
  | cons p ps ih =>
      have compared : p.op.compares →
          (sqlConds (before.length + 2) ps).mapM (Sql.Cond.eval .null (Row.column row)
            (before ++ p.value :: comparands ps)) = ps.mapM (Predicate.truth row) := fun _ => by
        have later := ih (before ++ [p.value])
        rwa [List.length_append, List.append_assoc] at later
      cases op : p.op with
      | eq | ne =>
          have values := comparands_compare (p := p) (by rw [op]; rfl) ps
          simp only [sqlConds, op, values, List.mapM_cons, compared (by rw [op]; rfl)]
          cases found : row.lookup p.column <;>
            simp [Sql.Cond.eval, Row.column_toList, Predicate.truth, op, found]
      | isNull | isNotNull =>
          have values := comparands_null (p := p) (by rw [op]; rfl) ps
          simp only [sqlConds, op, values, List.mapM_cons, ih before]
          cases found : row.lookup p.column <;>
            simp [Sql.Cond.eval, Row.column_toList, Predicate.truth, op, found]

/-- Two values of one type, text or `int64`, or a NULL among them. -/
def sameType : Value → Value → Bool
  | .null, _ | _, .null | .string _, .string _ | .int64 _, .int64 _ => true
  | _, _ => false

theorem valuesEqual_eq_decide {v w : Value} (same : sameType v w) (left : v ≠ .null)
    (right : w ≠ .null) : valuesEqual v w = decide (v = w) := by
  cases v with
  | null => exact absurd rfl left
  | int64 a =>
      cases w with
      | null => exact absurd rfl right
      | int64 b => simp [valuesEqual, numEqual, Bool.beq_eq_decide_eq]
      | _ => cases same
  | string a =>
      cases w with
      | null => exact absurd rfl right
      | string b => simp [valuesEqual, sprint, Bool.beq_eq_decide_eq, eq_comm]
      | _ => cases same
  | _ =>
      cases w with
      | null => exact absurd rfl right
      | _ => cases same

/-- Every column of the filter is in the row, and values are compared with values of
their own type. -/
def Complete (f : Filter) (row : Row) : Prop :=
  ∀ p ∈ f.preds, ∃ v, row.lookup p.column = some v ∧ (p.op.compares → sameType v p.value)

/-- No comparison of the filter meets a NULL, in the row or as its argument. -/
def ComparesNoNull (f : Filter) (row : Row) : Prop :=
  ∀ p ∈ f.preds, p.op.compares → row.lookup p.column ≠ some .null ∧ p.value ≠ .null

/-- What SQL accepts Go accepts; what Go accepts SQL accepts unless it compares a NULL. -/
theorem Predicate.truth_eq {row : Row} {p : Predicate} {v : Value}
    (found : row.lookup p.column = some v) (same : p.op.compares → sameType v p.value) :
    ∃ t, p.truth row = some t ∧ (t = .true → p.match row) ∧
      (p.match row → (t = .true ↔ (p.op.compares → v ≠ .null ∧ p.value ≠ .null))) := by
  refine ⟨_, by rw [Predicate.truth, found]; rfl, ?_⟩
  rw [Predicate.match_of_lookup found, Predicate.accepts]
  have unknown : v = .null ∨ p.value = .null → Sql.equals .null v p.value = .unknown :=
    fun null => if_pos null
  have known : ¬ (v = .null ∨ p.value = .null) →
      Sql.equals .null v p.value = if v = p.value then .true else .false :=
    fun noNull => if_neg noNull
  cases op : p.op with
  | isNull | isNotNull => by_cases null : v = .null <;> simp [null, PredOp.compares]
  | eq | ne =>
      by_cases null : v = .null ∨ p.value = .null
      · have notBoth : ¬ (v ≠ .null ∧ p.value ≠ .null) := by tauto
        simp [unknown null, notBoth, PredOp.compares, Sql.Truth.not]
      · obtain ⟨left, right⟩ := not_or.1 null
        have equal : valuesEqual v p.value = decide (v = p.value) :=
          valuesEqual_eq_decide (same (by rw [op]; rfl)) left right
        simp only [known null, equal]
        by_cases here : v = p.value <;> simp [here, left, right, Sql.Truth.not]

/-- Postgres and Go decide a filter predicate by predicate. -/
theorem Filter.truth_eq {f : Filter} {row : Row} (complete : Complete f row) :
    ∃ ts, f.preds.mapM (Predicate.truth row) = some ts ∧
      (Sql.Truth.all ts = .true → f.match (some row)) ∧
      (f.match (some row) → (Sql.Truth.all ts = .true ↔ ComparesNoNull f row)) := by
  obtain ⟨preds⟩ := f
  induction preds with
  | nil => exact ⟨[], rfl, fun _ => rfl, fun _ => iff_of_true rfl fun p absent => nomatch absent⟩
  | cons p ps ih =>
      obtain ⟨v, found, same⟩ := complete p List.mem_cons_self
      obtain ⟨t, truth, sound, exactly⟩ := Predicate.truth_eq found same
      obtain ⟨ts, rest, soundRest, exactlyRest⟩ :=
        ih fun q member => complete q (List.mem_cons_of_mem _ member)
      have noNull : ComparesNoNull ⟨p :: ps⟩ row ↔
          (p.op.compares → v ≠ .null ∧ p.value ≠ .null) ∧ ComparesNoNull ⟨ps⟩ row := by
        rw [ComparesNoNull, List.forall_mem_cons, found]
        simp [ComparesNoNull]
      have first : Filter.match ⟨p :: ps⟩ (some row) = true ↔
          p.match row = true ∧ Filter.match ⟨ps⟩ (some row) = true := by
        simp [Filter.match]
      have all : Sql.Truth.all (t :: ts) = .true ↔ t = .true ∧ Sql.Truth.all ts = .true :=
        Sql.Truth.and_eq_true
      refine ⟨t :: ts, by simp [List.mapM_cons, truth, rest], ?_, ?_⟩
      · intro holds
        exact first.2 ⟨sound (all.1 holds).1, soundRest (all.1 holds).2⟩
      · intro holds
        rw [all, noNull, exactly (first.1 holds).1, exactlyRest (first.1 holds).2]

/-- **The two evaluators of a parsed filter.**  A row that Postgres finds is a row
that `Match` accepts; the converse holds for a row exactly when `Match` rejects it or
no comparison of the filter meets a NULL. -/
theorem match_iff_sql_iff (u : Unicode) (clause : GoString) (args : List Value) (f : Filter)
    (parsed : parseWhere u clause args = .ok f) (row : Row) (complete : Complete f row) :
    ∃ text sqlArgs truth, sqlClause u f = .ok (text, sqlArgs) ∧
      Sql.evalWhere .null text (Row.column row) sqlArgs = some truth ∧
      (truth = .true → f.match (some row)) ∧
      ((f.match (some row) ↔ truth = .true) ↔ (f.match (some row) → ComparesNoNull f row)) := by
  obtain ⟨nonempty, valid⟩ := parseWhere_ok parsed
  obtain ⟨text, clause, read⟩ := read_sqlClause nonempty valid
  obtain ⟨ts, truths, sound, exactly⟩ := Filter.truth_eq complete
  have evaluated : Sql.evalWhere .null text (Row.column row) (comparands f.preds) =
      some (Sql.Truth.all ts) := by
    have conds := mapM_eval_sqlConds row [] f.preds
    simp only [List.length_nil, Nat.zero_add, List.nil_append, truths] at conds
    rw [Sql.evalWhere, ← Option.bind_assoc, read, Option.bind_some, conds]
    rfl
  refine ⟨text, _, _, clause, evaluated, sound, ?_⟩
  constructor
  · intro agree holds
    exact (exactly holds).1 (agree.1 holds)
  · intro noNull
    exact ⟨fun holds => (exactly holds).2 (noNull holds), sound⟩

namespace Owners

def row (owner note : Value) : Row := KeyMap.ofList [("owner", owner), ("note", note)]

/-- `owner = ? AND note IS NULL` -/
def mine : Filter := ⟨[⟨"owner", .eq, .string "bob"⟩, ⟨"note", .isNull, .null⟩]⟩

theorem match_iff_sql_mine :
    ∃ text sqlArgs, sqlClause .ascii mine = .ok (text, sqlArgs) ∧
      Sql.evalWhere .null text (Row.column (row (.string "bob") .null)) sqlArgs = some .true ∧
      mine.match (some (row (.string "bob") .null)) := by
  have parsed : parseWhere .ascii (.ofString "owner = ? AND note is null") [.string "bob"] =
      .ok mine := by
    decide +kernel
  have complete : Complete mine (row (.string "bob") .null) := by
    intro p member
    simp only [mine, List.mem_cons, List.not_mem_nil, or_false] at member
    rcases member with rfl | rfl
    · exact ⟨.string "bob", by decide, by decide⟩
    · exact ⟨.null, by decide, by decide⟩
  have noNull : ComparesNoNull mine (row (.string "bob") .null) := by
    intro p member
    simp only [mine, List.mem_cons, List.not_mem_nil, or_false] at member
    rcases member with rfl | rfl <;> decide
  have matched : mine.match (some (row (.string "bob") .null)) := by decide
  obtain ⟨text, sqlArgs, truth, clause, evaluated, -, agree⟩ :=
    match_iff_sql_iff .ascii _ _ mine parsed _ complete
  rw [(agree.2 fun _ => noNull).1 matched] at evaluated
  exact ⟨text, sqlArgs, clause, evaluated, matched⟩

/-- `owner != ?` -/
def others : Filter := ⟨[⟨"owner", .ne, .string "bob"⟩]⟩

/-- A row without an owner is in the live stream of `owner != 'bob'`, and in no
snapshot of it. -/
theorem match_others_not_sql :
    parseWhere .ascii (.ofString "owner != ?") [.string "bob"] = .ok others ∧
      Complete others (row .null .null) ∧ others.match (some (row .null .null)) ∧
      ∃ text sqlArgs, sqlClause .ascii others = .ok (text, sqlArgs) ∧
        Sql.evalWhere .null text (Row.column (row .null .null)) sqlArgs = some .unknown := by
  refine ⟨by decide +kernel, ?_, by decide, "\"owner\" <> $1".toList, [.string "bob"],
    by decide +kernel, by decide +kernel⟩
  intro p member
  cases List.mem_singleton.1 member
  exact ⟨.null, by decide, by decide⟩

end Owners

end Tether.Shape
