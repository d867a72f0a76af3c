/-
# Tether.Snapshot.Query — the rows that `Take` reads

`Take` checks the names of its request, writes a SELECT with the WHERE text of the filter and
collects the rows.  All that Postgres sees is that text.  Whatever the request, the text is
read as a SELECT of these columns from this table under the conditions of this filter
(`statement_faithful`): no name and no value can make it something else.

On a database the rows are then the rows of that table that the filter accepts, but for those
where a comparison meets a NULL, and loading them into the shape's instance gives a cache that
mirrors the table (`snapshot_mirrors`).  At which position they are the table's rows is the
subject of `Tether.Snapshot.Take`.
-/
import Tether.Lib.Lists
import Tether.Lib.SqlSelect
import Tether.Shape.Refinement
import Tether.Shape.SqlClause
import Tether.Wal.RoundTrip

namespace Tether.Snapshot.Query

open Lib Wal Shape

set_option autoImplicit false

/-- Without columns, all of them. -/
structure Request where
  schema : String
  table : String
  columns : List String := []
  filter : Filter

structure Result where
  lsn : LSN
  rows : List Row

inductive IdentError where
  | empty
  | invalid (name : String)
  deriving DecidableEq

def IdentError.text : IdentError → String
  | .empty => "snapshot: empty identifier"
  | .invalid name => "snapshot: invalid identifier " ++ quote name

def validateIdent (name : String) : Except IdentError Unit :=
  if name = "" then .error .empty
  else if name.toList.zipIdx.all fun (r, i) =>
      ('a' ≤ r && r ≤ 'z') || ('A' ≤ r && r ≤ 'Z') || r == '_' ||
        (decide (0 < i) && '0' ≤ r && r ≤ '9') then .ok ()
  else .error (.invalid name)

inductive TakeError (ε : Type) where
  | nilPool
  | tableRequired
  | ident (err : IdentError)
  | filter (err : WhereError)
  | begin (err : ε)
  | readLSN (err : ε)
  | parseLSN (text : String)
  | query (err : ε)
  | values (err : ε)
  | rows (err : ε)
  | commit (err : ε)

/-- `unparsed` is the error of `pglogrepl.ParseLSN`. -/
def TakeError.text {ε : Type} (error : ε → String) (unparsed : String → String) :
    TakeError ε → String
  | .nilPool => "snapshot: pool is nil"
  | .tableRequired => "snapshot: table is required"
  | .ident err => err.text
  | .filter err => "snapshot: filter: " ++ err.text
  | .begin err => "snapshot: begin: " ++ error err
  | .readLSN err => "snapshot: read lsn: " ++ error err
  | .parseLSN text => "snapshot: parse lsn " ++ quote text ++ ": " ++ unparsed text
  | .query err => "snapshot: query: " ++ error err
  | .values err => "snapshot: values: " ++ error err
  | .rows err => "snapshot: rows: " ++ error err
  | .commit err => "snapshot: commit: " ++ error err

/-- Why the rows of a query ended before the last one. -/
inductive Stop (ε : Type) where
  | values (err : ε)
  | rows (err : ε)

structure Answer (ε : Type) where
  records : List (List (String × Value))
  stop : Option (Stop ε) := none

/-- What `Take` asks of its transaction, which sees one snapshot of the database. -/
structure Pool (ε : Type) where
  begin : Except ε Unit
  currentLSN : Except ε String
  query : List Char → List Value → Except ε (Answer ε)
  commit : Except ε Unit

variable {ε : Type}

def Request.schemaName (req : Request) : String := if req.schema = "" then "public" else req.schema

/-- The columns of the SELECT, `none` for `*`. -/
def selected : List String → Except IdentError (Option (List (List Char)))
  | [] => .ok none
  | columns =>
      (columns.mapM fun c => (validateIdent c).map fun _ => c.toList).map some

/-- The text and the arguments that `Take` queries with. -/
def statement (u : Unicode) (req : Request) : Except (TakeError ε) (List Char × List Value) :=
  if req.table = "" then .error .tableRequired
  else
    match validateIdent req.schemaName, validateIdent req.table, sqlClause u req.filter,
      selected req.columns with
    | .error err, _, _, _ => .error (.ident err)
    | _, .error err, _, _ => .error (.ident err)
    | _, _, .error err, _ => .error (.filter err)
    | _, _, _, .error err => .error (.ident err)
    | .ok _, .ok _, .ok (clause, args), .ok columns =>
        .ok (Sql.Select.textWith columns req.schemaName.toList req.table.toList clause, args)

/-- The map that the loop over the fields fills: a later field of the same name wins. -/
def rowOf (fields : List (String × Value)) : Row :=
  fields.foldl (fun row field => row.insert field.1 field.2) ∅

def take [LSNText] (u : Unicode) (pool : Option (Pool ε)) (req : Request) :
    Except (TakeError ε) Result :=
  match pool with
  | none => .error .nilPool
  | some pool => do
      let (text, args) ← statement u req
      pool.begin.mapError .begin
      let lsnText ← pool.currentLSN.mapError .readLSN
      match LSNText.parse lsnText.toList with
      | none => .error (.parseLSN lsnText)
      | some lsn =>
          let answer ← (pool.query text args).mapError .query
          match answer.stop with
          | some (.values err) => .error (.values err)
          | some (.rows err) => .error (.rows err)
          | none =>
              pool.commit.mapError .commit
              .ok ⟨lsn, answer.records.map rowOf⟩

/-! ## The statement -/

variable {u : Unicode}

theorem valid_of_sqlParts {argN : Nat} {preds : List Predicate}
    {rendered : List (List Char) × List Value} (ok : sqlParts u argN preds = .ok rendered) :
    ∀ p ∈ preds, Shape.validateIdent u p.column.toList = .ok () := by
  induction preds generalizing argN rendered with
  | nil => exact fun p absent => by cases absent
  | cons p ps ih =>
      rw [sqlParts] at ok
      cases valid : Shape.validateIdent u p.column.toList with
      | error err =>
          rw [valid] at ok
          cases ok
      | ok =>
          rw [valid] at ok
          refine List.forall_mem_cons.2 ⟨valid, ?_⟩
          cases op : p.op
          all_goals
            simp only [op] at ok
            obtain ⟨rest, written, -⟩ := map_eq_ok_iff.1 ok
            exact ih written

/-- The WHERE text of a filter, as Postgres reads it. -/
theorem sqlClause_reads {f : Filter} {clause : List Char} {args : List Value}
    (ok : sqlClause u f = .ok (clause, args)) :
    args = comparands f.preds ∧
      ∃ tokens, Sql.lex clause = some tokens ∧
        Sql.conditions tokens = some (sqlConds 1 f.preds) := by
  rw [sqlClause] at ok
  split at ok
  · cases ok
  · next nonempty =>
      have valid : ∀ p ∈ f.preds, Shape.validateIdent u p.column.toList = .ok () := by
        obtain ⟨rendered, written, -⟩ := map_eq_ok_iff.1 ok
        exact valid_of_sqlParts written
      obtain ⟨text, written, read⟩ := read_sqlClause nonempty valid
      rw [sqlClause, if_neg nonempty, ok] at written
      cases written
      exact ⟨rfl, Option.bind_eq_some_iff.1 read⟩

/-- What `columns` stands for in a SELECT. -/
def names : List String → Option (List (List Char))
  | [] => none
  | columns => some (columns.map String.toList)

theorem selected_eq {columns : List String} {given : Option (List (List Char))}
    (ok : selected columns = .ok given) : given = names columns := by
  cases columns with
  | nil =>
      cases ok
      rfl
  | cons c cs =>
      rw [selected] at ok
      · obtain ⟨listed, written, rfl⟩ := map_eq_ok_iff.1 ok
        have same : List.Forall₂ (fun c name => name = String.toList c) (c :: cs) listed :=
          (mapM_eq_ok_iff.1 written).imp fun c name valid => by
            obtain ⟨-, -, same⟩ := map_eq_ok_iff.1 valid
            exact same.symm
        have all : List.Forall₂ Eq listed ((c :: cs).map String.toList) :=
          List.forall₂_map_right_iff.2 same.flip
        rw [List.forall₂_eq_eq_eq] at all
        rw [all]
        rfl
      · simp

theorem names_ne (columns : List String) : names columns ≠ some [] := by
  cases columns with
  | nil => simp [names]
  | cons c cs => simp [names]

/-- The SELECT that a request asks for. -/
def Request.select (req : Request) : Sql.Select :=
  ⟨names req.columns, req.schemaName.toList, req.table.toList, sqlConds 1 req.filter.preds⟩

theorem statement_ok {req : Request} {text : List Char} {args : List Value}
    (sent : statement (ε := ε) u req = .ok (text, args)) :
    req.table ≠ "" ∧ ∃ clause, sqlClause u req.filter = .ok (clause, args) ∧
      text = Sql.Select.textWith (names req.columns) req.schemaName.toList req.table.toList
        clause := by
  rw [statement] at sent
  split at sent
  · cases sent
  · next table =>
      refine ⟨table, ?_⟩
      split at sent
      case h_5 clause args' columns _ _ written listed =>
        cases sent
        exact ⟨clause, written, by rw [selected_eq listed]⟩
      all_goals cases sent

theorem statement_reads {req : Request} {text : List Char} {args : List Value}
    (sent : statement (ε := ε) u req = .ok (text, args)) :
    Sql.Select.read text = some req.select ∧ args = comparands req.filter.preds := by
  obtain ⟨-, clause, written, rfl⟩ := statement_ok sent
  obtain ⟨same, tokens, lexed, meant⟩ := sqlClause_reads written
  exact ⟨Sql.Select.read_textWith (names_ne _) _ _ lexed meant, same⟩

/-- **The text means the request**, whatever the names and the filter: if `Take` sends a
statement at all, it is read as a SELECT of the columns asked for from the table asked for
under the conditions of the filter, its arguments are the filter's values, and the same text
is sent only for the same columns, table and conditions. -/
theorem statement_faithful {req : Request} {text : List Char} {args : List Value}
    (sent : statement (ε := ε) u req = .ok (text, args)) :
    Sql.Select.read text = some req.select ∧ args = comparands req.filter.preds ∧
      ∀ (req' : Request) (args' : List Value),
        statement (ε := ε) u req' = .ok (text, args') → req'.select = req.select := by
  obtain ⟨read, same⟩ := statement_reads sent
  refine ⟨read, same, fun req' args' sent' => ?_⟩
  have read' := (statement_reads sent').1
  rw [read] at read'
  exact (Option.some.inj read').symm

namespace Tasks

def openFilter : Filter := ⟨[⟨"status", .eq, .string "open"⟩]⟩

def ids : Request := { schema := "", table := "tasks", columns := ["id"], filter := openFilter }

def text : String := "SELECT \"id\" FROM \"public\".\"tasks\" WHERE \"status\" = $1"

theorem statement_faithful_ids :
    statement (ε := Empty) .ascii ids = .ok (text.toList, [.string "open"]) ∧
      Sql.Select.read text.toList = some ids.select := by
  have sent : statement (ε := Empty) .ascii ids = .ok (text.toList, [.string "open"]) := by
    rfl
  exact ⟨sent, (statement_faithful sent).1⟩

end Tasks

/-! ## On a database -/

/-- A table as Postgres stores it, its rows in some order. -/
structure Stored where
  columns : List String
  rows : List Row
  distinct : columns.Nodup
  whole : ∀ r ∈ rows, r.keys = columns.toFinset

structure Database where
  lsn : LSN
  tables : KeyMap (String × String) Stored

inductive SqlError where
  | syntaxError
  | undefinedTable
  /-- A column that the table lacks, or a placeholder without an argument. -/
  | undefined
  deriving DecidableEq

/-- The row in the order of the columns; a column the row lacks is an error. -/
def fields (columns : List String) (row : Row) : Option (List (String × Value)) :=
  columns.mapM fun c => (row.lookup c).map fun v => (c, v)

/-- The truth of the conditions on a row. -/
def judge (conds : List Sql.Cond) (args : List Value) (row : Row) : Option Sql.Truth :=
  (conds.mapM (Sql.Cond.eval .null (Row.column row) args)).map Sql.Truth.all

/-- The rows on which the conditions are TRUE. -/
def filterRows (conds : List Sql.Cond) (args : List Value) : List Row → Option (List Row)
  | [] => some []
  | row :: rows =>
      (judge conds args row).bind fun truth =>
        (filterRows conds args rows).map fun kept => if truth = .true then row :: kept else kept

namespace Database

variable (db : Database)

def select (sel : Sql.Select) (args : List Value) :
    Except SqlError (List (List (String × Value))) :=
  match db.tables.lookup (String.ofList sel.schema, String.ofList sel.table) with
  | none => .error .undefinedTable
  | some stored =>
      let columns := (sel.columns.map fun names => names.map String.ofList).getD stored.columns
      match (filterRows sel.conds args stored.rows).bind fun kept =>
        kept.mapM (fields columns) with
      | none => .error .undefined
      | some records => .ok records

/-- A transaction on this state of the database; all it has of a statement is its text. -/
def pool [LSNText] : Pool SqlError where
  begin := .ok ()
  currentLSN := .ok (String.ofList (LSNText.string db.lsn))
  query text args :=
    match Sql.Select.read text with
    | none => .error .syntaxError
    | some sel => (db.select sel args).map fun records => { records := records }
  commit := .ok ()

end Database

/-- The pool answers what a SELECT on this state of the database finds, and no step of the
transaction fails. -/
structure Answers [LSNText] (pool : Pool ε) (db : Database) : Prop where
  begins : pool.begin = .ok ()
  position : ∃ text, pool.currentLSN = .ok text ∧ LSNText.parse text.toList = some db.lsn
  finds : ∀ text sel args records, Sql.Select.read text = some sel →
    db.select sel args = .ok records → pool.query text args = .ok { records := records }
  commits : pool.commit = .ok ()

theorem Database.pool_answers [LSNText] {db : Database} (fits : db.lsn < 2 ^ 64) :
    Answers db.pool db where
  begins := rfl
  position := ⟨_, rfl, by rw [String.toList_ofList, LSNText.parse_string fits]⟩
  finds text sel args records read selected := by
    simp only [Database.pool, read, selected, Except.map]
  commits := rfl

/-- Only the columns asked for. -/
def project (columns : List String) (row : Row) : Row :=
  if columns = [] then row else row.restrict fun c => columns.contains c

instance (f : Filter) (row : Row) : Decidable (ComparesNoNull f row) :=
  inferInstanceAs (Decidable (∀ p ∈ f.preds, p.op.compares →
    row.lookup p.column ≠ some .null ∧ p.value ≠ .null))

/-- What Postgres finds of the rows the filter accepts. -/
def found (f : Filter) (row : Row) : Bool := f.match (some row) && decide (ComparesNoNull f row)

theorem judge_sqlConds {f : Filter} {row : Row} (complete : Complete f row) :
    ∃ truth, judge (sqlConds 1 f.preds) (comparands f.preds) row = some truth ∧
      (truth = .true ↔ found f row = true) := by
  obtain ⟨ts, truths, sound, exactly⟩ := Filter.truth_eq complete
  have conds := mapM_eval_sqlConds row [] f.preds
  simp only [List.length_nil, Nat.zero_add, List.nil_append, truths] at conds
  refine ⟨Sql.Truth.all ts, by rw [judge, conds]; rfl, ?_⟩
  rw [found, Bool.and_eq_true, decide_eq_true_iff]
  constructor
  · exact fun holds => ⟨sound holds, (exactly (sound holds)).1 holds⟩
  · exact fun both => (exactly both.1).2 both.2

theorem filterRows_sqlConds {f : Filter} {rows : List Row}
    (complete : ∀ r ∈ rows, Complete f r) :
    filterRows (sqlConds 1 f.preds) (comparands f.preds) rows = some (rows.filter (found f)) := by
  induction rows with
  | nil => rfl
  | cons row rows ih =>
      obtain ⟨truth, judged, holds⟩ := judge_sqlConds (complete row List.mem_cons_self)
      have rest := ih fun r member => complete r (List.mem_cons_of_mem _ member)
      rw [filterRows, judged, rest, Option.bind_some, Option.map_some, List.filter_cons]
      by_cases accepted : truth = .true
      · rw [if_pos accepted, if_pos (holds.1 accepted)]
      · rw [if_neg accepted, if_neg fun here => accepted (holds.2 here)]

/-- The columns that were asked for, and nothing else. -/
theorem rowOf_fields {columns : List String} {row : Row} {given : List (String × Value)}
    (ok : fields columns row = some given) :
    rowOf given = row.restrict fun c => columns.contains c := by
  -- over the columns, into any map that is there already
  have filled : ∀ (columns : List String) (given : List (String × Value)) (acc : Row),
      fields columns row = some given → ∀ c,
        (given.foldl (fun row field => row.insert field.1 field.2) acc).lookup c =
          if c ∈ columns then row.lookup c else acc.lookup c := by
    intro columns
    induction columns with
    | nil =>
        intro given acc ok c
        cases ok
        rfl
    | cons col columns ih =>
        intro given acc ok c
        obtain ⟨field, given, here, later, rfl⟩ :=
          List.forall₂_cons_left_iff.1 (mapM_eq_some_iff.1 ok)
        obtain ⟨v, value, rfl⟩ := Option.map_eq_some_iff.1 here
        rw [List.foldl_cons, ih given _ (mapM_eq_some_iff.2 later) c, KeyMap.lookup_insert_eq]
        by_cases same : c = col
        · subst same
          simp [value]
        · simp [same]
  refine Finmap.ext_lookup fun c => ?_
  rw [rowOf, filled columns given ∅ ok c, KeyMap.lookup_restrict]
  simp

theorem fields_isSome {columns : List String} {row : Row} (present : ∀ c ∈ columns, c ∈ row) :
    (fields columns row).isSome := by
  refine isSome_mapM_iff.2 fun c member => ?_
  obtain ⟨v, value⟩ := Finmap.mem_iff.1 (present c member)
  simp [value]

section Reading

variable {db : Database} {req : Request} {stored : Stored}

/-- The columns a request is about. -/
def Request.columnsOf (req : Request) (stored : Stored) : List String :=
  if req.columns = [] then stored.columns else req.columns

theorem columns_select (req : Request) (stored : Stored) :
    (req.select.columns.map fun names => names.map String.ofList).getD stored.columns =
      req.columnsOf stored := by
  rw [Request.select, Request.columnsOf]
  cases req.columns with
  | nil => rfl
  | cons c cs => simp [names, Function.comp_def]

theorem rowOf_record {row : Row} {record : List (String × Value)} (member : row ∈ stored.rows)
    (ok : fields (req.columnsOf stored) row = some record) :
    rowOf record = project req.columns row := by
  rw [rowOf_fields ok, Request.columnsOf, project]
  split
  · -- all columns of the table are all that the row has
    refine KeyMap.restrict_eq_self fun c v value => ?_
    have here : c ∈ row.keys := Finmap.mem_keys.2 (Finmap.mem_of_lookup_eq_some value)
    rw [stored.whole row member, List.mem_toFinset] at here
    exact List.contains_iff_mem.2 here
  · rfl

theorem select_request (table : db.tables.lookup (req.schemaName, req.table) = some stored)
    (present : ∀ c ∈ req.columns, c ∈ stored.columns)
    (complete : ∀ r ∈ stored.rows, Complete req.filter r) :
    ∃ records, db.select req.select (comparands req.filter.preds) = .ok records ∧
      records.map rowOf = (stored.rows.filter (found req.filter)).map (project req.columns) := by
  have within : ∀ c ∈ req.columnsOf stored, c ∈ stored.columns := by
    intro c member
    rw [Request.columnsOf] at member
    split at member
    · exact member
    · exact present c member
  have each : ((stored.rows.filter (found req.filter)).mapM
      (fields (req.columnsOf stored))).isSome := by
    refine isSome_mapM_iff.2 fun row member => fields_isSome fun c asked => ?_
    rw [← Finmap.mem_keys, stored.whole row (List.mem_of_mem_filter member), List.mem_toFinset]
    exact within c asked
  obtain ⟨records, read⟩ := Option.isSome_iff_exists.1 each
  refine ⟨records, ?_, ?_⟩
  · have named : (String.ofList req.select.schema, String.ofList req.select.table) =
        (req.schemaName, req.table) := by simp [Request.select]
    rw [Database.select, named, table]
    dsimp only
    rw [columns_select, Request.select, filterRows_sqlConds complete, Option.bind_some, read]
  · exact map_eq_of_mapM read fun row member record ok =>
      rowOf_record (List.mem_of_mem_filter member) ok

/-- `Take` on a database whose table has the columns that are asked for. -/
theorem take_answers [LSNText] {pool : Pool ε} {text : List Char} {args : List Value}
    (sent : statement (ε := ε) u req = .ok (text, args)) (answers : Answers pool db)
    (table : db.tables.lookup (req.schemaName, req.table) = some stored)
    (present : ∀ c ∈ req.columns, c ∈ stored.columns)
    (complete : ∀ r ∈ stored.rows, Complete req.filter r) :
    take u (some pool) req =
      .ok ⟨db.lsn, (stored.rows.filter (found req.filter)).map (project req.columns)⟩ := by
  obtain ⟨read, rfl⟩ := statement_reads sent
  obtain ⟨records, selected, rows⟩ := select_request table present complete
  have queried := answers.finds text _ _ records read selected
  obtain ⟨written, current, position⟩ := answers.position
  rw [← rows]
  simp only [take, sent, answers.begins, current, position, queried, answers.commits, bind,
    Except.bind, Except.mapError]

end Reading

/-! ## The first subscription -/

/-- What `subscribeShape` asks for. -/
def request {C : Type} (d : Definition C) (f : Filter) : Request :=
  { schema := d.schema, table := d.table, filter := f }

/-- Valid names and a parsed filter are sent. -/
theorem exists_statement {C : Type} {d : Definition C} {clause : GoString} {given : List Value}
    {f : Filter} (parsed : parseWhere u clause given = .ok f)
    (schema : validateIdent (request d f).schemaName = .ok ())
    (table : validateIdent d.table = .ok ()) :
    ∃ sent, statement (ε := ε) u (request d f) = .ok sent := by
  obtain ⟨nonempty, valid⟩ := parseWhere_ok parsed
  obtain ⟨text, written, -⟩ := read_sqlClause nonempty valid
  have named : d.table ≠ "" := by
    intro empty
    rw [empty] at table
    cases table
  have all : selected (request d f).columns = .ok none := rfl
  refine ⟨(Sql.Select.textWith none (request d f).schemaName.toList d.table.toList text,
    comparands f.preds), ?_⟩
  rw [statement, if_neg (show (request d f).table ≠ "" from named), schema,
    show validateIdent (request d f).table = .ok () from table,
    show sqlClause u (request d f).filter = .ok (text, comparands f.preds) from written, all]
  rfl

/-- The rows that Postgres finds are a table, too. -/
def foundTable {rel : Relation} (t : Table rel) (f : Filter) : Table rel where
  rows := t.rows.filter fun r => found f r
  admitted r member := t.admitted r (Finset.mem_of_mem_filter r member)
  unique r first r' second := t.unique r (Finset.mem_of_mem_filter r first) r'
    (Finset.mem_of_mem_filter r' second)

theorem foundTable_visible {rel : Relation} (t : Table rel) (f : Filter) :
    (foundTable t f).visible f = (foundTable t f).rows := by
  refine Finset.filter_true_of_mem fun r member => ?_
  have both := (Finset.mem_filter.1 member).2
  rw [found, Bool.and_eq_true] at both
  exact both.1

theorem found_eq_visible_iff {rel : Relation} (t : Table rel) (f : Filter) :
    (foundTable t f).rows = t.visible f ↔
      ∀ r ∈ t.rows, f.match (some r) = true → ComparesNoNull f r := by
  rw [foundTable, Table.visible, Finset.filter_inj']
  simp only [found, Bool.and_eq_true, decide_eq_true_iff, and_iff_left_iff_imp]

/-- **A snapshot mirrors its table.**  For a shape with plain names and a parsed filter, on any
pool of a database that holds the rows of `t` in any order: `Take` and `LoadSnapshot` succeed,
the cache holds the rows of `t` that the filter accepts without comparing a NULL, each once,
and these are all the rows the filter accepts exactly when none of them has a NULL compared. -/
theorem snapshot_mirrors [LSNText] {C : Type} {d : Definition C} {rel : Relation} {t : Table rel}
    {pool : Pool ε} {db : Database} {stored : Stored} {clause : GoString} {given : List Value}
    {f : Filter} (answers : Answers pool db) (parsed : parseWhere u clause given = .ok f)
    (schema : validateIdent (request d f).schemaName = .ok ())
    (named : validateIdent d.table = .ok ())
    (table : db.tables.lookup ((request d f).schemaName, d.table) = some stored)
    (rows : (stored.rows : Multiset Row) = t.rows.val)
    (typed : ∀ r ∈ t.rows, Complete f r) (distinct : rel.DistinctKeys)
    (keyed : d.withDefaults.primaryKey = rel.primaryKey) :
    ∃ result loaded, take u (some pool) (request d f) = .ok result ∧ result.lsn = db.lsn ∧
      (Instance.start d f).loadSnapshot result.lsn (result.rows.map some) = (loaded, .ok ()) ∧
      loaded.materialized = (foundTable t f).rows.val ∧
      (loaded.materialized = (t.visible f).val ↔
        ∀ r ∈ t.rows, f.match (some r) = true → ComparesNoNull f r) := by
  obtain ⟨⟨text, args⟩, sent⟩ := exists_statement (ε := ε) (d := d) parsed schema named
  have complete : ∀ r ∈ stored.rows, Complete f r := by
    intro r member
    refine typed r ?_
    rw [← Finset.mem_val, ← rows]
    exact Multiset.mem_coe.2 member
  have taken := take_answers sent answers table (by simp [request]) complete
  have read : ((stored.rows.filter (found f)).map (project []) : Multiset Row) =
      ((foundTable t f).visible f).val := by
    have whole : project [] = id := funext fun row => if_pos rfl
    rw [whole, List.map_id, foundTable_visible, foundTable, Finset.filter_val, ← rows,
      Multiset.filter_coe]
    simp
  obtain ⟨loaded, seeded, mirrors⟩ :=
    loadSnapshot_mirrors (n := db.lsn) keyed "" (Table.apart_of_distinct distinct _ f) read
  have shown : loaded.materialized = (foundTable t f).rows.val := by
    rw [← foundTable_visible]
    exact mirrors.index.values_eq
  refine ⟨_, loaded, taken, rfl, seeded, shown, ?_⟩
  rw [shown, Finset.val_inj, found_eq_visible_iff]

namespace Tasks

open TaskHistory (task tasks)

attribute [local instance] Pglogrepl.hexadecimal

def shape : Definition Unit :=
  { name := "open tasks", schema := "", table := "tasks", primaryKey := ["id"], bind := none }

def rows : List Row := [task 2 "open", task 1 "done"]

theorem rows_admitted : ∀ r ∈ rows.toFinset, tasks.admits r = true := by decide +kernel

theorem rows_unique : ∀ r ∈ rows.toFinset, ∀ r' ∈ rows.toFinset,
    tasks.keyOf r = tasks.keyOf r' → r = r' := by
  decide +kernel

def table : Table tasks := ⟨rows.toFinset, rows_admitted, rows_unique⟩

theorem rows_whole : ∀ r ∈ rows, r.keys = ["id", "status"].toFinset := by decide +kernel

def stored : Stored where
  columns := ["id", "status"]
  rows := rows
  distinct := by simp
  whole := rows_whole

def database : Database where
  lsn := 40
  tables := (∅ : KeyMap (String × String) Stored).insert ("public", "tasks") stored

theorem rows_typed : ∀ r ∈ table.rows, Complete openFilter r := by
  intro r member p pred
  have each : ∀ r ∈ rows, ∃ status, r.lookup "status" = some (.string status) :=
    List.forall_mem_cons.2 ⟨⟨"open", by decide +kernel⟩,
      List.forall_mem_cons.2 ⟨⟨"done", by decide +kernel⟩, by simp⟩⟩
  obtain ⟨status, value⟩ := each r (List.mem_toFinset.1 member)
  cases List.mem_singleton.1 pred
  exact ⟨_, value, fun _ => rfl⟩

theorem snapshot_mirrors_tasks :
    ∃ result loaded, take .ascii (some database.pool) (request shape openFilter) = .ok result ∧
      result.lsn = 40 ∧
      (Instance.start shape openFilter).loadSnapshot result.lsn (result.rows.map some) =
        (loaded, .ok ()) ∧
      loaded.materialized = {task 2 "open"} := by
  have parsed : parseWhere .ascii (.ofString "status = ?") [.string "open"] = .ok openFilter := by
    decide +kernel
  have held : database.tables.lookup ("public", "tasks") = some stored := Finmap.lookup_insert _
  have listed : (stored.rows : Multiset Row) = table.rows.val := by decide +kernel
  obtain ⟨result, loaded, taken, position, seeded, shown, -⟩ :=
    snapshot_mirrors (d := shape) (Database.pool_answers (by decide)) parsed (by decide)
      (by decide) held listed rows_typed TaskHistory.distinct rfl
  refine ⟨result, loaded, taken, position, seeded, shown.trans ?_⟩
  decide +kernel

end Tasks

end Tether.Snapshot.Query
