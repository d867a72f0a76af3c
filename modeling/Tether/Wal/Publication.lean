/-
# Tether.Wal.Publication — `EnsurePublication` and the statements it sends

Table and publication names go into SQL between double quotes (`quoteIdent`), the tables
of a publication as a list of qualified names (`internal/wal/publication.go`).  A server
reads that list as exactly the tables that were meant, whatever bytes their names
consist of (`tableList_reversible`).

`ensurePublication` is the source's function over any database that answers its two
queries and executes its statements (`Pool`).  If the database does what the text of a
statement says (`Pool.Lawful`), a call that succeeds leaves all tables meant in the
publication (`ensurePublication_members`).  `Catalog.pool` is such a database: it lexes a
text and reads it as `CREATE PUBLICATION` or `ALTER PUBLICATION`.  On it a call that
succeeds adds nothing else, and the next one changes nothing
(`ensurePublication_catalog`).

Not modelled: a server cuts names of 64 bytes and more, in the parameters of a query as
in a statement, and refuses a quoted name without a byte.
-/
import Tether.Lib.GoString
import Tether.Lib.KeyMap
import Tether.Lib.Lists
import Tether.Lib.Quoted

namespace Tether.Wal

open Tether.Lib Tether.Lib.Quoted

set_option autoImplicit false

/-! ## Quoting -/

structure TableRef where
  schema : GoString
  name : GoString
  deriving DecidableEq

/-- The schema and the name of a table in the catalog. -/
abbrev Table := GoString × GoString

/-- An empty schema is `public`. -/
def TableRef.schemaName (t : TableRef) : GoString :=
  if t.schema = [] then .ofString "public" else t.schema

def TableRef.target (t : TableRef) : Table := (t.schemaName, t.name)

def quoteIdent (ident : GoString) : GoString :=
  .ofString "\"" ++ ident.replaceAll (.ofString "\"") (.ofString "\"\"") ++ .ofString "\""

def TableRef.qualified (t : TableRef) : GoString :=
  quoteIdent t.schemaName ++ .ofString "." ++ quoteIdent t.name

/-- The joined `parts`. -/
def tableList (tables : List TableRef) : GoString :=
  (GoString.ofString ", ").intercalate (tables.map TableRef.qualified)

def createPublication (name : GoString) (tables : List TableRef) : GoString :=
  .ofString "CREATE PUBLICATION " ++ quoteIdent name ++ .ofString " FOR TABLE " ++ tableList tables

def addTable (name : GoString) (t : TableRef) : GoString :=
  .ofString "ALTER PUBLICATION " ++ quoteIdent name ++ .ofString " ADD TABLE " ++ t.qualified

/-! ## Reading the list back -/

def doubleQuote : UInt8 := '"'.toUInt8

/-- A qualified name: nothing but a dot stands outside the quotes. -/
def qualifiedPieces (t : Table) : List (Piece UInt8) := [.name t.1, .mark '.'.toUInt8, .name t.2]

def listPieces (tables : List Table) : List (Piece UInt8) :=
  [.mark ','.toUInt8, .mark ' '.toUInt8].intercalate (tables.map qualifiedPieces)

/-- One qualified name or several. -/
def readList : List (Piece UInt8) → Option (List Table)
  | [.name schema, .mark dot, .name name] =>
      if dot = '.'.toUInt8 then some [(schema, name)] else none
  | .name schema :: .mark dot :: .name name :: .mark comma :: .mark blank :: rest =>
      if dot = '.'.toUInt8 ∧ comma = ','.toUInt8 ∧ blank = ' '.toUInt8 then
        (readList rest).map fun tables => (schema, name) :: tables
      else none
  | _ => none

def readTables (pieces : List (Piece UInt8)) : Option (List Table) :=
  if pieces = [] then some [] else readList pieces

theorem quoteIdent_eq_enquote (ident : GoString) :
    quoteIdent ident = enquote doubleQuote ident := by
  rw [quoteIdent, show GoString.ofString "\"" = [doubleQuote] by decide,
    GoString.replaceAll_byte]
  rfl

theorem listPieces_singleton (t : Table) : listPieces [t] = qualifiedPieces t :=
  List.intercalate_singleton

theorem listPieces_cons_cons (t t' : Table) (tables : List Table) :
    listPieces (t :: t' :: tables) =
      .name t.1 :: .mark '.'.toUInt8 :: .name t.2 :: .mark ','.toUInt8 :: .mark ' '.toUInt8 ::
        listPieces (t' :: tables) := by
  rw [listPieces, List.map_cons, List.map_cons, List.intercalate_cons_cons]
  rfl

theorem text_qualifiedPieces (t : TableRef) :
    text doubleQuote (qualifiedPieces t.target) = t.qualified := by
  rw [TableRef.qualified, quoteIdent_eq_enquote, quoteIdent_eq_enquote,
    show GoString.ofString "." = ['.'.toUInt8] by decide]
  simp [text, Piece.text, qualifiedPieces, TableRef.target]

theorem tableList_singleton (t : TableRef) : tableList [t] = t.qualified :=
  List.intercalate_singleton

theorem tableList_cons_cons (t t' : TableRef) (tables : List TableRef) :
    tableList (t :: t' :: tables) =
      t.qualified ++ (GoString.ofString ", " ++ tableList (t' :: tables)) := by
  rw [tableList, List.map_cons, List.map_cons, List.intercalate_cons_cons, List.append_assoc]
  rfl

theorem text_listPieces (tables : List TableRef) :
    text doubleQuote (listPieces (tables.map TableRef.target)) = tableList tables := by
  induction tables with
  | nil => rfl
  | cons t tables ih =>
      cases tables with
      | nil =>
          rw [tableList_singleton, List.map_singleton, listPieces_singleton, text_qualifiedPieces]
      | cons t' tables =>
          have separator : GoString.ofString ", " =
              text doubleQuote [.mark ','.toUInt8, .mark ' '.toUInt8] := by decide
          rw [tableList_cons_cons, ← text_qualifiedPieces, separator, ← ih, ← text_append,
            ← text_append, List.map_cons, List.map_cons, listPieces_cons_cons]
          rfl

theorem legible_listPieces (tables : List Table) : Legible doubleQuote (listPieces tables) := by
  induction tables with
  | nil => exact .nil
  | cons t tables ih =>
      cases tables with
      | nil => exact .name t.1 (by decide) (.last t.2)
      | cons t' tables =>
          rw [listPieces_cons_cons]
          exact .name t.1 (by decide) (.name t.2 (by decide) (.mark (by decide) ih))

theorem readList_listPieces {tables : List Table} (nonempty : tables ≠ []) :
    readList (listPieces tables) = some tables := by
  induction tables with
  | nil => exact absurd rfl nonempty
  | cons t tables ih =>
      cases tables with
      | nil => rfl
      | cons t' tables =>
          rw [listPieces_cons_cons, readList, ih (List.cons_ne_nil _ _), if_pos ⟨rfl, rfl, rfl⟩]
          rfl

/-- **Quoting is reversible.**  The list of qualified names is read as the tables meant;
outside the quotes there are the dots and the separators only. -/
theorem tableList_reversible (tables : List TableRef) :
    lex doubleQuote (tableList tables) = some (listPieces (tables.map TableRef.target)) ∧
      (lex doubleQuote (tableList tables)).bind readTables = some (tables.map TableRef.target) := by
  have pieces : lex doubleQuote (tableList tables) =
      some (listPieces (tables.map TableRef.target)) := by
    rw [← text_listPieces]
    exact lex_text (legible_listPieces _)
  refine ⟨pieces, ?_⟩
  rw [pieces, Option.bind_some, readTables]
  by_cases empty : tables = []
  · subst empty
    rfl
  · have list : readList (listPieces (tables.map TableRef.target)) =
        some (tables.map TableRef.target) :=
      readList_listPieces fun none => empty (List.map_eq_nil_iff.1 none)
    rw [if_neg, list]
    intro none
    rw [none] at list
    cases list

example : tableList [⟨[], .ofString "a\"b"⟩, ⟨.ofString "s.t", .ofString "x, y"⟩] =
    .ofString "\"public\".\"a\"\"b\", \"s.t\".\"x, y\"" := by
  decide

/-! ## Statements -/

inductive Statement where
  | createPublication (name : GoString) (tables : List Table)
  | addTables (name : GoString) (tables : List Table)
  deriving DecidableEq

def Statement.publication : Statement → GoString
  | .createPublication name _ | .addTables name _ => name

def Statement.listed : Statement → List Table
  | .createPublication _ tables | .addTables _ tables => tables

/-- What follows a keyword. -/
def afterWord (word : GoString) (pieces : List (Piece UInt8)) : Option (List (Piece UInt8)) :=
  if (word.map Piece.mark).isPrefixOf pieces then some (pieces.drop word.length) else none

/-- The name between two keywords, and the tables behind the second. -/
def readClause (verb object : GoString) (pieces : List (Piece UInt8)) :
    Option (GoString × List Table) :=
  match afterWord verb pieces with
  | some (.name name :: rest) =>
      ((afterWord object rest).bind readList).map fun tables => (name, tables)
  | _ => none

def readStatement (pieces : List (Piece UInt8)) : Option Statement :=
  match readClause (.ofString "CREATE PUBLICATION ") (.ofString " FOR TABLE ") pieces with
  | some (name, tables) => some (.createPublication name tables)
  | none =>
      (readClause (.ofString "ALTER PUBLICATION ") (.ofString " ADD TABLE ") pieces).map
        fun clause => .addTables clause.1 clause.2

def clausePieces (verb object name : GoString) (tables : List Table) : List (Piece UInt8) :=
  verb.map .mark ++ .name name :: (object.map .mark ++ listPieces tables)

theorem afterWord_marks (word : GoString) (pieces : List (Piece UInt8)) :
    afterWord word (word.map .mark ++ pieces) = some pieces := by
  rw [afterWord, if_pos (List.isPrefixOf_iff_prefix.2 (List.prefix_append _ _))]
  simp

theorem readClause_clausePieces (verb object name : GoString) {tables : List Table}
    (nonempty : tables ≠ []) :
    readClause verb object (clausePieces verb object name tables) = some (name, tables) := by
  rw [readClause, clausePieces, afterWord_marks]
  dsimp only
  rw [afterWord_marks, Option.bind_some, readList_listPieces nonempty]
  rfl

section Clauses

variable {verb object : GoString} (unquoted : ∀ c ∈ verb ++ object, c ≠ doubleQuote)

include unquoted

theorem lex_clause (nonempty : object ≠ []) (name : GoString) (tables : List TableRef) :
    lex doubleQuote (verb ++ quoteIdent name ++ object ++ tableList tables) =
      some (clausePieces verb object name (tables.map TableRef.target)) := by
  have written : verb ++ quoteIdent name ++ object ++ tableList tables =
      text doubleQuote (clausePieces verb object name (tables.map TableRef.target)) := by
    rw [clausePieces, text_append, text_cons, text_append, text_marks, text_marks, text_listPieces,
      quoteIdent_eq_enquote, List.append_assoc, List.append_assoc]
    rfl
  have list := legible_listPieces (tables.map TableRef.target)
  rw [List.forall_mem_append] at unquoted
  obtain ⟨before, behind⟩ := unquoted
  rw [written]
  refine lex_text (.marks before ?_)
  cases object with
  | nil => exact absurd rfl nonempty
  | cons c object =>
      obtain ⟨first, later⟩ := List.forall_mem_cons.1 behind
      exact .name name first (.marks later list)

end Clauses

/-- **What a server reads in `CREATE PUBLICATION`.** -/
theorem read_createPublication (name : GoString) {tables : List TableRef} (nonempty : tables ≠ []) :
    (lex doubleQuote (createPublication name tables)).bind readStatement =
      some (.createPublication name (tables.map TableRef.target)) := by
  have listed : tables.map TableRef.target ≠ [] := fun empty =>
    nonempty (List.map_eq_nil_iff.1 empty)
  rw [createPublication, lex_clause (forall_mem_of_all (by decide)) (by decide), Option.bind_some,
    readStatement, readClause_clausePieces _ _ _ listed]

/-- **What a server reads in `ALTER PUBLICATION`.** -/
theorem read_addTable (name : GoString) (t : TableRef) :
    (lex doubleQuote (addTable name t)).bind readStatement =
      some (.addTables name [t.target]) := by
  have other : readClause (.ofString "CREATE PUBLICATION ") (.ofString " FOR TABLE ")
      (clausePieces (.ofString "ALTER PUBLICATION ") (.ofString " ADD TABLE ") name
        [t.target]) = none := rfl
  rw [addTable, ← tableList_singleton, lex_clause (forall_mem_of_all (by decide)) (by decide),
    Option.bind_some, readStatement, List.map_singleton, other,
    readClause_clausePieces _ _ _ (List.cons_ne_nil _ _)]
  rfl

/-! ## `EnsurePublication` -/

/-- What the function asks of a database; `ε` are the database's errors. -/
structure Pool (σ ε : Type) where
  publicationExists : GoString → σ → Except ε Bool
  isMember : GoString → Table → σ → Except ε Bool
  exec : GoString → σ → Except ε σ

inductive EnsureError (ε : Type) where
  | poolIsNil
  | nameRequired
  | tableRequired
  | checkPublication (err : ε)
  | createPublication (err : ε)
  | checkMember (err : ε)
  | addTable (err : ε)
  deriving DecidableEq

def EnsureError.text {ε : Type} (error : ε → String) : EnsureError ε → String
  | .poolIsNil => "wal: pool is nil"
  | .nameRequired => "wal: publication name is required"
  | .tableRequired => "wal: publication requires at least one table"
  | .checkPublication err => "wal: check publication: " ++ error err
  | .createPublication err => "wal: create publication: " ++ error err
  | .checkMember err => "wal: check publication member: " ++ error err
  | .addTable err => "wal: add table to publication: " ++ error err

section Ensure

variable {σ ε : Type}

/-- The loop over the tables of a publication that exists.  A table that was added stays
when a later one fails. -/
def addMissing (pool : Pool σ ε) (name : GoString) :
    List TableRef → σ → Option (EnsureError ε) × σ
  | [], db => (none, db)
  | t :: tables, db =>
      match pool.isMember name t.target db with
      | .error err => (some (.checkMember err), db)
      | .ok true => addMissing pool name tables db
      | .ok false =>
          match pool.exec (addTable name t) db with
          | .error err => (some (.addTable err), db)
          | .ok db' => addMissing pool name tables db'

/-- The error, and the database afterwards. -/
def ensurePublication (pool : Option (Pool σ ε)) (name : GoString) (tables : List TableRef)
    (db : σ) : Option (EnsureError ε) × σ :=
  match pool with
  | none => (some .poolIsNil, db)
  | some pool =>
      if name = [] then (some .nameRequired, db)
      else if tables = [] then (some .tableRequired, db)
      else
        match pool.publicationExists name db with
        | .error err => (some (.checkPublication err), db)
        | .ok true => addMissing pool name tables db
        | .ok false =>
            match pool.exec (createPublication name tables) db with
            | .error err => (some (.createPublication err), db)
            | .ok db' => (none, db')

/-- What is asked of a database in which `member db name t` says that the table `t` is in
the publication: it reports members only, and a statement that it executes takes no table
out and adds those that its text lists. -/
structure Pool.Lawful (pool : Pool σ ε) (member : σ → GoString → Table → Prop) : Prop where
  reports : ∀ name t db, pool.isMember name t db = .ok true → member db name t
  keeps : ∀ sql statement db db', (lex doubleQuote sql).bind readStatement = some statement →
    pool.exec sql db = .ok db' → ∀ name t, member db name t → member db' name t
  adds : ∀ sql statement db db', (lex doubleQuote sql).bind readStatement = some statement →
    pool.exec sql db = .ok db' → ∀ t ∈ statement.listed, member db' statement.publication t

section Lawful

variable {pool : Pool σ ε} {member : σ → GoString → Table → Prop} (lawful : pool.Lawful member)
  {name : GoString} {tables : List TableRef} {db : σ}

include lawful

/-- A loop that gets through leaves the tables it goes over in the publication, and those
that were there. -/
theorem addMissing_members (ok : (addMissing pool name tables db).1 = none) :
    (∀ t ∈ tables, member (addMissing pool name tables db).2 name t.target) ∧
      ∀ t, member db name t → member (addMissing pool name tables db).2 name t := by
  induction tables generalizing db with
  | nil => exact ⟨by simp, fun t held => held⟩
  | cons t tables ih =>
      rw [addMissing] at ok ⊢
      split at ok
      · cases ok
      · next present =>
          obtain ⟨added, kept⟩ := ih ok
          refine ⟨List.forall_mem_cons.2 ⟨kept _ ?_, added⟩, kept⟩
          exact lawful.reports name t.target db present
      · split at ok
        · cases ok
        · next db' executed =>
            obtain ⟨added, kept⟩ := ih ok
            have read := read_addTable name t
            refine ⟨List.forall_mem_cons.2 ⟨kept _ ?_, added⟩, fun t' held => kept _ ?_⟩
            · exact lawful.adds _ _ db db' read executed t.target (List.mem_singleton_self _)
            · exact lawful.keeps _ _ db db' read executed name t' held

/-- **A call that succeeds leaves every table meant in the publication.** -/
theorem ensurePublication_members (ok : (ensurePublication (some pool) name tables db).1 = none) :
    ∀ t ∈ tables, member (ensurePublication (some pool) name tables db).2 name t.target := by
  by_cases named : name = []
  · rw [ensurePublication, if_pos named] at ok
    cases ok
  by_cases nonempty : tables = []
  · rw [ensurePublication, if_neg named, if_pos nonempty] at ok
    cases ok
  rw [ensurePublication, if_neg named, if_neg nonempty] at ok ⊢
  split at ok
  · cases ok
  · exact (addMissing_members lawful ok).1
  · split at ok
    · cases ok
    · next db' executed =>
        intro t here
        exact lawful.adds _ _ db db' (read_createPublication name nonempty) executed t.target
          (List.mem_map_of_mem here)

end Lawful

end Ensure

/-! ## On a catalog -/

/-- The tables that can be published, and the members of each publication. -/
structure Catalog where
  tables : Finset Table
  publications : KeyMap GoString (Finset Table)

inductive SqlError where
  | syntaxError
  | duplicateObject
  | undefinedObject
  | undefinedTable
  deriving DecidableEq

namespace Catalog

def setMembers (db : Catalog) (name : GoString) (members : Finset Table) : Catalog :=
  { db with publications := db.publications.insert name members }

/-- A table that is named twice in `CREATE PUBLICATION` is a member once. -/
def run (db : Catalog) : Statement → Except SqlError Catalog
  | .createPublication name tables =>
      match db.publications.lookup name with
      | some _ => .error .duplicateObject
      | none =>
          if tables.toFinset ⊆ db.tables then .ok (db.setMembers name tables.toFinset)
          else .error .undefinedTable
  | .addTables name tables =>
      match db.publications.lookup name with
      | none => .error .undefinedObject
      | some members =>
          if tables.toFinset ⊆ db.tables then
            if Disjoint tables.toFinset members then
              .ok (db.setMembers name (members ∪ tables.toFinset))
            else .error .duplicateObject
          else .error .undefinedTable

/-- All the server has of a statement is its text. -/
def exec (sql : GoString) (db : Catalog) : Except SqlError Catalog :=
  match (lex doubleQuote sql).bind readStatement with
  | none => .error .syntaxError
  | some statement => db.run statement

def members (db : Catalog) (name : GoString) : Finset Table :=
  (db.publications.lookup name).getD ∅

def pool : Pool Catalog SqlError where
  publicationExists name db := .ok (db.publications.lookup name).isSome
  isMember name table db := .ok (decide (table ∈ db.members name))
  exec := exec

theorem pool_exec (sql : GoString) (db : Catalog) : pool.exec sql db = exec sql db := rfl

theorem pool_publicationExists (name : GoString) (db : Catalog) :
    pool.publicationExists name db = .ok (db.publications.lookup name).isSome := rfl

theorem pool_isMember (name : GoString) (table : Table) (db : Catalog) :
    pool.isMember name table db = .ok (decide (table ∈ db.members name)) := rfl

variable {db : Catalog} {name : GoString} {tables : List TableRef} {members : Finset Table}

theorem lookup_setMembers (db : Catalog) (name other : GoString) (members : Finset Table) :
    (db.setMembers name members).publications.lookup other =
      if other = name then some members else db.publications.lookup other :=
  KeyMap.lookup_insert_eq _ _ _ _

theorem setMembers_setMembers (db : Catalog) (name : GoString) (members members' : Finset Table) :
    (db.setMembers name members).setMembers name members' = db.setMembers name members' := by
  simp only [setMembers, Finmap.insert_insert]

theorem setMembers_self (held : db.publications.lookup name = some members) :
    db.setMembers name members = db := by
  have same : db.publications.insert name members = db.publications := by
    refine Finmap.ext_lookup fun other => ?_
    rw [KeyMap.lookup_insert_eq]
    split
    · next here => rw [here, held]
    · rfl
  rw [setMembers, same]

theorem members_of_lookup (held : db.publications.lookup name = some members) :
    db.members name = members := by
  rw [Catalog.members, held, Option.getD_some]

theorem exec_addTable (db : Catalog) (name : GoString) (t : TableRef) :
    exec (addTable name t) db = db.run (.addTables name [t.target]) := by
  rw [exec, read_addTable]

theorem exec_createPublication (db : Catalog) (name : GoString) (nonempty : tables ≠ []) :
    exec (createPublication name tables) db =
      db.run (.createPublication name (tables.map TableRef.target)) := by
  rw [exec, read_createPublication name nonempty]

theorem members_setMembers (db : Catalog) (name other : GoString) (members : Finset Table) :
    (db.setMembers name members).members other =
      if other = name then members else db.members other := by
  rw [Catalog.members, lookup_setMembers]
  split <;> rfl

/-- A statement that is executed adds to one publication the tables it lists. -/
theorem run_ok {db' : Catalog} {statement : Statement} (ran : db.run statement = .ok db') :
    ∃ members, db' = db.setMembers statement.publication members ∧
      db.members statement.publication ⊆ members ∧ statement.listed.toFinset ⊆ members := by
  cases statement with
  | createPublication name tables =>
      rw [run] at ran
      split at ran
      · cases ran
      · next missing =>
          split at ran
          · cases ran
            refine ⟨_, rfl, ?_, subset_rfl⟩
            rw [Catalog.members, Statement.publication, missing]
            exact Finset.empty_subset _
          · cases ran
  | addTables name tables =>
      rw [run] at ran
      split at ran
      · cases ran
      · next members held =>
          split at ran
          · split at ran
            · cases ran
              refine ⟨_, rfl, ?_, Finset.subset_union_right⟩
              rw [Statement.publication, members_of_lookup held]
              exact Finset.subset_union_left
            · cases ran
          · cases ran

/-- A catalog does what the texts say. -/
theorem pool_lawful : pool.Lawful fun db name t => t ∈ db.members name where
  reports name t db told := by
    rw [pool_isMember] at told
    exact of_decide_eq_true (Except.ok.inj told)
  keeps sql statement db db' read executed name t here := by
    rw [pool_exec, exec, read] at executed
    obtain ⟨members, rfl, kept, -⟩ := run_ok executed
    rw [members_setMembers]
    split
    · next same => exact kept (same ▸ here)
    · exact here
  adds sql statement db db' read executed t listed := by
    rw [pool_exec, exec, read] at executed
    obtain ⟨members, rfl, -, added⟩ := run_ok executed
    rw [members_setMembers, if_pos rfl]
    exact added (List.mem_toFinset.2 listed)

/-- The tables meant, each once. -/
def targets (tables : List TableRef) : Finset Table := (tables.map TableRef.target).toFinset

theorem targets_cons (t : TableRef) (tables : List TableRef) :
    targets (t :: tables) = insert t.target (targets tables) := by
  rw [targets, List.map_cons, List.toFinset_cons, targets]

/-- One turn of the loop. -/
theorem addMissing_cons (held : db.publications.lookup name = some members) (t : TableRef)
    (tables : List TableRef) :
    addMissing pool name (t :: tables) db =
      if t.target ∈ members then addMissing pool name tables db
      else if t.target ∈ db.tables then
        addMissing pool name tables (db.setMembers name (insert t.target members))
      else (some (.addTable .undefinedTable), db) := by
  rw [addMissing, pool_isMember, members_of_lookup held]
  by_cases member : t.target ∈ members
  · rw [if_pos member, decide_eq_true member]
  · have added : pool.exec (addTable name t) db =
        if t.target ∈ db.tables then .ok (db.setMembers name (insert t.target members))
        else .error .undefinedTable := by
      rw [pool_exec, exec_addTable, run, held]
      simp [member]
    rw [if_neg member, decide_eq_false member]
    dsimp only
    rw [added]
    by_cases known : t.target ∈ db.tables
    · rw [if_pos known, if_pos known]
    · rw [if_neg known, if_neg known]

/-- **The loop.**  It only adds tables that are meant; it gets through exactly when each of
them is a member or can be published, and then all are members. -/
theorem addMissing_run (held : db.publications.lookup name = some members)
    (tables : List TableRef) :
    ∃ members', (addMissing pool name tables db).2 = db.setMembers name members' ∧
      members ⊆ members' ∧ members' ⊆ members ∪ targets tables ∧
      ((addMissing pool name tables db).1 = none → targets tables ⊆ members') ∧
      ((addMissing pool name tables db).1 = none ↔ targets tables ⊆ db.tables ∪ members) := by
  induction tables generalizing db members with
  | nil =>
      refine ⟨members, (setMembers_self held).symm, subset_rfl, Finset.subset_union_left, ?_, ?_⟩
      · exact fun _ => Finset.empty_subset _
      · exact iff_of_true rfl (Finset.empty_subset _)
  | cons t tables ih =>
      rw [addMissing_cons held, targets_cons]
      by_cases member : t.target ∈ members
      · obtain ⟨members', after, kept, within, done, through⟩ := ih held
        rw [if_pos member]
        refine ⟨members', after, kept, ?_, ?_, ?_⟩
        · exact within.trans (Finset.union_subset_union_right (Finset.subset_insert _ _))
        · exact fun ok => Finset.insert_subset (kept member) (done ok)
        · rw [through, Finset.insert_subset_iff, and_iff_right (Finset.mem_union_right _ member)]
      · rw [if_neg member]
        by_cases known : t.target ∈ db.tables
        · have held' : (db.setMembers name (insert t.target members)).publications.lookup name =
              some (insert t.target members) := by
            rw [lookup_setMembers, if_pos rfl]
          obtain ⟨members', after, kept, within, done, through⟩ := ih held'
          rw [Finset.insert_subset_iff] at kept
          rw [if_pos known]
          refine ⟨members', ?_, kept.2, ?_, ?_, ?_⟩
          · rw [after, setMembers_setMembers]
          · rwa [Finset.union_insert, ← Finset.insert_union]
          · exact fun ok => Finset.insert_subset kept.1 (done ok)
          · have same : db.tables ∪ insert t.target members = db.tables ∪ members := by
              rw [Finset.union_insert, Finset.insert_eq_of_mem (Finset.mem_union_left _ known)]
            rw [through, Finset.insert_subset_iff,
              and_iff_right (Finset.mem_union_left _ known)]
            show _ ⊆ db.tables ∪ _ ↔ _
            rw [same]
        · rw [if_neg known]
          refine ⟨members, (setMembers_self held).symm, subset_rfl, Finset.subset_union_left,
            by rintro ⟨⟩, ?_⟩
          refine iff_of_false (by rintro ⟨⟩) fun all => ?_
          rcases Finset.mem_union.1 (all (Finset.mem_insert_self _ _)) with here | there
          · exact known here
          · exact member there

section Calls

variable (named : name ≠ []) (nonempty : tables ≠ [])

include named nonempty

theorem ensurePublication_present (held : db.publications.lookup name = some members) :
    ensurePublication (some pool) name tables db = addMissing pool name tables db := by
  rw [ensurePublication, if_neg named, if_neg nonempty, pool_publicationExists, held,
    Option.isSome_some]

theorem ensurePublication_absent (missing : db.publications.lookup name = none) :
    ensurePublication (some pool) name tables db =
      if targets tables ⊆ db.tables then (none, db.setMembers name (targets tables))
      else (some (.createPublication .undefinedTable), db) := by
  have created : pool.exec (createPublication name tables) db =
      if targets tables ⊆ db.tables then .ok (db.setMembers name (targets tables))
      else .error .undefinedTable := by
    rw [pool_exec, exec_createPublication db name nonempty, run, missing]
    rfl
  rw [ensurePublication, if_neg named, if_neg nonempty, pool_publicationExists, missing,
    Option.isSome_none]
  dsimp only
  rw [created]
  by_cases known : targets tables ⊆ db.tables
  · rw [if_pos known, if_pos known]
  · rw [if_neg known, if_neg known]

/-- Nothing is left to do when all tables meant are members. -/
theorem ensurePublication_again (all : targets tables ⊆ members) (db : Catalog) :
    ensurePublication (some pool) name tables (db.setMembers name members) =
      (none, db.setMembers name members) := by
  have held : (db.setMembers name members).publications.lookup name = some members := by
    rw [lookup_setMembers, if_pos rfl]
  obtain ⟨members', after, kept, within, -, through⟩ := addMissing_run held tables
  have same : members' = members :=
    (within.trans (Finset.union_subset subset_rfl all)).antisymm kept
  rw [same, setMembers_self held] at after
  rw [ensurePublication_present named nonempty held]
  exact Prod.ext (through.2 (all.trans Finset.subset_union_right)) after

/-- **`EnsurePublication` on a catalog.**  Whatever the outcome, no other publication and
no other table is touched.  It succeeds exactly when each table meant is a member or can be
published; then the tables meant are added, and a second call changes nothing. -/
theorem ensurePublication_catalog (db : Catalog) :
    ∃ outcome after, ensurePublication (some pool) name tables db = (outcome, after) ∧
      (after = db ∨ ∃ members, db.members name ⊆ members ∧
        members ⊆ db.members name ∪ targets tables ∧ after = db.setMembers name members) ∧
      (outcome = none ↔ targets tables ⊆ db.tables ∪ db.members name) ∧
      (outcome = none → after = db.setMembers name (db.members name ∪ targets tables) ∧
        ensurePublication (some pool) name tables after = (none, after)) := by
  cases found : db.publications.lookup name with
  | none =>
      have empty : db.members name = ∅ := by rw [Catalog.members, found, Option.getD_none]
      rw [ensurePublication_absent named nonempty found, empty, Finset.union_empty,
        Finset.empty_union]
      by_cases known : targets tables ⊆ db.tables
      · rw [if_pos known]
        refine ⟨_, _, rfl, ?_, iff_of_true rfl known, fun _ => ⟨rfl, ?_⟩⟩
        · exact Or.inr ⟨_, Finset.empty_subset _, subset_rfl, rfl⟩
        · exact ensurePublication_again named nonempty subset_rfl db
      · rw [if_neg known]
        refine ⟨_, _, rfl, Or.inl rfl, iff_of_false (by rintro ⟨⟩) known, ?_⟩
        rintro ⟨⟩
  | some members =>
      obtain ⟨members', after, kept, within, done, through⟩ := addMissing_run found tables
      rw [ensurePublication_present named nonempty found, members_of_lookup found]
      refine ⟨_, _, rfl, Or.inr ⟨members', kept, within, after⟩, through, fun ok => ?_⟩
      have all : members' = members ∪ targets tables :=
        within.antisymm (Finset.union_subset kept (done ok))
      rw [after, all]
      exact ⟨rfl, ensurePublication_again named nonempty Finset.subset_union_right db⟩

end Calls

end Catalog

end Tether.Wal
