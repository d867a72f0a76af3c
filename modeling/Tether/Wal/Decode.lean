/-
# Tether.Wal.Decode — from pgoutput messages to changes

`internal/wal/decode.go` and the decoders of `consumer.go`.  A row message names a
relation by number; the consumer decodes its tuples with the columns of the last
relation message that had this number.

`Types` is the driver's type map: the codec of a type, if the map knows the type.
A value that has no codec, or that its codec refuses, is kept as text, so a column
never fails to decode.
-/
import Tether.Wal.Change

namespace Tether.Wal

open Tether.Lib

set_option autoImplicit false

inductive WalError where
  | tupleOutOfRange (index : Nat) (schema relation : String)
  | unknownTupleKind (kind : Char) (column : String)
  | unknownRelation (id : Nat)
  | schemaDrift (schema relation : String) (id : Nat)
  deriving DecidableEq

/-- `err.Error()`. -/
def WalError.text : WalError → String
  | .tupleOutOfRange index schema relation =>
      "wal: tuple column index " ++ index.repr ++ " out of range for relation " ++ schema ++ "." ++
        relation
  | .unknownTupleKind kind column =>
      "wal: unknown tuple data type " ++ kind.quote ++ " for column " ++ quote column
  | .unknownRelation id => "wal: unknown relation id " ++ id.repr
  | .schemaDrift schema relation id =>
      "wal: schema drift detected: relation " ++ schema ++ "." ++ relation ++ " oid=" ++ id.repr

structure RelationColumn where
  name : String
  dataType : Nat
  typeModifier : Int
  flags : Nat
  deriving DecidableEq

structure RelationMessage where
  relationID : Nat
  schema : String
  relationName : String
  columns : List RelationColumn
  deriving DecidableEq

structure RelationMeta where
  schema : String
  relation : String
  fingerprint : String
  columns : List RelationColumn
  deriving DecidableEq

def fingerprintRelation (m : RelationMessage) : String :=
  "|".intercalate ([m.schema, m.relationName] ++ m.columns.flatMap fun col =>
    [col.name, col.dataType.repr, col.typeModifier.repr, col.flags.repr])

def RelationMessage.relationMeta (m : RelationMessage) : RelationMeta :=
  ⟨m.schema, m.relationName, fingerprintRelation m, m.columns⟩

/-- `kind` is `n` for NULL, `u` for an unchanged TOAST value, `t` or `b` for data. -/
structure TupleColumn where
  kind : Char
  data : String := ""
  deriving DecidableEq

abbrev Types := Nat → Option (String → Option Value)

def decodeColumnValue (types : Types) (data : String) (dataType : Nat) : Value :=
  match types dataType with
  | none => .string data
  | some codec => (codec data).getD (.string data)

/-- The loop of `decodeTuple`, at the column with number `index`. -/
def decodeColumns (types : Types) (rel : RelationMeta) :
    Nat → List TupleColumn → Row → Except WalError Row
  | _, [], out => .ok out
  | index, col :: tuple, out =>
      match rel.columns[index]? with
      | none => .error (.tupleOutOfRange index rel.schema rel.relation)
      | some column =>
          if col.kind = 'n' then
            decodeColumns types rel (index + 1) tuple (out.insert column.name .null)
          else if col.kind = 'u' then decodeColumns types rel (index + 1) tuple out
          else if col.kind = 't' ∨ col.kind = 'b' then
            decodeColumns types rel (index + 1) tuple
              (out.insert column.name (decodeColumnValue types col.data column.dataType))
          else .error (.unknownTupleKind col.kind column.name)

/-- `decodeTuple`: a nil tuple is a nil row. -/
def decodeTuple (types : Types) (rel : RelationMeta) :
    Option (List TupleColumn) → Except WalError (Option Row)
  | none => .ok none
  | some tuple => (decodeColumns types rel 0 tuple ∅).map some

inductive RowMessage where
  | insert (relationID : Nat) (new : Option (List TupleColumn))
  | update (relationID : Nat) (old new : Option (List TupleColumn))
  | delete (relationID : Nat) (old : Option (List TupleColumn))
  deriving DecidableEq

def RowMessage.relationID : RowMessage → Nat
  | .insert id _ | .update id _ _ | .delete id _ => id

/-- `decodeInsert`, `decodeUpdate` and `decodeDelete`, with the relation found. -/
def RowMessage.decode (types : Types) (rel : RelationMeta) : RowMessage → Except WalError Change
  | .insert _ new => do
      let new ← decodeTuple types rel new
      return { schema := rel.schema, table := rel.relation, op := .insert,
               relationFingerprint := rel.fingerprint, new := new }
  | .update _ old new => do
      let old ← decodeTuple types rel old
      let new ← decodeTuple types rel new
      return { schema := rel.schema, table := rel.relation, op := .update,
               relationFingerprint := rel.fingerprint, old := old, new := new }
  | .delete _ old => do
      let old ← decodeTuple types rel old
      return { schema := rel.schema, table := rel.relation, op := .delete,
               relationFingerprint := rel.fingerprint, old := old }

/-! ## When decoding fails -/

/-- The kinds `decodeTuple` knows. -/
def knownKind (kind : Char) : Bool := ['n', 'u', 't', 'b'].contains kind

variable {types : Types} {rel : RelationMeta}

/-- What one column adds to the row, if its kind is known. -/
def addColumn (types : Types) (out : Row) (column : RelationColumn) (col : TupleColumn) : Row :=
  if col.kind = 'n' then out.insert column.name .null
  else if col.kind = 'u' then out
  else out.insert column.name (decodeColumnValue types col.data column.dataType)

theorem decodeColumns_cons {index : Nat} {column : RelationColumn}
    (inside : rel.columns[index]? = some column) (col : TupleColumn) (tuple : List TupleColumn)
    (out : Row) :
    decodeColumns types rel index (col :: tuple) out =
      if knownKind col.kind then
        decodeColumns types rel (index + 1) tuple (addColumn types out column col)
      else .error (.unknownTupleKind col.kind column.name) := by
  rw [decodeColumns, inside]
  by_cases null : col.kind = 'n'
  · simp [null, knownKind, addColumn]
  · by_cases unchanged : col.kind = 'u'
    · simp [unchanged, knownKind, addColumn]
    · by_cases text : col.kind = 't' ∨ col.kind = 'b'
      · simp [null, unchanged, text, knownKind, addColumn]
      · simp [null, unchanged, text, knownKind]

/-- **When decoding fails**: at a column the relation does not have, or before that at
a kind it does not know. -/
theorem decodeColumns_error_iff (index : Nat) (tuple : List TupleColumn) (out : Row) :
    (∃ err, decodeColumns types rel index tuple out = .error err) ↔
      rel.columns.length < index + tuple.length ∧ tuple ≠ [] ∨
        ∃ i col, tuple[i]? = some col ∧ index + i < rel.columns.length ∧
          knownKind col.kind = false := by
  induction tuple generalizing index out with
  | nil => simp [decodeColumns]
  | cons col tuple ih =>
      by_cases inside : index < rel.columns.length
      · rw [decodeColumns_cons (List.getElem?_eq_getElem inside)]
        by_cases known : knownKind col.kind = true
        · have later : index + 1 + tuple.length = index + (tuple.length + 1) := by omega
          rw [if_pos known, ih, later]
          constructor
          · rintro (⟨long, -⟩ | ⟨i, c, found, bound, unknown⟩)
            · exact Or.inl ⟨long, List.cons_ne_nil _ _⟩
            · exact Or.inr ⟨i + 1, c, found, by omega, unknown⟩
          · rintro (⟨long, -⟩ | ⟨i, c, found, bound, unknown⟩)
            · refine Or.inl ⟨long, ?_⟩
              rintro rfl
              simp only [List.length_cons, List.length_nil] at long
              omega
            · cases i with
              | zero =>
                  cases found
                  rw [known] at unknown
                  cases unknown
              | succ i => exact Or.inr ⟨i, c, found, by omega, unknown⟩
        · rw [if_neg known]
          refine iff_of_true ⟨_, rfl⟩ (Or.inr ⟨0, col, rfl, inside, by simpa using known⟩)
      · have outside : rel.columns[index]? = none := List.getElem?_eq_none (by omega)
        rw [decodeColumns, outside]
        refine iff_of_true ⟨_, rfl⟩ (Or.inl ⟨?_, List.cons_ne_nil _ _⟩)
        simp only [List.length_cons]
        omega

end Tether.Wal
