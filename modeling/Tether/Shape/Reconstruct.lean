/-
# Tether.Shape.Reconstruct — the new row of an update, from what was sent of it

Postgres leaves an unchanged TOAST value out of the new tuple of an update, and
`decodeTuple` leaves its column out of the row; `patchRow` puts it back from the row
in the cache.  `Sent` says what stands for a column in a tuple: its value, or the mark
`u` if the update did not touch it.

Decoding keeps `Within`: whatever the decoded row holds is the new row's.  Over the
previous row, which has all columns, that is the new row (`patchRow_decodeTuple`).
What `Old` adds does not matter as long as it comes from the previous row: the cache
holds all of that already.
-/
import Tether.Shape.Instance
import Tether.Wal.Decode

namespace Tether.Shape

open Tether.Lib Tether.Wal

set_option autoImplicit false

variable {types : Types} {rel : RelationMeta}

/-- What the tuple has in the place of a column, when a row is updated from `b` to `a`. -/
inductive Sent (types : Types) (b a : Row) (column : RelationColumn) : TupleColumn → Prop where
  | unchanged (data : String) : a.lookup column.name = b.lookup column.name →
      Sent types b a column ⟨'u', data⟩
  | null (data : String) : a.lookup column.name = some .null → Sent types b a column ⟨'n', data⟩
  | text (data : String) :
      a.lookup column.name = some (decodeColumnValue types data column.dataType) →
      Sent types b a column ⟨'t', data⟩

/-- The row has these columns and no others. -/
def HasColumns (columns : List RelationColumn) (row : Row) : Prop :=
  ∀ name, name ∈ row ↔ name ∈ columns.map RelationColumn.name

/-- Every entry of `part` is one of `whole`. -/
def Within (part whole : Row) : Prop :=
  ∀ name v, part.lookup name = some v → whole.lookup name = some v

theorem Within.insert {part whole : Row} (within : Within part whole) {name : String} {v : Value}
    (here : whole.lookup name = some v) : Within (part.insert name v) whole := by
  intro name' v' found
  rw [KeyMap.lookup_insert_eq] at found
  split at found
  · next same =>
      cases found
      exact same ▸ here
  · exact within name' v' found

theorem Sent.known {b a : Row} {column : RelationColumn} {col : TupleColumn}
    (sent : Sent types b a column col) : knownKind col.kind = true := by
  cases sent <;> rfl

/-- A column adds the new row's value, or none because the previous row has it. -/
theorem Sent.addColumn {b a out : Row} {column : RelationColumn} {col : TupleColumn}
    (sent : Sent types b a column col) (within : Within out a) :
    Within (Wal.addColumn types out column col) a ∧
      (∀ name, name ∈ out → name ∈ Wal.addColumn types out column col) ∧
      (column.name ∈ Wal.addColumn types out column col ∨
        a.lookup column.name = b.lookup column.name) := by
  cases sent with
  | unchanged data same => exact ⟨within, fun name held => held, Or.inr same⟩
  | null data here =>
      refine ⟨within.insert here, fun name held => ?_, Or.inl ?_⟩
      · exact Finmap.mem_insert.2 (Or.inr held)
      · exact Finmap.mem_insert.2 (Or.inl rfl)
  | text data here =>
      refine ⟨within.insert here, fun name held => ?_, Or.inl ?_⟩
      · exact Finmap.mem_insert.2 (Or.inr held)
      · exact Finmap.mem_insert.2 (Or.inl rfl)

/-- The loop from column `index` on: nothing is lost, and every column is there or is
as it was. -/
theorem decodeColumns_sent {b a : Row} {columns : List RelationColumn} {tuple : List TupleColumn}
    (sent : List.Forall₂ (Sent types b a) columns tuple) (index : Nat)
    (rest : rel.columns.drop index = columns) {out : Row} (within : Within out a) :
    ∃ row, decodeColumns types rel index tuple out = .ok row ∧ Within row a ∧
      (∀ name, name ∈ out → name ∈ row) ∧
      ∀ column ∈ columns, column.name ∈ row ∨ a.lookup column.name = b.lookup column.name := by
  induction sent generalizing index out with
  | nil => exact ⟨out, rfl, within, fun name held => held, by simp⟩
  | @cons column col columns tuple first _ ih =>
      have inside : rel.columns[index]? = some column := by
        rw [← List.head?_drop, rest]
        rfl
      have later : rel.columns.drop (index + 1) = columns := by
        rw [← List.tail_drop, rest]
        rfl
      obtain ⟨within', grows, here⟩ := first.addColumn within
      obtain ⟨row, decoded, final, kept, columnsThere⟩ := ih (index + 1) later within'
      refine ⟨row, ?_, final, fun name held => kept name (grows name held), ?_⟩
      · rw [decodeColumns_cons inside, if_pos first.known, decoded]
      · exact List.forall_mem_cons.2 ⟨here.imp_left (kept _), columnsThere⟩

theorem patchRow_eq {b a neu : Row} {old : Option Row} {columns : List RelationColumn}
    (previous : HasColumns columns b) (complete : HasColumns columns a)
    (part : ∀ o ∈ old, Within o b) (within : Within neu a)
    (known : ∀ column ∈ columns, column.name ∈ neu ∨ a.lookup column.name = b.lookup column.name) :
    patchRow (some b) old (some neu) = a := by
  refine Finmap.ext_lookup fun name => ?_
  simp only [patchRow, Option.getD_some, KeyMap.lookup_union_eq]
  by_cases held : name ∈ neu
  · obtain ⟨v, found⟩ := Finmap.mem_iff.1 held
    rw [found, within name v found, Option.some_or]
  · rw [Finmap.lookup_eq_none.2 held, Option.none_or]
    by_cases column : name ∈ columns.map RelationColumn.name
    · obtain ⟨c, member, rfl⟩ := List.mem_map.1 column
      have same := (known c member).resolve_left held
      obtain ⟨v, found⟩ := Finmap.mem_iff.1 ((previous _).2 column)
      rw [same, found, Option.some_or]
    · have absent : b.lookup name = none :=
        Finmap.lookup_eq_none.2 fun h => column ((previous _).1 h)
      have absentOld : (old.getD ∅).lookup name = none := by
        cases old with
        | none => exact Finmap.lookup_empty name
        | some o =>
            by_contra present
            obtain ⟨v, found⟩ := Option.ne_none_iff_exists'.1 present
            rw [part o rfl name v found] at absent
            cases absent
      rw [absent, absentOld, Finmap.lookup_eq_none.2 fun h => column ((complete _).1 h)]
      rfl

/-- **Decoding and patching reconstruct the new row**, and decoding fails only on a
tuple that does not fit. -/
theorem patchRow_decodeTuple (types : Types) (rel : RelationMeta) :
    (∀ (b a : Row) (tuple : List TupleColumn) (old : Option Row),
        HasColumns rel.columns b → HasColumns rel.columns a →
        List.Forall₂ (Sent types b a) rel.columns tuple → (∀ o ∈ old, Within o b) →
        ∃ neu, decodeTuple types rel (some tuple) = .ok neu ∧ patchRow (some b) old neu = a) ∧
      ∀ tuple, (∃ err, decodeTuple types rel (some tuple) = .error err) ↔
        rel.columns.length < tuple.length ∨
          ∃ i col, tuple[i]? = some col ∧ i < rel.columns.length ∧
            ¬ (col.kind = 'n' ∨ col.kind = 'u' ∨ col.kind = 't' ∨ col.kind = 'b') := by
  constructor
  · intro b a tuple old previous complete sent part
    have empty : Within ∅ a := fun name v found => by
      rw [Finmap.lookup_empty] at found
      cases found
    obtain ⟨neu, decoded, within, -, known⟩ :=
      decodeColumns_sent sent 0 rfl empty
    refine ⟨some neu, by rw [decodeTuple, decoded]; rfl, ?_⟩
    exact patchRow_eq previous complete part within known
  · intro tuple
    have same : (∃ err, decodeTuple types rel (some tuple) = .error err) ↔
        ∃ err, decodeColumns types rel 0 tuple ∅ = .error err := by
      rw [decodeTuple]
      cases decodeColumns types rel 0 tuple ∅ <;> simp [Except.map]
    rw [same, decodeColumns_error_iff]
    have unknown (kind : Char) : knownKind kind = false ↔
        ¬ (kind = 'n' ∨ kind = 'u' ∨ kind = 't' ∨ kind = 'b') := by
      simp [knownKind]
    simp only [Nat.zero_add, unknown]
    refine or_congr_left (and_iff_left_of_imp fun long => ?_)
    rintro rfl
    exact absurd long (Nat.not_lt_zero _)

namespace Documents

def relation : RelationMeta where
  schema := "public"
  relation := "documents"
  fingerprint := ""
  columns := [⟨"id", 23, -1, 1⟩, ⟨"title", 25, -1, 0⟩, ⟨"note", 25, -1, 0⟩, ⟨"body", 25, -1, 0⟩]

def row (title note : Value) : Row :=
  KeyMap.ofList [("id", .string "7"), ("title", title), ("note", note), ("body", .string "long")]

/-- The body is a TOAST value that the update did not touch. -/
def tuple : List TupleColumn := [⟨'t', "7"⟩, ⟨'t', "new"⟩, ⟨'n', ""⟩, ⟨'u', ""⟩]

theorem hasColumns_row (title note : Value) : HasColumns relation.columns (row title note) := by
  intro name
  rw [← Finmap.lookup_isSome, row]
  simp only [KeyMap.lookup_ofList_cons, KeyMap.lookup_ofList_nil]
  split_ifs <;> simp_all [relation]

theorem patchRow_decodeTuple_documents :
    ∃ neu, decodeTuple (fun _ => none) relation (some tuple) = .ok neu ∧
      patchRow (some (row (.string "old") (.string "x")))
        (some (KeyMap.ofList [("id", .string "7")])) neu = row (.string "new") .null := by
  refine (patchRow_decodeTuple (fun _ => none) relation).1 (row (.string "old") (.string "x")) _
    tuple _ (hasColumns_row _ _) (hasColumns_row _ _) ?_ ?_
  · exact .cons (.text "7" (by decide)) (.cons (.text "new" (by decide))
      (.cons (.null "" (by decide)) (.cons (.unchanged "" (by decide)) .nil)))
  · intro o here name v found
    obtain rfl := Option.some.inj here
    rw [KeyMap.lookup_ofList_cons, KeyMap.lookup_ofList_nil] at found
    rw [row, KeyMap.lookup_ofList_cons]
    split_ifs at found ⊢ with id
    exact found

end Documents

end Tether.Shape
