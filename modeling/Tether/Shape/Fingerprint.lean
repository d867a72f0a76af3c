/-
# Tether.Shape.Fingerprint — what a relation fingerprint tells about a schema

`fingerprintRelation` joins schema, relation and four fields per column with `|`; the
consumer and the shapes compare nothing else to notice a changed schema.  The numbers
among the fields hold no `|`, the names may: a quoted identifier can be any text.  On
messages whose names are free of `|` the fingerprint is exact (`fingerprint_eq_iff`): the
fields can be read back from the text, and the columns from the fields.  With a `|` in a
name it never is (`collides_of_not_plainNames`).
-/
import Tether.Lib.Joined
import Tether.Shape.Drift
import Tether.Shape.RowIdentity
import Tether.Wal.Consumer

namespace Tether.Shape

open Tether.Lib Tether.Wal

set_option autoImplicit false

/-- The messages describe one schema. -/
def SameSchema (m m' : RelationMessage) : Prop :=
  m.schema = m'.schema ∧ m.relationName = m'.relationName ∧ m.columns = m'.columns

instance (m m' : RelationMessage) : Decidable (SameSchema m m') :=
  inferInstanceAs (Decidable (_ ∧ _ ∧ _))

/-- No name holds a separator. -/
def PlainNames (m : RelationMessage) : Prop :=
  '|' ∉ m.schema.toList ∧ '|' ∉ m.relationName.toList ∧ ∀ col ∈ m.columns, '|' ∉ col.name.toList

instance (m : RelationMessage) : Decidable (PlainNames m) :=
  inferInstanceAs (Decidable (_ ∧ _ ∧ ∀ col ∈ m.columns, _))

/-! ## The fields of a fingerprint -/

def columnFields (col : RelationColumn) : List (List Char) :=
  [col.name.toList, col.dataType.repr.toList, col.typeModifier.repr.toList, col.flags.repr.toList]

def fields (m : RelationMessage) : List (List Char) :=
  m.schema.toList :: m.relationName.toList :: m.columns.flatMap columnFields

theorem toList_fingerprintRelation (m : RelationMessage) :
    (fingerprintRelation m).toList = ['|'].intercalate (fields m) := by
  rw [fingerprintRelation, String.toList_intercalate, List.map_append, List.map_flatMap]
  rfl

theorem separator_not_mem_natRepr (n : Nat) : '|' ∉ n.repr.toList :=
  separator_not_numeric (Float64.numeric_intRepr n)

theorem columnFields_free {col : RelationColumn} (free : '|' ∉ col.name.toList) :
    ∀ field ∈ columnFields col, '|' ∉ field := by
  simp only [columnFields, List.forall_mem_cons]
  exact ⟨free, separator_not_mem_natRepr _, separator_not_numeric (Float64.numeric_intRepr _),
    separator_not_mem_natRepr _, fun field absent => absurd absent List.not_mem_nil⟩

theorem fields_free {m : RelationMessage} (plain : PlainNames m) :
    ∀ field ∈ fields m, '|' ∉ field := by
  obtain ⟨schema, relation, columns⟩ := plain
  refine List.forall_mem_cons.2 ⟨schema, List.forall_mem_cons.2 ⟨relation, ?_⟩⟩
  intro field member
  obtain ⟨col, here, inside⟩ := List.mem_flatMap.1 member
  exact columnFields_free (columns col here) field inside

theorem columnFields_inj {col col' : RelationColumn} (same : columnFields col = columnFields col') :
    col = col' := by
  simp only [columnFields, List.cons.injEq, String.toList_inj, and_true] at same
  obtain ⟨name, dataType, typeModifier, flags⟩ := same
  have unsigned {n n' : Nat} (same : n.repr = n'.repr) : n = n' :=
    Int.ofNat.inj (Float64.intRepr_inj (n := n) (m := n') same)
  cases col
  cases col'
  rw [RelationColumn.mk.injEq]
  exact ⟨name, unsigned dataType, Float64.intRepr_inj typeModifier, unsigned flags⟩

theorem length_columnFields (col : RelationColumn) : (columnFields col).length = 4 := rfl

/-- Four fields a column: the lists are cut where the columns are. -/
theorem flatMap_columnFields_inj {cols cols' : List RelationColumn}
    (same : cols.flatMap columnFields = cols'.flatMap columnFields) : cols = cols' := by
  induction cols generalizing cols' with
  | nil =>
      cases cols' with
      | nil => rfl
      | cons col' cols' => cases same
  | cons col cols ih =>
      cases cols' with
      | nil => cases same
      | cons col' cols' =>
          rw [List.flatMap_cons, List.flatMap_cons] at same
          have lengths := (length_columnFields col).trans (length_columnFields col').symm
          obtain ⟨first, rest⟩ := List.append_inj same lengths
          rw [columnFields_inj first, ih rest]

theorem fields_inj {m m' : RelationMessage} (same : fields m = fields m') : SameSchema m m' := by
  obtain ⟨schema, tail⟩ := List.cons.inj same
  obtain ⟨relation, columns⟩ := List.cons.inj tail
  exact ⟨String.toList_inj.1 schema, String.toList_inj.1 relation, flatMap_columnFields_inj columns⟩

theorem fingerprint_congr {m m' : RelationMessage} (same : SameSchema m m') :
    fingerprintRelation m = fingerprintRelation m' := by
  obtain ⟨schema, relation, columns⟩ := same
  rw [fingerprintRelation, fingerprintRelation, schema, relation, columns]

theorem fingerprint_eq_iff {m m' : RelationMessage} (plain : PlainNames m)
    (plain' : PlainNames m') :
    fingerprintRelation m = fingerprintRelation m' ↔ SameSchema m m' := by
  refine ⟨fun same => fields_inj ?_, fingerprint_congr⟩
  have joined := congrArg String.toList same
  rw [toList_fingerprintRelation, toList_fingerprintRelation] at joined
  exact join_inj (List.cons_ne_nil _ _) (List.cons_ne_nil _ _) (fields_free plain)
    (fields_free plain') joined

/-- Schema and relation are there at least, so there is a separator. -/
theorem fingerprint_ne_empty (m : RelationMessage) : fingerprintRelation m ≠ "" := by
  intro empty
  have joined := congrArg (fun text => text.toList.length) empty
  simp only [toList_fingerprintRelation, fields, length_join, List.length_cons] at joined
  simp at joined

/-! ## Who compares fingerprints -/

theorem handleRelation_drift_iff {c : Consumer} {m m' : RelationMessage} (plain : PlainNames m)
    (plain' : PlainNames m') (known : c.rels.lookup m'.relationID = some m.relationMeta) :
    c.handleRelation m' = .error (.schemaDrift m'.schema m'.relationName m'.relationID) ↔
      ¬ SameSchema m m' := by
  rw [← fingerprint_eq_iff plain plain']
  simp only [Consumer.handleRelation, known, RelationMessage.relationMeta]
  split_ifs with differs
  · exact iff_of_true rfl differs
  · refine iff_of_false (fun refused => ?_) differs
    cases refused

theorem checkFingerprint_drift_iff {C : Type} {inst : Instance C} {m m' : RelationMessage}
    (plain : PlainNames m) (plain' : PlainNames m')
    (known : inst.fingerprint = fingerprintRelation m) :
    inst.checkFingerprint (fingerprintRelation m') = .error (.schemaDrift inst.defn.name) ↔
      ¬ SameSchema m m' := by
  rw [← fingerprint_eq_iff plain plain']
  simp only [Instance.checkFingerprint, known, fingerprint_ne_empty, if_false]
  split_ifs with differs
  · exact iff_of_true rfl differs
  · refine iff_of_false (fun refused => ?_) differs
    cases refused

/-- Over a whole run: the shape is live exactly as long as all changes that reached it
were of one schema. -/
theorem live_iff_one_schema {C : Type} {d : Definition C} {f : Filter} {calls : List Call}
    {messages : List RelationMessage} (plain : ∀ m ∈ messages, PlainNames m)
    (stamped : (Instance.start d f).reached calls = messages.map fingerprintRelation) :
    ((Instance.start d f).run calls).log.halted = none ↔
      ∀ m ∈ messages, ∀ m' ∈ messages, SameSchema m m' := by
  have halted := (Instance.tracks_run d f calls).halted
  rw [stamped] at halted
  have uniform : Instance.Uniform (messages.map fingerprintRelation) ↔
      ∀ m ∈ messages, ∀ m' ∈ messages, SameSchema m m' := by
    cases messages with
    | nil => simp [Instance.Uniform]
    | cons first messages =>
        have head := plain first List.mem_cons_self
        constructor
        · intro same m member m' member'
          have here {m : RelationMessage} (member : m ∈ first :: messages) : SameSchema m first :=
            (fingerprint_eq_iff (plain m member) head).1
              (same _ (List.mem_map_of_mem member))
          obtain ⟨schema, relation, columns⟩ := here member
          obtain ⟨schema', relation', columns'⟩ := here member'
          exact ⟨schema.trans schema'.symm, relation.trans relation'.symm,
            columns.trans columns'.symm⟩
        · intro one fp member
          obtain ⟨m, here, rfl⟩ := List.mem_map.1 member
          exact fingerprint_congr (one m here first List.mem_cons_self)
  rw [halted, ← uniform]
  by_cases same : Instance.Uniform (messages.map fingerprintRelation)
  · exact iff_of_true (if_pos same) same
  · rw [if_neg same]
    exact iff_of_false (Option.some_ne_none _) same

/-! ## Names that hold a separator -/

/-- The fingerprints tell whether the schemas differ, and both tests do. -/
structure Detects (m m' : RelationMessage) : Prop where
  fingerprint : fingerprintRelation m = fingerprintRelation m' ↔ SameSchema m m'
  consumer : ∀ c : Consumer, c.rels.lookup m'.relationID = some m.relationMeta →
    (c.handleRelation m' = .error (.schemaDrift m'.schema m'.relationName m'.relationID) ↔
      ¬ SameSchema m m')
  shapes : ∀ (C : Type) (inst : Instance C), inst.fingerprint = fingerprintRelation m →
    (inst.checkFingerprint (fingerprintRelation m') = .error (.schemaDrift inst.defn.name) ↔
      ¬ SameSchema m m')

theorem detects_of_plainNames {m m' : RelationMessage} (plain : PlainNames m)
    (plain' : PlainNames m') : Detects m m' :=
  ⟨fingerprint_eq_iff plain plain', fun _ known => handleRelation_drift_iff plain plain' known,
    fun _ _ known => checkFingerprint_drift_iff plain plain' known⟩

namespace Prices

def relation (columns : List RelationColumn) : RelationMessage :=
  ⟨16384, "public", "prices", columns⟩

/-- A column was added: the consumer notices. -/
example : ({ rels := KeyMap.ofList [(16384, (relation [⟨"a", 23, -1, 0⟩]).relationMeta)] } :
      Consumer).handleRelation (relation [⟨"a", 23, -1, 0⟩, ⟨"b", 23, -1, 0⟩]) =
    .error (.schemaDrift "public" "prices" 16384) :=
  have detects : Detects (relation [⟨"a", 23, -1, 0⟩])
      (relation [⟨"a", 23, -1, 0⟩, ⟨"b", 23, -1, 0⟩]) :=
    detects_of_plainNames (by decide) (by decide)
  (detects.consumer _ (by decide)).2 (by decide)

end Prices

theorem fingerprint_eq_of_join {m m' : RelationMessage}
    (same : ['|'].intercalate (fields m) = ['|'].intercalate (fields m')) :
    fingerprintRelation m = fingerprintRelation m' := by
  rw [← String.toList_inj, toList_fingerprintRelation, toList_fingerprintRelation, same]

theorem append_cons_ne_self (a b : List Char) (c : Char) : a ++ c :: b ≠ a := by
  intro same
  have lengths := congrArg List.length same
  rw [List.length_append, List.length_cons] at lengths
  omega

theorem join_pair (a b : List Char) : ['|'].intercalate [a, b] = a ++ '|' :: b := by
  rw [join_cons a (List.cons_ne_nil b []), List.intercalate_singleton]

/-- A separator in the schema's name: what follows it can be the relation's. -/
theorem schema_collides {m : RelationMessage} {a b : List Char}
    (held : m.schema.toList = a ++ '|' :: b) :
    ∃ m', ¬ SameSchema m m' ∧ fingerprintRelation m = fingerprintRelation m' := by
  refine ⟨{ m with
    schema := String.ofList a
    relationName := String.ofList (b ++ '|' :: m.relationName.toList) }, ?_, ?_⟩
  · rintro ⟨schema, -⟩
    rw [schema, String.toList_ofList] at held
    exact append_cons_ne_self a b '|' held.symm
  · apply fingerprint_eq_of_join
    simp only [fields, held, String.toList_ofList, ← join_pair]
    exact (join_nested _ [] (List.cons_ne_nil a [b]) _).trans
      (join_nested _ [a] (List.cons_ne_nil b [m.relationName.toList]) _).symm

/-- A separator in the relation's name: what stands before it can be the schema's. -/
theorem relation_collides {m : RelationMessage} {a b : List Char}
    (held : m.relationName.toList = a ++ '|' :: b) :
    ∃ m', ¬ SameSchema m m' ∧ fingerprintRelation m = fingerprintRelation m' := by
  refine ⟨{ m with
    schema := String.ofList (m.schema.toList ++ '|' :: a)
    relationName := String.ofList b }, ?_, ?_⟩
  · rintro ⟨schema, -⟩
    have same := congrArg String.toList schema
    rw [String.toList_ofList] at same
    exact append_cons_ne_self _ a '|' same.symm
  · apply fingerprint_eq_of_join
    simp only [fields, held, String.toList_ofList, ← join_pair]
    exact (join_nested _ [m.schema.toList] (List.cons_ne_nil a [b]) _).trans
      (join_nested _ [] (List.cons_ne_nil m.schema.toList [a]) _).symm

/-- A separator in a column's name: the columns up to it can be the relation's name. -/
theorem column_collides {m : RelationMessage} {col : RelationColumn} (member : col ∈ m.columns)
    {a b : List Char} (held : col.name.toList = a ++ '|' :: b) :
    ∃ m', ¬ SameSchema m m' ∧ fingerprintRelation m = fingerprintRelation m' := by
  obtain ⟨before, after, columns⟩ := List.append_of_mem member
  have nonempty : before.flatMap columnFields ++ [a] ≠ [] :=
    List.append_ne_nil_of_right_ne_nil _ (List.cons_ne_nil a [])
  refine ⟨{ m with
    relationName := String.ofList
      (['|'].intercalate (m.relationName.toList :: (before.flatMap columnFields ++ [a])))
    columns := { col with name := String.ofList b } :: after }, ?_, ?_⟩
  · rintro ⟨-, relation, -⟩
    have same := congrArg String.toList relation
    rw [String.toList_ofList, join_cons _ nonempty] at same
    exact append_cons_ne_self _ _ '|' same.symm
  · apply fingerprint_eq_of_join
    have left := join_nested '|'
      (m.schema.toList :: m.relationName.toList :: before.flatMap columnFields)
      (List.cons_ne_nil a [b]) ((columnFields col).tail ++ after.flatMap columnFields)
    have right := join_nested '|' [m.schema.toList]
      (List.cons_ne_nil m.relationName.toList (before.flatMap columnFields ++ [a]))
      (b :: ((columnFields col).tail ++ after.flatMap columnFields))
    rw [join_pair, ← held] at left
    simp only [columnFields, List.tail_cons] at left right
    simp only [fields, columns, List.flatMap_append, List.flatMap_cons, columnFields,
      String.toList_ofList]
    refine left.trans (Eq.trans ?_ right.symm)
    simp only [List.cons_append, List.nil_append, List.append_assoc]

theorem collides_of_not_plainNames {m : RelationMessage} (held : ¬ PlainNames m) :
    ∃ m', ¬ SameSchema m m' ∧ fingerprintRelation m = fingerprintRelation m' := by
  by_contra apart
  refine held ⟨fun member => ?_, fun member => ?_, fun col here member => ?_⟩
  · obtain ⟨a, b, split⟩ := List.append_of_mem member
    exact apart (schema_collides split)
  · obtain ⟨a, b, split⟩ := List.append_of_mem member
    exact apart (relation_collides split)
  · obtain ⟨a, b, split⟩ := List.append_of_mem member
    exact apart (column_collides here split)

/-- The names are texts of permitted characters, and none is empty. -/
def NamesIn (permitted : Set Char) (m : RelationMessage) : Prop :=
  ∀ name ∈ m.schema :: m.relationName :: m.columns.map (·.name),
    name ≠ "" ∧ ∀ c ∈ name.toList, c ∈ permitted

theorem NamesIn.plainNames {permitted : Set Char} {m : RelationMessage}
    (names : NamesIn permitted m) (absent : '|' ∉ permitted) : PlainNames m := by
  obtain ⟨schema, rest⟩ := List.forall_mem_cons.1 names
  obtain ⟨relation, columns⟩ := List.forall_mem_cons.1 rest
  exact ⟨fun held => absent (schema.2 _ held), fun held => absent (relation.2 _ held),
    fun col member held => absent ((columns _ (List.mem_map_of_mem member)).2 _ held)⟩

/-- **Fingerprints are exact where names hold no separator, and only there.**  Over names of
permitted characters, fingerprints and the two tests for a changed schema are right for any
two messages exactly if `|` is not permitted; and every message that has a `|` in a name has
the fingerprint of another schema. -/
theorem fingerprint_exact_iff (permitted : Set Char) :
    ((∀ m m', NamesIn permitted m → NamesIn permitted m' → Detects m m') ↔ '|' ∉ permitted) ∧
      ∀ m, ¬ PlainNames m →
        ∃ m', ¬ SameSchema m m' ∧ fingerprintRelation m = fingerprintRelation m' := by
  refine ⟨⟨fun exact bar => ?_, fun absent m m' names names' => ?_⟩,
    fun m held => collides_of_not_plainNames held⟩
  · -- three separators after one another can be cut in two places
    have names : NamesIn permitted ⟨16384, "|", "||", []⟩ ∧
        NamesIn permitted ⟨16384, "||", "|", []⟩ := by
      simp [NamesIn, bar]
    have same : fingerprintRelation ⟨16384, "|", "||", []⟩ =
        fingerprintRelation ⟨16384, "||", "|", []⟩ := by
      decide +kernel
    exact absurd ((exact _ _ names.1 names.2).fingerprint.1 same) (by decide)
  · exact detects_of_plainNames (names.plainNames absent) (names'.plainNames absent)

namespace Prices

/-- One column with `|` in its name becomes two columns: nobody notices, and the rows
that follow are decoded with the new columns. -/
theorem fingerprint_collides :
    let before := relation [⟨"a|23|-1|0|b", 23, -1, 0⟩]
    let after := relation [⟨"a", 23, -1, 0⟩, ⟨"b", 23, -1, 0⟩]
    ¬ SameSchema before after ∧ fingerprintRelation before = fingerprintRelation after ∧
      (∀ c : Consumer, c.rels.lookup 16384 = some before.relationMeta →
        ∃ c', c.handleRelation after = .ok c') ∧
      ∀ (C : Type) (inst : Instance C), inst.fingerprint = fingerprintRelation before →
        inst.checkFingerprint (fingerprintRelation after) = .ok inst := by
  have collide : fingerprintRelation (relation [⟨"a|23|-1|0|b", 23, -1, 0⟩]) =
      fingerprintRelation (relation [⟨"a", 23, -1, 0⟩, ⟨"b", 23, -1, 0⟩]) := by
    decide +kernel
  refine ⟨by decide, collide, fun c known => ?_, fun C inst known => ?_⟩
  · rw [relation] at known
    simp only [Consumer.handleRelation, relation, known, RelationMessage.relationMeta]
    rw [relation] at collide
    exact ⟨_, if_neg (not_not.2 collide)⟩
  · rw [← collide, Instance.checkFingerprint, if_neg (fingerprint_ne_empty _),
      if_neg (known ▸ fingerprint_ne_empty _), if_neg (not_not.2 known)]

end Prices

end Tether.Shape
