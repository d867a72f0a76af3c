/-
# Tether.Shape.ParseWhere — the WHERE text a server hands to a shape

`ParseWhere` (`internal/shape/filter.go`) cuts the clause at ` AND `, recognises a
fragment by its end or by an operator in it, and takes one argument per comparison.
The positions come from an upper-cased copy of the text and are used on the text
itself; where the copy has another length a slice can be out of range, and the
function panics.

What a filter owes to having been parsed is `parseWhere_ok`: it has a predicate, and
every column is a valid identifier.
-/
import Tether.Lib.GoString
import Tether.Shape.Filter

namespace Tether.Shape

open Tether.Lib Tether.Wal

set_option autoImplicit false

inductive WhereError where
  | emptyClause
  | unsupportedRight (part : GoString)
  | unsupported (part : GoString)
  | emptyColumn
  | invalidIdentifier (name : List Char)
  | notEnoughArgs
  | tooManyArgs
  | emptyFilter
  deriving DecidableEq

def WhereError.text : WhereError → String
  | .emptyClause => "shape: empty where clause"
  | .unsupportedRight part =>
      "shape: unsupported where fragment " ++ quoted part ++ " (only ? placeholders)"
  | .unsupported part => "shape: unsupported where fragment " ++ quoted part
  | .emptyColumn => "shape: empty column name"
  | .invalidIdentifier name => "shape: invalid column identifier " ++ quote (String.ofList name)
  | .notEnoughArgs => "shape: not enough args for where clause"
  | .tooManyArgs => "shape: too many args for where clause"
  | .emptyFilter => "shape: empty filter"
where
  quoted (part : GoString) : String := quote (String.ofList (part.runes.map Prod.fst))

inductive Failure where
  | error (e : WhereError)
  /-- A slice out of range. -/
  | panics
  deriving DecidableEq

variable (u : Unicode)

/-- `validateIdent`, on the characters that `range` finds in the name. -/
def validateIdent (name : List Char) : Except WhereError Unit :=
  if name = [] then .error .emptyColumn
  else if name.zipIdx.all fun (r, i) =>
      u.isLetter r || r == '_' || (decide (0 < i) && u.isDigit r) then .ok ()
  else .error (.invalidIdentifier name)

/-- The characters of a name that was cut out of the text. -/
def columnOf (name : GoString) : List Char := name.runes.map Prod.fst

/-- The operators are tried in this order, each at its first occurrence. -/
def parseComparison (part : GoString) : Except WhereError (List Char × PredOp) :=
  let candidates : List (GoString × PredOp) :=
    [(.ofString "!=", .ne), (.ofString "<>", .ne), (.ofString "=", .eq)]
  let found := candidates.findSome? fun (sep, op) => (part.index sep).map fun i => (i, sep, op)
  match found with
  | none => .error (.unsupported part)
  | some (i, sep, op) =>
      let col := columnOf (GoString.trimSpace u (part.take i))
      let rhs := GoString.trimSpace u (part.drop (i + sep.length))
      if rhs ≠ .ofString "?" then .error (.unsupportedRight part)
      else (validateIdent u col).map fun _ => (col, op)

/-- The loop of `splitAND`: `upper` is what is left of the upper-cased clause from
byte `start` on. -/
def splitFrom (clause upper : GoString) (start : Nat) : Option (List GoString) :=
  match found : upper.index (.ofString " AND ") with
  | none => (clause.slice start clause.length).map fun part => [part]
  | some i =>
      (clause.slice start (start + i)).bind fun part =>
        (splitFrom clause (upper.drop (i + 5)) (start + i + 5)).map (part :: ·)
termination_by upper.length
decreasing_by
  have := GoString.index_add_le found
  have : (GoString.ofString " AND ").length = 5 := by decide
  simp only [List.length_drop]
  omega

def splitAND (clause : GoString) : Option (List GoString) :=
  splitFrom clause (clause.toUpper u) 0

/-- A null test: everything before the last `length` bytes is the column. -/
def parseNullTest (part : GoString) (length : Nat) (op : PredOp) : Except Failure Predicate :=
  match part.slice 0 (part.length - length) with
  | none => .error .panics
  | some name =>
      let col := columnOf (GoString.trimSpace u name)
      match validateIdent u col with
      | .error e => .error (.error e)
      | .ok () => .ok { column := String.ofList col, op }

/-- One fragment, with the arguments that are left before and after it. -/
def parsePart (part : GoString) (args : List Value) : Except Failure (Predicate × List Value) :=
  let part := part.trimSpace u
  let upper := part.toUpper u
  if upper.hasSuffix (.ofString " IS NOT NULL") then
    (parseNullTest u part 12 .isNotNull).map fun p => (p, args)
  else if upper.hasSuffix (.ofString " IS NULL") then
    (parseNullTest u part 8 .isNull).map fun p => (p, args)
  else
    match parseComparison u part, args with
    | .error e, _ => .error (.error e)
    | .ok _, [] => .error (.error .notEnoughArgs)
    | .ok (col, op), value :: rest => .ok ({ column := String.ofList col, op, value }, rest)

def parseParts : List GoString → List Value → Except Failure (List Predicate × List Value)
  | [], args => .ok ([], args)
  | part :: parts, args =>
      match parsePart u part args with
      | .error e => .error e
      | .ok (p, rest) => (parseParts parts rest).map fun (ps, left) => (p :: ps, left)

def parseWhere (clause : GoString) (args : List Value) : Except Failure Filter :=
  let clause := clause.trimSpace u
  if clause = [] then .error (.error .emptyClause)
  else
    match splitAND u clause with
    | none => .error .panics
    | some parts =>
        match parseParts u parts args with
        | .error e => .error e
        | .ok (_, _ :: _) => .error (.error .tooManyArgs)
        | .ok (preds, []) => .ok ⟨preds⟩

/-! ## Filters that were parsed -/

variable {u}

theorem splitFrom_ne_nil {clause upper : GoString} {start : Nat} {parts : List GoString}
    (split : splitFrom clause upper start = some parts) : parts ≠ [] := by
  rw [splitFrom] at split
  split at split
  · obtain ⟨part, -, rfl⟩ := Option.map_eq_some_iff.1 split
    simp
  · obtain ⟨part, -, rest⟩ := Option.bind_eq_some_iff.1 split
    obtain ⟨parts, -, rfl⟩ := Option.map_eq_some_iff.1 rest
    simp

theorem parseNullTest_ok {part : GoString} {length : Nat} {op : PredOp} {p : Predicate}
    (parsed : parseNullTest u part length op = .ok p) :
    ∃ name, part.slice 0 (part.length - length) = some name ∧
      validateIdent u (columnOf (name.trimSpace u)) = .ok () ∧
      p = { column := String.ofList (columnOf (name.trimSpace u)), op } := by
  simp only [parseNullTest] at parsed
  split at parsed
  · cases parsed
  · next name cut =>
      split at parsed
      · cases parsed
      · next valid =>
          cases parsed
          exact ⟨name, cut, valid, rfl⟩

/-- The operators of `parseComparison`, in the order they are tried. -/
def comparisons : List (GoString × PredOp) :=
  [(.ofString "!=", .ne), (.ofString "<>", .ne), (.ofString "=", .eq)]

theorem parseComparison_ok {part : GoString} {col : List Char} {op : PredOp}
    (parsed : parseComparison u part = .ok (col, op)) :
    ∃ i sep, (sep, op) ∈ comparisons ∧ part.index sep = some i ∧
      col = columnOf (GoString.trimSpace u (part.take i)) ∧
      GoString.trimSpace u (part.drop (i + sep.length)) = .ofString "?" ∧
      validateIdent u col = .ok () := by
  simp only [parseComparison] at parsed
  split at parsed
  · cases parsed
  · next i sep op' found =>
      split at parsed
      · cases parsed
      · next placeholder =>
          obtain ⟨⟨sep', op''⟩, member, located⟩ := List.exists_of_findSome?_eq_some found
          obtain ⟨i', index, same⟩ := Option.map_eq_some_iff.1 located
          cases same
          revert parsed
          cases valid : validateIdent u _ with
          | error e =>
              intro parsed
              cases parsed
          | ok none =>
              intro parsed
              cases parsed
              exact ⟨_, _, member, index, rfl, not_not.1 placeholder, valid⟩

/-- The endings of a null test, in the order they are tried. -/
def nullTests : List (GoString × PredOp) :=
  [(.ofString " IS NOT NULL", .isNotNull), (.ofString " IS NULL", .isNull)]

/-- What a parsed fragment was, with the arguments it was given and those it left. -/
inductive ParsedPart (u : Unicode) (part : GoString) (args : List Value) :
    Predicate → List Value → Prop where
  | nullTest {name suffix : GoString} {op : PredOp} :
      (suffix, op) ∈ nullTests →
      ((part.trimSpace u).toUpper u).hasSuffix suffix = true →
      (part.trimSpace u).slice 0 ((part.trimSpace u).length - suffix.length) = some name →
      validateIdent u (columnOf (name.trimSpace u)) = .ok () →
      ParsedPart u part args
        { column := String.ofList (columnOf (name.trimSpace u)), op } args
  | comparison {i : Nat} {sep : GoString} {op : PredOp} {value : Value} {rest : List Value} :
      (sep, op) ∈ comparisons → (part.trimSpace u).index sep = some i →
      GoString.trimSpace u ((part.trimSpace u).drop (i + sep.length)) = .ofString "?" →
      validateIdent u (columnOf (GoString.trimSpace u ((part.trimSpace u).take i))) = .ok () →
      args = value :: rest →
      ParsedPart u part args
        { column := String.ofList (columnOf (GoString.trimSpace u ((part.trimSpace u).take i))),
          op, value } rest

theorem parsePart_ok {part : GoString} {args rest : List Value} {p : Predicate}
    (parsed : parsePart u part args = .ok (p, rest)) : ParsedPart u part args p rest := by
  have nullTest {suffix : GoString} {op : PredOp}
      (kind : (suffix, op) ∈ nullTests)
      (ends : ((part.trimSpace u).toUpper u).hasSuffix suffix = true)
      (parsed : (parseNullTest u (part.trimSpace u) suffix.length op).map (fun p => (p, args)) =
        .ok (p, rest)) : ParsedPart u part args p rest := by
    cases tested : parseNullTest u (part.trimSpace u) suffix.length op with
    | error e =>
        rw [tested] at parsed
        cases parsed
    | ok q =>
        rw [tested] at parsed
        cases parsed
        obtain ⟨name, cut, valid, rfl⟩ := parseNullTest_ok tested
        exact .nullTest kind ends cut valid
  simp only [parsePart] at parsed
  split at parsed
  · next ends => exact nullTest List.mem_cons_self ends parsed
  · split at parsed
    · next ends => exact nullTest (List.mem_cons_of_mem _ List.mem_cons_self) ends parsed
    · split at parsed
      · cases parsed
      · cases parsed
      · next compared =>
          cases parsed
          obtain ⟨i, sep, member, index, rfl, placeholder, valid⟩ := parseComparison_ok compared
          exact .comparison member index placeholder valid rfl

theorem ParsedPart.valid {part : GoString} {args rest : List Value} {p : Predicate}
    (parsed : ParsedPart u part args p rest) : validateIdent u p.column.toList = .ok () := by
  cases parsed with
  | nullTest _ _ _ valid | comparison _ _ _ valid _ => rwa [String.toList_ofList]

/-- What the loop of `ParseWhere` has made of the fragments. -/
inductive ParsedParts (u : Unicode) :
    List GoString → List Value → List Predicate → List Value → Prop where
  | nil {args : List Value} : ParsedParts u [] args [] args
  | cons {part : GoString} {parts : List GoString} {args left rest : List Value} {p : Predicate}
      {ps : List Predicate} : ParsedPart u part args p left → ParsedParts u parts left ps rest →
      ParsedParts u (part :: parts) args (p :: ps) rest

theorem parseParts_ok {parts : List GoString} {args rest : List Value} {ps : List Predicate}
    (parsed : parseParts u parts args = .ok (ps, rest)) : ParsedParts u parts args ps rest := by
  induction parts generalizing args ps with
  | nil =>
      cases parsed
      exact .nil
  | cons part parts ih =>
      simp only [parseParts] at parsed
      split at parsed
      · cases parsed
      · next p left first =>
          cases later : parseParts u parts left with
          | error e =>
              rw [later] at parsed
              cases parsed
          | ok result =>
              rw [later] at parsed
              cases parsed
              exact .cons (parsePart_ok first) (ih later)

theorem ParsedParts.valid {parts : List GoString} {args rest : List Value} {ps : List Predicate}
    (parsed : ParsedParts u parts args ps rest) :
    ps.length = parts.length ∧ ∀ p ∈ ps, validateIdent u p.column.toList = .ok () := by
  induction parsed with
  | nil => simp
  | cons first _ ih =>
      exact ⟨congrArg (· + 1) ih.1, List.forall_mem_cons.2 ⟨first.valid, ih.2⟩⟩

theorem parseWhere_parts {clause : GoString} {args : List Value} {f : Filter}
    (parsed : parseWhere u clause args = .ok f) :
    ∃ parts, splitAND u (clause.trimSpace u) = some parts ∧
      ParsedParts u parts args f.preds [] := by
  simp only [parseWhere] at parsed
  split at parsed
  · cases parsed
  · split at parsed
    · cases parsed
    · next parts split =>
        split at parsed
        · cases parsed
        · cases parsed
        · next preds all =>
            cases parsed
            exact ⟨parts, split, parseParts_ok all⟩

/-- A parsed filter has a predicate, and valid columns. -/
theorem parseWhere_ok {clause : GoString} {args : List Value} {f : Filter}
    (parsed : parseWhere u clause args = .ok f) :
    f.preds ≠ [] ∧ ∀ p ∈ f.preds, validateIdent u p.column.toList = .ok () := by
  obtain ⟨parts, split, all⟩ := parseWhere_parts parsed
  obtain ⟨length, valid⟩ := all.valid
  refine ⟨fun empty => splitFrom_ne_nil split ?_, valid⟩
  rw [empty] at length
  exact List.length_eq_zero_iff.1 length.symm

end Tether.Shape
