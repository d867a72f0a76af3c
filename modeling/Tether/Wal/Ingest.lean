/-
# Tether.Wal.Ingest — what `Run` makes of the messages of a publication

The source database is one map from table and primary key to row.  A transaction
mutates it row by row and may truncate tables; pgoutput sends a message for each of
these, in order, after it announced the relations, and the consumer turns them into
the changes it persists.

`replay` is what a reader of the changes does: an insert stores the row, an update
moves and patches the row it names by the old key, a delete removes it.

Every row message decodes to a change that replays as the mutation it was sent for
(`replay_decoded`).  `Run` has no case for a truncate message, so the law holds for a
run as long as truncates find their tables empty (`replay_persisted`), and a truncate
that removes rows can break it (`Tasks.truncate_lost`).
-/
import Tether.Lib.Machine
import Tether.Wal.Consumer

namespace Tether.Ingest

open Tether.Lib Tether.Wal

set_option autoImplicit false

/-- A schema and a table in it. -/
abbrev TableName := String × String

abbrev Key := List (Option Value)

abbrev Contents := KeyMap (TableName × Key) Row

/-- A row mutation, with the complete rows. -/
inductive Mutation where
  | insert (row : Row)
  | update (before after : Row)
  | delete (before : Row)
  deriving DecidableEq

/-- The messages pgoutput sends for a publication of all four kinds of changes. -/
inductive Message where
  | relation (m : RelationMessage)
  | begin (xid : Nat)
  | row (m : RowMessage)
  | truncate (relationIDs : List Nat)
  | commit (commitLSN transactionEndLSN : LSN)
  /-- Types, origins and logical messages, which change no row. -/
  | other
  deriving DecidableEq

/-- The case of `Run`'s switch a message is for. -/
def Message.logical : Message → LogicalMessage
  | .relation m => .relation m
  | .begin xid => .begin xid
  | .row m => .row m
  | .truncate _ | .other => .other
  | .commit commitLSN transactionEndLSN => .commit commitLSN transactionEndLSN

def nameOf (rel : RelationMessage) : TableName := (rel.schema, rel.relationName)

section Tables

-- the primary key of each table
variable (pk : TableName → List String)

def keyOf (t : TableName) (row : Row) : TableName × Key := (t, (pk t).map fun col => row.lookup col)

/-! ## The source database and its changes -/

/-- `none` when the constraints of the table forbid the mutation. -/
def Mutation.apply (t : TableName) (m : Contents) : Mutation → Option Contents
  | .insert row =>
      if m.lookup (keyOf pk t row) = none then some (m.insert (keyOf pk t row) row) else none
  | .update before after =>
      if m.lookup (keyOf pk t before) = some before ∧
          (keyOf pk t after = keyOf pk t before ∨ m.lookup (keyOf pk t after) = none) then
        some ((m.erase (keyOf pk t before)).insert (keyOf pk t after) after)
      else none
  | .delete before =>
      if m.lookup (keyOf pk t before) = some before then some (m.erase (keyOf pk t before))
      else none

def truncate (tables : List TableName) (m : Contents) : Contents :=
  m.restrict fun k => k.1 ∉ tables

def replayChange (m : Contents) (ch : Change) : Contents :=
  let t := (ch.schema, ch.table)
  match ch.op, ch.old, ch.new with
  | .insert, _, some new => m.insert (keyOf pk t new) new
  | .update, old, some new =>
      let before := keyOf pk t (old.getD new)
      -- a column the message leaves out is unchanged
      let after := new ∪ (m.lookup before).getD ∅
      (m.erase before).insert (keyOf pk t after) after
  | .delete, some old, _ => m.erase (keyOf pk t old)
  | _, _, _ => m

def replay (m : Contents) (changes : List Change) : Contents :=
  changes.foldl (replayChange pk) m

/-! ## Messages -/

variable (types : Types)

def decoded (rel : RelationMessage) (tuple : Option (List TupleColumn)) : Option Row :=
  (decodeTuple types rel.relationMeta tuple).toOption.join

/-- pgoutput sends `m` for a mutation of the table of `rel`.  An inserted row is sent
whole; an updated one without columns that are unchanged and stored out of line.  The
old row comes with at least its key, and not at all when an update keeps the key; the
new one then has it. -/
def Sends (rel : RelationMessage) : Mutation → RowMessage → Prop
  | .insert row, .insert id new => id = rel.relationID ∧ decoded types rel new = some row
  | .update before after, .update id old new =>
      id = rel.relationID ∧ (decoded types rel new).map (· ∪ before) = some after ∧
        (old = none ∧ keyOf pk (nameOf rel) after = keyOf pk (nameOf rel) before ∧
            (decoded types rel new).map (keyOf pk (nameOf rel)) =
              some (keyOf pk (nameOf rel) after) ∨
          (decoded types rel old).map (keyOf pk (nameOf rel)) =
            some (keyOf pk (nameOf rel) before))
  | .delete before, .delete id old =>
      id = rel.relationID ∧ (decoded types rel old).map (keyOf pk (nameOf rel)) =
        some (keyOf pk (nameOf rel) before)
  | _, _ => False

instance (rel : RelationMessage) :
    ∀ (mu : Mutation) (m : RowMessage), Decidable (Sends pk types rel mu m)
  | .insert _, .insert _ _ => inferInstanceAs (Decidable (_ ∧ _))
  | .update _ _, .update _ _ _ => inferInstanceAs (Decidable (_ ∧ _ ∧ (_ ∨ _)))
  | .delete _, .delete _ _ => inferInstanceAs (Decidable (_ ∧ _))
  | .insert _, .update _ _ _ | .insert _, .delete _ _ => .isFalse id
  | .update _ _, .insert _ _ | .update _ _, .delete _ _ => .isFalse id
  | .delete _, .insert _ _ | .delete _, .update _ _ _ => .isFalse id

/-! ## Runs -/

variable (exotic : Value → Option Json)

/-- One call of `Run`.  `start` is what the source held at the start position,
`current` what it holds after the messages sent so far, `committed` what it held after
the last transaction that `Run` persisted; `persisted` is a ghost, the changes of
these transactions.  Without a consumer, `Run` has returned. -/
structure State where
  start : Contents
  committed : Contents
  current : Contents
  inside : Bool
  sent : KeyMap Nat RelationMessage
  consumer : Option Consumer
  persisted : List Change

inductive Event where
  | begin (xid : Nat)
  | relation (m : RelationMessage)
  | mutate (rel : RelationMessage) (mu : Mutation) (m : RowMessage)
  | truncate (rels : List RelationMessage)
  | commit (commitLSN endLSN : LSN)
  | other
  /-- Receiving or persisting fails. -/
  | fail

/-- The consumer handles a message inside a transaction. -/
def State.handle (s : State) (c : Consumer) (m : Message) : State :=
  match c.handle types m.logical with
  | .next c' => { s with consumer := some c' }
  | .stop _ => { s with consumer := none }
  | .persist c' lsn =>
      match c'.stored exotic with
      | none => { s with consumer := none }
      | some _ =>
          { s with
            committed := s.current
            inside := false
            consumer := some (c'.acknowledge lsn)
            persisted := s.persisted ++ c'.pending }

def step (s : State) (e : Event) : Option State := do
  let c ← s.consumer
  match e with
  | .begin xid =>
      if s.inside then none
      else some ({ s with inside := true }.handle types exotic c (.begin xid))
  | .relation m =>
      if s.inside then
        some ({ s with sent := s.sent.insert m.relationID m }.handle types exotic c (.relation m))
      else none
  | .mutate rel mu m =>
      if s.inside ∧ s.sent.lookup rel.relationID = some rel ∧ Sends pk types rel mu m then
        (mu.apply pk (nameOf rel) s.current).map fun current =>
          { s with current }.handle types exotic c (.row m)
      else none
  | .truncate rels =>
      if s.inside ∧ ∀ rel ∈ rels, s.sent.lookup rel.relationID = some rel then
        some ({ s with current := truncate (rels.map nameOf) s.current }.handle types exotic c
          (.truncate (rels.map RelationMessage.relationID)))
      else none
  | .commit commitLSN endLSN =>
      if s.inside then some (s.handle types exotic c (.commit commitLSN endLSN)) else none
  | .other => some (s.handle types exotic c .other)
  | .fail => some { s with consumer := none }

/-- `Run` starts with whatever the source and the tables of the engine hold. -/
def State.initial (m : Contents) (db : Database) : State :=
  ⟨m, m, m, false, ∅, some (Consumer.run db), []⟩

def machine : Machine State Event where
  init s := ∃ m db, s = .initial m db
  step := step pk types exotic

/-- The persisted changes, replayed on what was there at the start, give what the
source held after the last persisted transaction. -/
def State.Reproduced (s : State) : Prop := replay pk s.start s.persisted = s.committed

/-- A truncate finds its tables empty. -/
def NothingTruncated (s : State) : Event → Prop
  | .truncate rels => s.current.all (fun k _ => k.1 ∉ rels.map nameOf) = true
  | _ => True

instance (s : State) : ∀ e, Decidable (NothingTruncated s e)
  | .truncate _ => inferInstanceAs (Decidable (_ = true))
  | .begin _ | .relation _ | .mutate _ _ _ | .commit _ _ | .other | .fail => .isTrue trivial

variable {pk types exotic}

/-! ## One message -/

theorem decodeTuple_of_decoded {rel : RelationMessage} {tuple : Option (List TupleColumn)}
    {row : Row} (read : decoded types rel tuple = some row) :
    decodeTuple types rel.relationMeta tuple = .ok (some row) := by
  unfold decoded at read
  cases result : decodeTuple types rel.relationMeta tuple with
  | error err =>
      rw [result] at read
      cases read
  | ok found =>
      rw [result] at read
      exact congrArg Except.ok read

/-- **A row message replays as the mutation it was sent for.** -/
theorem replay_decoded {rel : RelationMessage} {mu : Mutation} {m : RowMessage}
    (sends : Sends pk types rel mu m) {now after : Contents}
    (applied : mu.apply pk (nameOf rel) now = some after) :
    m.relationID = rel.relationID ∧
      ∃ ch, m.decode types rel.relationMeta = .ok ch ∧ replayChange pk now ch = after := by
  match mu, m, sends with
  | .insert row, .insert id new, sends =>
      obtain ⟨own, read⟩ := sends
      simp only [Mutation.apply] at applied
      split at applied
      · cases applied
        refine ⟨own, _, by simp only [RowMessage.decode, decodeTuple_of_decoded read]; rfl, rfl⟩
      · cases applied
  | .delete before, .delete id old, sends =>
      obtain ⟨own, key⟩ := sends
      obtain ⟨row, read, same⟩ := Option.map_eq_some_iff.1 key
      simp only [Mutation.apply] at applied
      split at applied
      · cases applied
        refine ⟨own, _, by simp only [RowMessage.decode, decodeTuple_of_decoded read]; rfl, ?_⟩
        show now.erase (keyOf pk (nameOf rel) row) = _
        rw [same]
      · cases applied
  | .update before after, .update id old new, sends =>
      obtain ⟨own, whole, key⟩ := sends
      obtain ⟨part, read, patched⟩ := Option.map_eq_some_iff.1 whole
      simp only [Mutation.apply] at applied
      split at applied
      · next present =>
          cases applied
          -- the row the change names is the one that was updated
          have named : ∃ o, decodeTuple types rel.relationMeta old = .ok o ∧
              keyOf pk (nameOf rel) (o.getD part) = keyOf pk (nameOf rel) before := by
            rcases key with ⟨rfl, same, sent⟩ | sent
            · refine ⟨none, rfl, ?_⟩
              rw [read] at sent
              exact (Option.some.inj sent).trans same
            · obtain ⟨row, oldRead, same⟩ := Option.map_eq_some_iff.1 sent
              exact ⟨some row, decodeTuple_of_decoded oldRead, same⟩
          obtain ⟨o, oldRead, same⟩ := named
          refine ⟨own, _, by
            simp only [RowMessage.decode, decodeTuple_of_decoded read, oldRead]; rfl, ?_⟩
          show (now.erase (keyOf pk (nameOf rel) (o.getD part))).insert
            (keyOf pk (nameOf rel)
              (part ∪ (now.lookup (keyOf pk (nameOf rel) (o.getD part))).getD ∅))
            (part ∪ (now.lookup (keyOf pk (nameOf rel) (o.getD part))).getD ∅) = _
          rw [same, present.1, Option.getD_some, patched]
      · cases applied

theorem replay_append (m : Contents) (changes changes' : List Change) :
    replay pk m (changes ++ changes') = replay pk (replay pk m changes) changes' :=
  List.foldl_append

/-- Replaying does not look at positions. -/
theorem replay_commitLSN (m : Contents) (changes : List Change) (lsn : LSN) :
    replay pk m (changes.map fun ch => { ch with commitLSN := lsn }) = replay pk m changes := by
  rw [replay, List.foldl_map]
  rfl

/-! ## Whole runs -/

/-- What `Run` knows inside and between transactions. -/
structure Running (pk : TableName → List String) (s : State) (c : Consumer) : Prop where
  announced : ∀ id rel, s.sent.lookup id = some rel → c.rels.lookup id = some rel.relationMeta
  between : s.inside = false → s.current = s.committed
  inside : s.inside = true → replay pk s.committed c.pending = s.current

structure Inv (pk : TableName → List String) (s : State) : Prop where
  reproduced : s.Reproduced pk
  running : ∀ c, s.consumer = some c → Running pk s c

theorem Inv.returned {s : State} (inv : Inv pk s) : Inv pk { s with consumer := none } :=
  ⟨inv.reproduced, fun _ absent => nomatch absent⟩

/-- A message that leaves a transaction as far as it was. -/
theorem Inv.next {s : State} (reproduced : s.Reproduced pk) {c : Consumer}
    (running : Running pk s c) : Inv pk { s with consumer := some c } :=
  ⟨reproduced, fun _ same => Option.some.inj same ▸ ⟨running.announced, running.between,
    running.inside⟩⟩

theorem inv_begin {s : State} {c : Consumer} (inv : Inv pk s) (running : Running pk s c)
    (outside : s.inside = false) (xid : Nat) :
    Inv pk ({ s with inside := true }.handle types exotic c (.begin xid)) :=
  Inv.next (s := { s with inside := true }) inv.reproduced
    ⟨running.announced, fun absurd => (nomatch absurd), fun _ => (running.between outside).symm⟩

theorem inv_relation {s : State} {c : Consumer} (inv : Inv pk s) (running : Running pk s c)
    (m : RelationMessage) :
    Inv pk ({ s with sent := s.sent.insert m.relationID m }.handle types exotic c
      (.relation m)) := by
  simp only [State.handle, Message.logical, Consumer.handle]
  cases accepted : c.handleRelation m with
  | error err => exact ⟨inv.reproduced, fun _ absent => nomatch absent⟩
  | ok c' =>
      rw [Consumer.handleRelation_ok accepted]
      refine Inv.next (s := { s with sent := s.sent.insert m.relationID m }) inv.reproduced
        ⟨?_, running.between, running.inside⟩
      intro id rel found
      rw [KeyMap.lookup_insert_eq] at found ⊢
      by_cases own : id = m.relationID
      · rw [if_pos own] at found ⊢
        rw [← Option.some.inj found]
      · rw [if_neg own] at found ⊢
        exact running.announced id rel found

theorem inv_mutate {s : State} {c : Consumer} (inv : Inv pk s) (running : Running pk s c)
    (inside : s.inside = true) {rel : RelationMessage} {mu : Mutation} {m : RowMessage}
    (sent : s.sent.lookup rel.relationID = some rel) (sends : Sends pk types rel mu m)
    {current : Contents} (applied : mu.apply pk (nameOf rel) s.current = some current) :
    Inv pk ({ s with current }.handle types exotic c (.row m)) := by
  obtain ⟨own, ch, read, replayed⟩ := replay_decoded sends applied
  have announced := running.announced _ _ sent
  rw [← own] at announced
  simp only [State.handle, Message.logical, Consumer.handle,
    Consumer.decode_of_announced announced, read]
  refine Inv.next (s := { s with current }) inv.reproduced
    ⟨running.announced, fun outside => ?_, fun _ => ?_⟩
  · exact absurd (inside.symm.trans outside) (by decide)
  · show replay pk s.committed (c.pending ++ [ch]) = current
    rw [replay_append, running.inside inside]
    exact replayed

theorem inv_commit {s : State} {c : Consumer} (inv : Inv pk s) (running : Running pk s c)
    (inside : s.inside = true) (commitLSN endLSN : LSN) :
    Inv pk (s.handle types exotic c (.commit commitLSN endLSN)) := by
  simp only [State.handle, Message.logical, Consumer.handle]
  split
  · exact inv.returned
  · refine ⟨?_, fun _ same => Option.some.inj same ▸ ⟨running.announced, fun _ => rfl, ?_⟩⟩
    · show replay pk s.start (s.persisted ++ _) = s.current
      rw [replay_append, inv.reproduced, replay_commitLSN, running.inside inside]
    · exact fun outside => nomatch outside

theorem inv_step {s t : State} {e : Event} (inv : Inv pk s) (nothing : NothingTruncated s e)
    (stepped : step pk types exotic s e = some t) : Inv pk t := by
  obtain ⟨c, consumer, stepped⟩ := Option.bind_eq_some_iff.1 stepped
  have running := inv.running c consumer
  cases e with
  | begin xid =>
      simp only at stepped
      split at stepped
      · cases stepped
      · next outside =>
          cases stepped
          exact inv_begin inv running (by simpa using outside) xid
  | relation m =>
      simp only at stepped
      split at stepped
      · cases stepped
        exact inv_relation inv running m
      · cases stepped
  | mutate rel mu m =>
      simp only at stepped
      split at stepped
      · next enabled =>
          obtain ⟨current, applied, rfl⟩ := Option.map_eq_some_iff.1 stepped
          exact inv_mutate inv running enabled.1 enabled.2.1 enabled.2.2 applied
      · cases stepped
  | truncate rels =>
      simp only at stepped
      split at stepped
      · cases stepped
        have kept : truncate (rels.map nameOf) s.current = s.current :=
          KeyMap.restrict_eq_self ((KeyMap.all_iff _ _).1 nothing)
        rw [kept]
        exact Inv.next inv.reproduced running
      · cases stepped
  | commit commitLSN endLSN =>
      simp only at stepped
      split at stepped
      · next inside =>
          cases stepped
          exact inv_commit inv running inside commitLSN endLSN
      · cases stepped
  | other =>
      cases stepped
      exact Inv.next inv.reproduced running
  | fail =>
      cases stepped
      exact inv.returned

/-- **Nothing that changes a row is lost**, as long as truncates find their tables
empty: after every message of a run, the persisted changes replayed on what the source
held at the start position give what it held after the last persisted transaction. -/
theorem replay_persisted (pk : TableName → List String) (types : Types)
    (exotic : Value → Option Json) (m : Contents) (db : Database) (es : List Event)
    (nothing : (machine pk types exotic).Meets NothingTruncated (.initial m db) es) :
    (machine pk types exotic).Along (State.Reproduced pk) (.initial m db) es := by
  have start : Inv pk (State.initial m db) :=
    ⟨rfl, fun c running => by
      cases running
      exact ⟨fun id rel absent => by simp [State.initial] at absent, fun _ => rfl,
        fun inside => nomatch inside⟩⟩
  exact Machine.along_of_meets (I := Inv pk) (fun s inv => inv.reproduced)
    (fun s e t inv nothing stepped => inv_step inv nothing stepped) start nothing

end Tables

namespace Tasks

def tasks : RelationMessage :=
  ⟨16384, "public", "tasks", [⟨"id", 25, -1, 1⟩, ⟨"note", 25, -1, 0⟩]⟩

def idKey : TableName → List String := fun _ => ["id"]

def row (id note : String) : Row := KeyMap.ofList [("id", .string id), ("note", .string note)]

def noTypes : Types := fun _ => none

def noExotic : Value → Option Json := fun _ => none

/-- Two transactions: an empty table truncated, a row inserted and given a new key with
its note left out, and then deleted. -/
def schedule : List Event :=
  [.begin 7, .relation tasks, .truncate [tasks],
    .mutate tasks (.insert (row "1" "a")) (.insert 16384 (some [⟨'t', "1"⟩, ⟨'t', "a"⟩])),
    .mutate tasks (.update (row "1" "a") (row "2" "a"))
      (.update 16384 (some [⟨'t', "1"⟩, ⟨'n', ""⟩]) (some [⟨'t', "2"⟩, ⟨'u', ""⟩])),
    .commit 10 11, .begin 8,
    .mutate tasks (.delete (row "2" "a")) (.delete 16384 (some [⟨'t', "2"⟩, ⟨'n', ""⟩])),
    .commit 20 21]

theorem replay_persisted_schedule :
    ∃ s, (machine idKey noTypes noExotic).run (.initial ∅ .empty) schedule = some s ∧
      s.persisted.map (fun ch => ch.commitLSN) = [11, 11, 21] ∧ s.Reproduced idKey := by
  have replayed : ((machine idKey noTypes noExotic).run (.initial ∅ .empty) schedule).map
      (fun s => s.persisted.map fun ch => ch.commitLSN) = some [11, 11, 21] := by
    decide +kernel
  obtain ⟨s, ran, positions⟩ := Option.map_eq_some_iff.1 replayed
  have along := replay_persisted idKey noTypes noExotic ∅ .empty schedule (by decide +kernel)
  exact ⟨s, ran, positions, along.last ran⟩

/-- A table with one row. -/
def one : Contents := KeyMap.ofList [((("public", "tasks"), [some (.string "1")]), row "1" "a")]

/-- A truncate that removes the row leaves no change behind. -/
theorem truncate_lost :
    ∃ s, (machine idKey noTypes noExotic).run (.initial one .empty)
        [.begin 7, .relation tasks, .truncate [tasks], .commit 10 11] = some s ∧
      s.committed = ∅ ∧ s.persisted = [] ∧ ¬ s.Reproduced idKey := by
  have replayed : ((machine idKey noTypes noExotic).run (.initial one .empty)
      [.begin 7, .relation tasks, .truncate [tasks], .commit 10 11]).map
      (fun s => decide (s.start = one ∧ s.committed = ∅ ∧ s.persisted = [])) = some true := by
    decide +kernel
  obtain ⟨s, ran, ends⟩ := Option.map_eq_some_iff.1 replayed
  obtain ⟨start, committed, persisted⟩ := of_decide_eq_true ends
  refine ⟨s, ran, committed, persisted, ?_⟩
  rw [State.Reproduced, start, committed, persisted]
  decide +kernel

end Tasks

end Tether.Ingest
