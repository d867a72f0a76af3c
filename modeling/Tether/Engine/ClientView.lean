/-
# Tether.Engine.ClientView — what a client makes of the messages

A client keeps the rows of a shape by primary key: a snapshot replaces them, a change
replaces or removes the row with its key.  `view` is what it holds after some of the
messages of its connection, `held` what it held before the first of them.

The stream's caches at consecutive offsets differ by one event (`Chained`), the change
messages carry the events of the log, and `subscription_exact`'s invariant says which
ones arrive.  So after any number of messages the client holds the stream's cache at the
offset it has reached (`client_view_exact`).
-/
import Tether.Engine.Subscribe
import Tether.Lib.Lists
import Tether.Shape.Resume

namespace Tether.Subscribe

open Tether.Lib Tether.Wal Tether.Shape Tether.Transport

set_option autoImplicit false

variable {C : Type}

/-! ## The client -/

def receive (pk : List String) (rows : Multiset Row) : Message → Multiset Row
  | .snapshot _ _ _ fresh => fresh
  | .change _ _ op row =>
      rows.filter (fun r => pkKey pk r ≠ pkKey pk row) + if op = .delete then 0 else {row}
  | .error _ _ _ => rows

def view (pk : List String) (held : Multiset Row) (messages : List Sent) : Multiset Row :=
  messages.foldl (fun rows m => receive pk rows m.message) held

/-- The change messages among `messages`. -/
def changes (messages : List Sent) : Nat := (messages.filterMap offset?).length

/-- The client has the first of its messages, or resumed with what it held. -/
def Begun (u : Setup C) (messages : List Sent) : Prop := messages ≠ [] ∨ 0 < u.resumeAt

/-- After any first part of `accepted` the client holds the cache marked at the offset
it has reached from `start`. -/
def AtOffset (u : Setup C) (held : Multiset Row) (pk : List String)
    (marks : KeyMap Int (KeyMap String Row)) (start : Int) (accepted : List Sent) : Prop :=
  ∀ messages, messages <+: accepted → Begun u messages →
    ∃ cache, marks.lookup (start + changes messages) = some cache ∧
      view pk held messages = cache.values

/-- **The client mirrors the stream.**  After any first part of its messages it holds
the cache at the offset it has reached, and the stream's rows once it has all messages
and fan-out has nothing left to deliver. -/
structure Mirrored (u : Setup C) (held : Multiset Row) (s : State C) : Prop where
  atOffset : ∀ start upTo, s.sub.read = some (start, upTo) →
    AtOffset u held s.inst.defn.primaryKey s.marks start s.conn.accepted
  current : ∀ start upTo, s.sub = .subscribed start upTo → s.conn.closed = false →
    s.work.event = none → (∀ m listed, s.work ≠ .cached m listed) →
      view s.inst.defn.primaryKey held s.conn.accepted = s.inst.materialized

/-- A client that resumes holds the stream's rows at the offset it names. -/
def Honest (u : Setup C) (held : Multiset Row) (s : State C) : Ev → Prop
  | .session => s.sub = .idle → 0 < u.resumeAt →
      ∃ cache, s.marks.lookup u.resumeAt = some cache ∧ held = cache.values
  | _ => True

/-- No update that passes the gate changes the key of its row. -/
def Keeps (s : State C) : Ev → Prop
  | .fanOut => ∀ ch listed, s.work = .copied ch listed → s.inst.skips ch = false →
      s.inst.KeepsKey (.apply ch)
  | _ => True

/-! ## Rows by key -/

/-- Rows are stored under their own keys. -/
def KeyedBy (pk : List String) (cache : KeyMap String Row) : Prop :=
  ∀ key row, cache.lookup key = some row → pkKey pk row = .ok key

theorem KeyedBy.nodup {pk : List String} {cache : KeyMap String Row} (keyed : KeyedBy pk cache) :
    cache.values.Nodup := by
  refine Multiset.Nodup.map_on ?_ (Multiset.NodupKeys.nodup cache.nodupKeys)
  rintro ⟨key, row⟩ first ⟨key', row'⟩ second rfl
  have here := keyed key row (Finmap.lookup_eq_some_iff.2 first)
  have there := keyed key' row (Finmap.lookup_eq_some_iff.2 second)
  rw [Except.ok.inj (here.symm.trans there)]

theorem KeyedBy.set {pk : List String} {cache : KeyMap String Row} (keyed : KeyedBy pk cache)
    {key : String} {row : Option Row} (own : ∀ r ∈ row, pkKey pk r = .ok key) :
    KeyedBy pk (cache.set key row) := by
  intro key' row' found
  rw [KeyMap.lookup_set] at found
  split at found
  · next same =>
      rw [same]
      exact own row' found
  · exact keyed key' row' found

/-- The write of an event, on the rows alone. -/
theorem receive_values {pk : List String} {cache : KeyMap String Row} (keyed : KeyedBy pk cache)
    {key : String} {row : Row} (own : pkKey pk row = .ok key) (shape : String) (offset : Int)
    (op : EventOp) :
    receive pk cache.values (.change shape offset op row) =
      (cache.set key (if op = .delete then none else some row)).values := by
  have others : ∀ r, r ∈ cache.values.filter (fun r => pkKey pk r ≠ pkKey pk row) ↔
      ∃ key', key' ≠ key ∧ cache.lookup key' = some r := by
    intro r
    rw [Multiset.mem_filter, KeyMap.mem_values, own]
    constructor
    · rintro ⟨⟨key', found⟩, apart⟩
      refine ⟨key', fun same => apart ?_, found⟩
      rw [keyed key' r found, same]
    · rintro ⟨key', apart, found⟩
      refine ⟨⟨key', found⟩, fun same => apart ?_⟩
      exact Except.ok.inj ((keyed key' r found).symm.trans same)
  have written : KeyedBy pk (cache.set key (if op = .delete then none else some row)) := by
    refine keyed.set fun r member => ?_
    split at member
    · cases member
    · cases member
      exact own
  have kept := keyed.nodup.filter fun r => pkKey pk r ≠ pkKey pk row
  have distinct : (receive pk cache.values (.change shape offset op row)).Nodup := by
    simp only [receive]
    split
    · rwa [add_zero]
    · refine (Multiset.nodup_add).2 ⟨kept, Multiset.nodup_singleton row, ?_⟩
      refine Multiset.disjoint_left.2 fun {r} inside here => ?_
      rw [Multiset.mem_singleton.1 here] at inside
      exact (Multiset.mem_filter.1 inside).2 rfl
  refine (Multiset.Nodup.ext distinct written.nodup).2 fun r => ?_
  rw [KeyMap.mem_values]
  simp only [receive, Multiset.mem_add, others, KeyMap.lookup_set]
  constructor
  · rintro (⟨key', apart, found⟩ | new)
    · exact ⟨key', by rw [if_neg apart]; exact found⟩
    · refine ⟨key, ?_⟩
      rw [if_pos rfl]
      split at new
      · exact absurd new (Multiset.notMem_zero r)
      · next present => rw [Multiset.mem_singleton.1 new, if_neg present]
  · rintro ⟨key', found⟩
    split at found
    · right
      split at found
      · cases found
      · next present =>
          cases found
          rw [if_neg present]
          exact Multiset.mem_singleton_self row
    · next apart => exact .inl ⟨key', apart, found⟩

/-! ## The caches at consecutive offsets -/

/-- The event is in the log, at its offset. -/
def Logged (log : Log) (ev : Event) : Prop := log.events[(ev.offset - 1).toNat]? = some ev

/-- Neighbouring marks differ by the event between them. -/
structure Chained (s : State C) : Prop where
  nonneg : ∀ o c, s.marks.lookup o = some c → 0 ≤ o
  keyed : ∀ o c, s.marks.lookup o = some c → KeyedBy s.inst.defn.primaryKey c
  linked : ∀ o c, s.marks.lookup o = some c → o < s.inst.log.lastOffset →
    ∃ ev key, s.inst.log.events[o.toNat]? = some ev ∧
      pkKey s.inst.defn.primaryKey ev.row = .ok key ∧
      s.marks.lookup (o + 1) = some (c.set key (if ev.op = .delete then none else some ev.row))
  move : ∀ m listed, s.work = .cached m listed → pkKey s.inst.defn.primaryKey m.row = .ok m.key
  pending : ∀ ev, s.work.event = some ev → Logged s.inst.log ev
  replayed : ∀ ev ∈ s.sub.remaining, Logged s.inst.log ev

variable {u : Setup C} {s t : State C}

theorem logged_of_mem {log : Log} {ev : Event} (member : ev ∈ log.events) : Logged log ev := by
  obtain ⟨i, inside, rfl⟩ := List.getElem_of_mem member
  have offset := log.numbered i inside
  rw [Logged, offset, List.getElem?_eq_some_iff]
  exact ⟨by omega, by congr 1; omega⟩

theorem Logged.grow {log log' : Log} {ev : Event} (logged : Logged log ev) {more : List Event}
    (grown : log'.events = log.events ++ more) : Logged log' ev := by
  rw [Logged, grown]
  exact getElem?_append_of_some logged more

theorem chained_start (keyed : u.inst.Keyed) : Chained u.start where
  nonneg := by
    intro o c found
    simp only [Setup.start, KeyMap.lookup_insert_eq] at found
    split at found
    · next same =>
        rw [same, Log.lastOffset_eq]
        exact Int.natCast_nonneg _
    · simp at found
  keyed := by
    intro o c found
    simp only [Setup.start, KeyMap.lookup_insert_eq] at found
    split at found
    · cases found
      exact keyed
    · simp at found
  linked := by
    intro o c found below
    simp only [Setup.start, KeyMap.lookup_insert_eq] at found
    split at found
    · next same => exact absurd same below.ne
    · simp at found
  move := by simp [Setup.start]
  pending := by simp [Setup.start, Work.event]
  replayed := by simp [Setup.start, Sub.remaining]

/-- A step that leaves the log and the marks alone. -/
theorem Chained.still (chained : Chained s) (inst : t.inst = s.inst) (marks : t.marks = s.marks)
    (moves : ∀ m listed, t.work = .cached m listed → s.work = .cached m listed)
    (events : ∀ ev, t.work.event = some ev → s.work.event = some ev)
    (replayed : ∀ ev ∈ t.sub.remaining, Logged s.inst.log ev) : Chained t where
  nonneg := marks ▸ chained.nonneg
  keyed := by rw [marks, inst]; exact chained.keyed
  linked := by rw [marks, inst]; exact chained.linked
  move m listed work := by rw [inst]; exact chained.move m listed (moves m listed work)
  pending ev held := by rw [inst]; exact chained.pending ev (events ev held)
  replayed := by rw [inst]; exact replayed

/-- The cache write. -/
theorem Chained.begins (inv : Inv s) (chained : Chained s) {ch : Change} {listed : Bool}
    (work : s.work = .copied ch listed)
    (keeps : s.inst.skips ch = false → s.inst.KeepsKey (.apply ch))
    (stepped : fanOutStep u s = some t) : Chained t := by
  obtain ⟨c, found, written⟩ := inv.settled
  rw [work] at written
  have keyed : s.inst.Keyed := by
    intro key row here
    rw [show s.inst.cache = c from written] at here
    exact chained.keyed _ c found key row here
  simp only [fanOutStep, work] at stepped
  have quiet : ∀ (fp : String) (log : Log) (w : Work), log.events = s.inst.log.events →
      w.event = none → (∀ m listed, w ≠ .cached m listed) →
      Chained { s with inst := { s.inst with fingerprint := fp, log := log }, work := w } := by
    intro fp log w events none notCached
    have last : log.lastOffset = s.inst.log.lastOffset := by
      rw [Log.lastOffset_eq, Log.lastOffset_eq, events]
    refine ⟨chained.nonneg, chained.keyed, ?_, fun m listed cached => ?_, fun ev held => ?_, ?_⟩
    · dsimp only
      rw [last, events]
      exact chained.linked
    · exact absurd cached (notCached m listed)
    · rw [none] at held
      cases held
    · intro ev member
      have grown : log.events = s.inst.log.events ++ [] := by rw [events, List.append_nil]
      exact (chained.replayed ev member).grow grown
  rcases s.inst.applyBegin_cases ch with ⟨fp, log, after, events, -, silent⟩ |
    ⟨fp, m, after, -, decided⟩
  · split at stepped
    · next inst err begun =>
        rw [begun] at after
        cases stepped
        subst after
        exact quiet fp log _ events rfl (by simp)
    · next inst begun =>
        rw [begun] at after
        cases stepped
        subst after
        exact quiet fp log _ events rfl (by simp)
    · next inst m begun => exact absurd (by rw [begun]) (silent m)
  · have passed : tableMatch s.inst.defn ch = true ∧ s.inst.skips ch = false := by
      unfold Instance.applyBegin at after
      cases halted : s.inst.log.halted <;> cases mine : tableMatch s.inst.defn ch <;>
        cases skipped : s.inst.skips ch <;> simp [halted, mine, skipped] at after ⊢
    simp only [after, Option.some.injEq] at stepped
    subst stepped
    refine ⟨chained.nonneg, chained.keyed, chained.linked, fun m' listed' cached => ?_, ?_,
      chained.replayed⟩
    · cases cached
      exact Instance.project_keyed keyed passed.1 (keeps passed.2) decided
    · simp [Work.event]

/-- The append: a new mark, one event past the last. -/
theorem Chained.appends (inv : Inv s) (chained : Chained s) {m : Move} {listed : Bool}
    (work : s.work = .cached m listed) (stepped : fanOutStep u s = some t) : Chained t := by
  obtain ⟨c, found, written⟩ := inv.settled
  rw [work] at written
  have own := chained.move m listed work
  have live := inv.unhalted m listed work
  simp only [fanOutStep, work, Log.append, live] at stepped
  cases stepped
  have length := s.inst.log.lastOffset_eq
  have last : (s.inst.log.push m.op s.inst.defn.table m.row).lastOffset =
      s.inst.log.lastOffset + 1 := by
    rw [Log.lastOffset_eq, Log.push_events, List.length_append, length]
    simp
  have cache : s.inst.cache = c.set m.key (if m.op = .delete then none else some m.row) := by
    rw [show s.inst.cache = m.cache c from written]
    cases op : m.op <;> simp [Move.cache, op, KeyMap.set]
  have older : ∀ o c', s.marks.lookup o = some c' → o ≠ s.inst.log.lastOffset + 1 := by
    intro o c' here
    have := inv.marked o c' here
    omega
  have marks : ∀ o, (s.marks.insert (s.inst.log.push m.op s.inst.defn.table m.row).lastOffset
      s.inst.cache).lookup o =
        if o = s.inst.log.lastOffset + 1 then some s.inst.cache else s.marks.lookup o := by
    intro o
    rw [last, KeyMap.lookup_insert_eq]
  have events : (s.inst.log.push m.op s.inst.defn.table m.row).events =
      s.inst.log.events ++ [⟨s.inst.log.next, m.op, s.inst.defn.table, m.row⟩] :=
    Log.push_events ..
  refine ⟨fun o c' here => ?_, fun o c' here => ?_, fun o c' here below => ?_, ?_, ?_, ?_⟩
  · dsimp only at here
    rw [marks] at here
    split at here
    · omega
    · exact chained.nonneg o c' here
  · dsimp only at here
    rw [marks] at here
    split at here
    · cases here
      rw [cache]
      refine (chained.keyed _ c found).set fun r member => ?_
      split at member
      · cases member
      · cases member
        exact own
    · exact chained.keyed o c' here
  · dsimp only at here below ⊢
    rw [marks] at here ⊢
    rw [last] at below
    split at here
    · omega
    · rcases (Int.lt_add_one_iff.1 below).lt_or_eq with inside | rfl
      · obtain ⟨ev, key, at_o, keyed, next⟩ := chained.linked o c' here inside
        refine ⟨ev, key, ?_, keyed, ?_⟩
        · rw [events]
          exact getElem?_append_of_some at_o _
        · rw [if_neg (older _ _ next), next]
      · cases found.symm.trans here
        refine ⟨⟨s.inst.log.next, m.op, s.inst.defn.table, m.row⟩, m.key, ?_, own, ?_⟩
        · rw [events, length, Int.toNat_natCast, List.getElem?_concat_length]
        · rw [if_pos rfl, cache]
  · simp
  · intro ev held
    cases held
    refine logged_of_mem ?_
    rw [events]
    exact List.mem_append_right _ (List.mem_singleton.2 rfl)
  · intro ev member
    exact (chained.replayed ev member).grow events

theorem chained_fanOut (inv : Inv s) (chained : Chained s) (keeps : Keeps s .fanOut)
    (stepped : fanOutStep u s = some t) : Chained t := by
  cases work : s.work with
  | idle => simp [fanOutStep, work] at stepped
  | copied ch listed => exact chained.begins inv work (keeps ch listed work) stepped
  | cached m listed => exact chained.appends inv work stepped
  | applied ev listed =>
      simp only [fanOutStep, work, Option.some.injEq] at stepped
      subst stepped
      refine chained.still rfl rfl ?_ ?_ chained.replayed
      · intro m listed' cached
        dsimp only at cached
        split at cached <;> cases cached
      · intro ev' held
        dsimp only at held
        rw [work]
        split at held
        · exact held
        · cases held
  | due ev =>
      simp only [fanOutStep, work, Option.some.injEq] at stepped
      subst stepped
      exact chained.still rfl rfl (by simp) (by simp [Work.event]) chained.replayed
  | refused err listed =>
      simp only [fanOutStep, work, Option.some.injEq] at stepped
      subst stepped
      exact chained.still rfl rfl (by simp) (by simp [Work.event]) chained.replayed

theorem chained_session (chained : Chained s) (stepped : sessionStep u s = some t) :
    Chained t := by
  cases sub : s.sub with
  | idle =>
      simp only [sessionStep, sub] at stepped
      split_ifs at stepped
      · split at stepped
        · next events after =>
            cases stepped
            refine chained.still rfl rfl (fun _ _ => id) (fun _ => id) fun ev member => ?_
            exact logged_of_mem (Log.mem_of_after after member)
        · cases stepped
          exact chained.still rfl rfl (fun _ _ => id) (fun _ => id) (by simp [Sub.remaining])
      · cases stepped
        exact chained.still rfl rfl (fun _ _ => id) (fun _ => id) (by simp [Sub.remaining])
      · cases stepped
        exact chained.still rfl rfl (fun _ _ => id) (fun _ => id) (by simp [Sub.remaining])
  | offset start =>
      simp only [sessionStep, sub, Option.some.injEq] at stepped
      subst stepped
      exact chained.still rfl rfl (fun _ _ => id) (fun _ => id) (by simp [Sub.remaining])
  | rows start rows =>
      simp only [sessionStep, sub] at stepped
      split_ifs at stepped
      · split at stepped <;> cases stepped <;>
          exact chained.still rfl rfl (fun _ _ => id) (fun _ => id) (by simp [Sub.remaining])
      · cases stepped
        exact chained.still rfl rfl (fun _ _ => id) (fun _ => id) (by simp [Sub.remaining])
  | replay start upTo events =>
      have replayed := chained.replayed
      rw [sub] at replayed
      cases events with
      | nil =>
          simp only [sessionStep, sub, Option.some.injEq] at stepped
          subst stepped
          exact chained.still rfl rfl (fun _ _ => id) (fun _ => id) (by simp [Sub.remaining])
      | cons ev events =>
          simp only [sessionStep, sub] at stepped
          split at stepped
          · cases stepped
            exact chained.still rfl rfl (fun _ _ => id) (fun _ => id) fun ev' member =>
              replayed ev' (List.mem_cons_of_mem _ member)
          · cases stepped
            exact chained.still rfl rfl (fun _ _ => id) (fun _ => id) (by simp [Sub.remaining])
  | served start upTo =>
      simp only [sessionStep, sub, Option.some.injEq] at stepped
      subst stepped
      exact chained.still rfl rfl (fun _ _ => id) (fun _ => id) (by simp [Sub.remaining])
  | subscribed start upTo => simp [sessionStep, sub] at stepped
  | failed => simp [sessionStep, sub] at stepped
  | resnapshot => simp [sessionStep, sub] at stepped

theorem chained_step {ev : Ev} (inv : Inv s) (chained : Chained s) (keeps : Keeps s ev)
    (stepped : step u s ev = some t) : Chained t := by
  cases ev with
  | connect =>
      simp only [step] at stepped
      split_ifs at stepped
      cases stepped
      exact chained.still rfl rfl (fun _ _ => id) (fun _ => id) chained.replayed
  | copy ch =>
      simp only [step] at stepped
      split at stepped
      · cases stepped
        exact chained.still rfl rfl (by simp) (by simp [Work.event]) chained.replayed
      · cases stepped
  | fanOut => exact chained_fanOut inv chained keeps stepped
  | session => exact chained_session chained stepped
  | pump =>
      simp only [step, Option.map_eq_some_iff] at stepped
      obtain ⟨conn, -, rfl⟩ := stepped
      exact chained.still rfl rfl (fun _ _ => id) (fun _ => id) chained.replayed

/-! ## One more message -/

variable {held : Multiset Row} {pk : List String} {marks : KeyMap Int (KeyMap String Row)}
  {start : Int} {accepted : List Sent}

theorem changes_append (messages messages' : List Sent) :
    changes (messages ++ messages') = changes messages + changes messages' := by
  simp [changes]

theorem AtOffset.concat (before : AtOffset u held pk marks start accepted) {m : Sent}
    (new : ∃ cache, marks.lookup (start + changes (accepted ++ [m])) = some cache ∧
      receive pk (view pk held accepted) m.message = cache.values) :
    AtOffset u held pk marks start (accepted ++ [m]) := by
  intro messages first begun
  rcases List.prefix_concat_iff.1 first with rfl | old
  · rw [view, List.foldl_append]
    exact new
  · exact before messages old begun

theorem AtOffset.error (before : AtOffset u held pk marks start accepted)
    (begun : Begun u accepted) (code text shape : String) :
    AtOffset u held pk marks start (accepted ++ [⟨.error code text shape, none⟩]) := by
  refine before.concat ?_
  obtain ⟨cache, found, same⟩ := before accepted (List.prefix_refl _) begun
  exact ⟨cache, by rw [changes_append]; exact found, same⟩

theorem AtOffset.change (before : AtOffset u held s.inst.defn.primaryKey s.marks start accepted)
    (chained : Chained s) (begun : Begun u accepted) {ev : Event}
    (logged : Logged s.inst.log ev) (next : ev.offset = start + changes accepted + 1)
    (shape : String) (source : Option String) :
    AtOffset u held s.inst.defn.primaryKey s.marks start
      (accepted ++ [⟨.change shape ev.offset ev.op ev.row, source⟩]) := by
  refine before.concat ?_
  obtain ⟨cache, found, same⟩ := before accepted (List.prefix_refl _) begun
  have nonneg := chained.nonneg _ cache found
  obtain ⟨inside, -⟩ := List.getElem?_eq_some_iff.1 logged
  have below : start + changes accepted < s.inst.log.lastOffset := by
    rw [Log.lastOffset_eq]
    omega
  obtain ⟨ev', key, at_o, own, linked⟩ := chained.linked _ cache found below
  have index : (ev.offset - 1).toNat = (start + (changes accepted : Int)).toNat := by
    rw [next]
    congr 1
    omega
  rw [Logged, index, at_o] at logged
  cases logged
  refine ⟨cache.set key (if ev.op = .delete then none else some ev.row), ?_, ?_⟩
  · rw [changes_append]
    show s.marks.lookup (start + ((changes accepted + 1 : Nat) : Int)) = _
    rw [Nat.cast_add, Nat.cast_one, ← add_assoc]
    exact linked
  · dsimp only
    rw [same]
    exact receive_values (chained.keyed _ cache found) own shape ev.offset ev.op

theorem AtOffset.snapshot (unbegun : ¬ Begun u accepted) {cache : KeyMap String Row}
    (found : marks.lookup start = some cache) (shape : String) (lsn : LSN) (offset : Int)
    (source : Option String) :
    AtOffset u held pk marks start
      (accepted ++ [⟨.snapshot shape lsn offset cache.values, source⟩]) := by
  have empty : accepted = [] := by
    by_contra some
    exact unbegun (.inl some)
  subst empty
  refine AtOffset.concat (fun messages first begun => ?_) ⟨cache, ?_, rfl⟩
  · rw [List.prefix_nil.1 first] at begun
    exact absurd begun unbegun
  · rw [show changes ([] ++ [_]) = 0 from rfl, Int.natCast_zero, add_zero]
    exact found

theorem AtOffset.grow (before : AtOffset u held pk marks start accepted)
    {marks' : KeyMap Int (KeyMap String Row)}
    (grown : ∀ o c, marks.lookup o = some c → marks'.lookup o = some c) :
    AtOffset u held pk marks' start accepted := by
  intro messages first begun
  obtain ⟨cache, found, same⟩ := before messages first begun
  exact ⟨cache, grown _ _ found, same⟩

/-! ## The client's rows over a run -/

/-- Nothing has been sent to the client yet. -/
def Sub.waits : Sub → Bool
  | .idle | .offset _ | .rows _ _ => true
  | _ => false

structure Views (u : Setup C) (held : Multiset Row) (s : State C) : Prop where
  begun : s.sub.read ≠ none → (Begun u s.conn.accepted ↔ s.sub.waits = false)
  atOffset : ∀ start upTo, s.sub.read = some (start, upTo) →
    AtOffset u held s.inst.defn.primaryKey s.marks start s.conn.accepted

theorem views_start (u : Setup C) (held : Multiset Row) : Views u held u.start where
  begun := by simp [Setup.start, Sub.read]
  atOffset := by simp [Setup.start, Sub.read]

/-- The subscription is over. -/
theorem views_unread (unread : t.sub.read = none) : Views u held t where
  begun := by simp [unread]
  atOffset := by simp [unread]

/-- A step that sends the client nothing. -/
theorem Views.keep (views : Views u held s) (defn : t.inst.defn = s.inst.defn)
    (accepted : t.conn.accepted = s.conn.accepted) (read : t.sub.read = s.sub.read)
    (waits : t.sub.read ≠ none → t.sub.waits = s.sub.waits)
    (grown : ∀ o c, s.marks.lookup o = some c → t.marks.lookup o = some c) : Views u held t where
  begun here := by
    rw [accepted, waits here]
    exact views.begun (read ▸ here)
  atOffset start upTo here := by
    rw [defn, accepted]
    exact (views.atOffset start upTo (read ▸ here)).grow grown

theorem Begun.append (begun : Begun u accepted) (more : List Sent) :
    Begun u (accepted ++ more) :=
  begun.imp_left (List.append_ne_nil_of_left_ne_nil · more)

/-- One event more for a client that has begun. -/
theorem Views.sends (views : Views u held s) (chained : Chained s) {start upTo : Int}
    (read : s.sub.read = some (start, upTo)) (begun : s.sub.waits = false) {ev : Event}
    (logged : Logged s.inst.log ev) (next : ev.offset = start + s.offsets.length + 1)
    {conn : Conn Sent} (accepted : conn.accepted =
      s.conn.accepted ++ [⟨.change u.name ev.offset ev.op ev.row, some u.key⟩]) {sub : Sub}
    (same : sub.read = some (start, upTo)) (still : sub.waits = false) (w : Work) :
    Views u held { s with conn := conn, sub := sub, work := w } := by
  have before : Begun u s.conn.accepted := (views.begun (by simp [read])).2 begun
  constructor
  · intro _
    dsimp only
    rw [accepted, still]
    exact iff_of_true (before.append _) rfl
  · intro start' upTo' here
    cases same.symm.trans here
    dsimp only
    rw [accepted]
    exact (views.atOffset start upTo read).change chained before logged next u.name (some u.key)

theorem views_fanOut (inv : Inv s) (chained : Chained s) (views : Views u held s)
    (calm : orderly u s .fanOut = true) (stepped : fanOutStep u s = some t) : Views u held t := by
  cases work : s.work with
  | idle => simp [fanOutStep, work] at stepped
  | copied ch listed =>
      have defn : (s.inst.applyBegin ch).1.defn = s.inst.defn := by
        rcases s.inst.applyBegin_cases ch with ⟨fp, log, after, -⟩ | ⟨fp, m, after, -⟩ <;>
          rw [after]
      simp only [fanOutStep, work] at stepped
      generalize s.inst.applyBegin ch = result at defn stepped
      obtain ⟨inst, err | (_ | m)⟩ := result <;> cases stepped <;>
        exact views.keep defn rfl rfl (fun _ => rfl) fun _ _ => id
  | cached m listed =>
      have live := inv.unhalted m listed work
      simp only [fanOutStep, work, Log.append, live] at stepped
      cases stepped
      refine views.keep rfl rfl rfl (fun _ => rfl) fun o c found => ?_
      have bound := inv.marked o c found
      have last := s.inst.log.lastOffset_eq
      dsimp only
      rw [KeyMap.lookup_insert_eq, if_neg]
      · exact found
      · rw [Log.lastOffset_eq, Log.push_events, List.length_append, List.length_singleton]
        push_cast
        omega
  | applied ev listed =>
      simp only [fanOutStep, work, Option.some.injEq] at stepped
      subst stepped
      exact views.keep rfl rfl rfl (fun _ => rfl) fun _ _ => id
  | due ev =>
      have marshals : ev.row.marshals u.exotic = true := by simpa [orderly, work] using calm
      have pending : s.work.event = some ev := by rw [work]; rfl
      obtain ⟨start, upTo, sub, past⟩ := inv.due ev work
      simp only [fanOutStep, work, Option.some.injEq] at stepped
      subst stepped
      rcases deliverChange_cases u s.conn marshals with
        ⟨opened, -, -, accepted⟩ | ⟨-, -, accepted⟩
      · have count := ((inv.live start upTo sub).2 opened).1 ev pending past
        have last := inv.pending ev pending
        have read : s.sub.read = some (start, upTo) := by rw [sub]; rfl
        have begun : s.sub.waits = false := by rw [sub]; rfl
        exact views.sends chained read begun (chained.pending ev pending) (by omega) accepted read
          begun .idle
      · exact views.keep rfl accepted rfl (fun _ => rfl) fun _ _ => id
  | refused err listed =>
      simp only [fanOutStep, work, Option.some.injEq] at stepped
      subst stepped
      split
      · next told =>
          simp only [Bool.and_eq_true] at told
          obtain ⟨start, upTo, sub⟩ := inv.member.1 told.1.2
          have read : s.sub.read = some (start, upTo) := by rw [sub]; rfl
          have before : Begun u s.conn.accepted :=
            (views.begun (by simp [read])).2 (by rw [sub]; rfl)
          rcases (sendErr_cases s.conn codeHalted err.text u.name).2 with same | added
          · exact views.keep rfl same rfl (fun _ => rfl) fun _ _ => id
          · constructor
            · intro _
              dsimp only
              rw [added, sub]
              exact iff_of_true (before.append _) rfl
            · intro start' upTo' here
              cases read.symm.trans here
              dsimp only
              rw [added]
              exact (views.atOffset start upTo read).error before codeHalted err.text u.name
      · exact views.keep rfl rfl rfl (fun _ => rfl) fun _ _ => id

theorem views_readLog (inv : Inv s) (sub : s.sub = .idle) (calm : orderly u s .session = true)
    (honest : Honest u held s .session) (stepped : sessionStep u s = some t) : Views u held t := by
  have empty : s.conn.accepted = [] := inv.untouched sub
  have reached : u.resumeAt ≤ s.inst.log.lastOffset := by simpa [orderly, sub] using calm
  simp only [sessionStep, sub] at stepped
  split_ifs at stepped with waiting resumes fresh
  · rw [Log.after_eq_drop _ resumes.le reached] at stepped
    cases stepped
    constructor
    · intro _
      exact iff_of_true (.inr resumes) rfl
    · intro start upTo here messages first _
      cases here
      obtain ⟨cache, found, same⟩ := honest sub resumes
      dsimp only at first
      rw [empty] at first
      rw [List.prefix_nil.1 first]
      refine ⟨cache, ?_, same⟩
      rw [show changes [] = 0 from rfl, Int.natCast_zero, add_zero]
      exact found
  · cases stepped
    have unbegun : ¬ Begun u [] := by simp [Begun, fresh]
    constructor
    · intro _
      dsimp only
      rw [empty]
      exact iff_of_false unbegun (by simp [Sub.waits])
    · intro start upTo here messages first begun
      dsimp only at first
      rw [empty] at first
      rw [List.prefix_nil.1 first] at begun
      exact absurd begun unbegun
  · cases stepped
    exact views_unread rfl

theorem views_session (inv : Inv s) (chained : Chained s) (views : Views u held s)
    (calm : orderly u s .session = true) (honest : Honest u held s .session)
    (stepped : sessionStep u s = some t) : Views u held t := by
  cases sub : s.sub with
  | idle => exact views_readLog inv sub calm honest stepped
  | offset start =>
      simp only [sessionStep, sub, Option.some.injEq] at stepped
      subst stepped
      exact views.keep rfl rfl (by rw [sub]; rfl) (fun _ => by rw [sub]; rfl) fun _ _ => id
  | rows start rows =>
      have unbegun : ¬ Begun u s.conn.accepted := by
        rw [views.begun (by simp [sub, Sub.read]), sub]
        simp [Sub.waits]
      obtain ⟨cache, found, rfl⟩ := inv.sampled start rows sub
      simp only [sessionStep, sub] at stepped
      split_ifs at stepped
      · rcases s.conn.enqueue_cases ⟨.snapshot u.name 0 start cache.values, some u.key⟩ with
          ⟨-, ok, -, accepted⟩ | refused
        · generalize s.conn.enqueue ⟨.snapshot u.name 0 start cache.values, some u.key⟩ = result
            at *
          obtain ⟨conn, flag⟩ := result
          cases ok
          cases stepped
          dsimp only at accepted
          constructor
          · intro _
            dsimp only
            rw [accepted]
            exact iff_of_true (.inl (by simp)) rfl
          · intro start' upTo' here
            cases here
            dsimp only
            rw [accepted]
            exact AtOffset.snapshot unbegun found u.name 0 start (some u.key)
        · rw [refused] at stepped
          cases stepped
          exact views_unread rfl
      · cases stepped
        exact views_unread rfl
  | replay start upTo events =>
      have read : s.sub.read = some (start, upTo) := by rw [sub]; rfl
      have begun : s.sub.waits = false := by rw [sub]; rfl
      cases events with
      | nil =>
          simp only [sessionStep, sub, Option.some.injEq] at stepped
          subst stepped
          exact views.keep rfl rfl (by rw [sub]; rfl) (fun _ => by rw [sub]; rfl) fun _ _ => id
      | cons ev events =>
          have marshals : ev.row.marshals u.exotic = true := by simpa [orderly, sub] using calm
          have apart : s.member = false := inv.unjoined (by simp [sub])
          have logged := chained.replayed ev (by simp [sub, Sub.remaining])
          have window := (inv.window start upTo read apart).1
          rw [sub] at window
          have next : ev.offset = start + s.offsets.length + 1 := (contiguous_append.1 window).2.1
          simp only [sessionStep, sub] at stepped
          rcases deliverChange_cases u s.conn marshals with
            ⟨-, ok, -, accepted⟩ | ⟨refused, -, -⟩
          · generalize deliverChange u s.conn ev = result at *
            obtain ⟨conn, flag⟩ := result
            cases ok
            cases stepped
            have same : (Sub.replay start upTo events).read = some (start, upTo) := rfl
            exact views.sends chained read begun logged next accepted same rfl s.work
          · generalize deliverChange u s.conn ev = result at *
            obtain ⟨conn, flag⟩ := result
            cases refused
            cases stepped
            exact views_unread rfl
  | served start upTo =>
      simp only [sessionStep, sub, Option.some.injEq] at stepped
      subst stepped
      exact views.keep rfl rfl (by rw [sub]; rfl) (fun _ => by rw [sub]; rfl) fun _ _ => id
  | subscribed start upTo => simp [sessionStep, sub] at stepped
  | failed => simp [sessionStep, sub] at stepped
  | resnapshot => simp [sessionStep, sub] at stepped

theorem views_step {ev : Ev} (inv : Inv s) (chained : Chained s) (views : Views u held s)
    (calm : orderly u s ev = true) (honest : Honest u held s ev)
    (stepped : step u s ev = some t) : Views u held t := by
  cases ev with
  | connect =>
      simp only [step] at stepped
      split_ifs at stepped
      cases stepped
      exact views.keep rfl rfl rfl (fun _ => rfl) fun _ _ => id
  | copy ch =>
      simp only [step] at stepped
      split at stepped
      · cases stepped
        exact views.keep rfl rfl rfl (fun _ => rfl) fun _ _ => id
      · cases stepped
  | fanOut => exact views_fanOut inv chained views calm stepped
  | session => exact views_session inv chained views calm honest stepped
  | pump =>
      simp only [step, Option.map_eq_some_iff] at stepped
      obtain ⟨conn, pumped, rfl⟩ := stepped
      exact views.keep rfl (Conn.pump_spec pumped).1 rfl (fun _ => rfl) fun _ _ => id

theorem Views.mirrored (inv : Inv s) (views : Views u held s) : Mirrored u held s where
  atOffset := views.atOffset
  current := by
    intro start upTo sub opened quiet settled
    have read : s.sub.read = some (start, upTo) := by rw [sub]; rfl
    have begun : Begun u s.conn.accepted := (views.begun (by simp [read])).2 (by rw [sub]; rfl)
    obtain ⟨cache, found, same⟩ := views.atOffset start upTo read _ (List.prefix_refl _) begun
    obtain ⟨c, last, written⟩ := inv.settled
    rw [show start + (changes s.conn.accepted : Int) = s.inst.log.lastOffset from
      inv.delivered.complete start upTo sub opened quiet, last] at found
    cases found
    have current : s.inst.cache = cache := by
      cases work : s.work <;> simp_all [Work.Writes]
    rw [same, ← current]
    rfl

/-- **The client holds what the stream holds.**  In every state of an orderly run the
client, after any first part of its messages, holds the rows of the stream at the offset
it has reached. -/
theorem client_view_exact (u : Setup C) (held : Multiset Row) (keyed : u.inst.Keyed)
    {events : List Ev}
    (calm : (machine u).Meets
      (fun s ev => orderly u s ev = true ∧ Honest u held s ev ∧ Keeps s ev) u.start events) :
    (machine u).Along (Mirrored u held) u.start events := by
  refine Machine.along_of_meets (I := fun s => Inv s ∧ Chained s ∧ Views u held s)
    (fun _ all => all.2.2.mirrored all.1) ?_
    ⟨inv_start u, chained_start keyed, views_start u held⟩ calm
  rintro s ev t ⟨inv, chained, views⟩ ⟨calm, honest, keeps⟩ stepped
  exact ⟨inv_step inv calm stepped, chained_step inv chained keeps stepped,
    views_step inv chained views calm honest stepped⟩

namespace Tasks

instance (inst : Instance C) (ch : Change) : Decidable (inst.KeepsKey (.apply ch)) :=
  decidable_of_iff
    (ch.op = .update → tableMatch inst.defn ch = true →
      ∀ found ∈ (inst.lookup (firstNonNil ch.old ch.new)).toOption,
        inst.filter.match (some (patchRow found.2 ch.old ch.new)) = true →
          pkKey inst.defn.primaryKey (patchRow found.2 ch.old ch.new) = .ok found.1) (by
    refine imp_congr_right fun _ => imp_congr_right fun _ => ?_
    cases inst.lookup (firstNonNil ch.old ch.new) <;> simp [Except.toOption, Prod.ext_iff])

instance (s : State C) : (ev : Ev) → Decidable (Keeps s ev)
  | .fanOut =>
      match work : s.work with
      | .copied ch _ => decidable_of_iff (s.inst.skips ch = false → s.inst.KeepsKey (.apply ch))
          (by simp [Keeps, work])
      | .idle | .cached _ _ | .applied _ _ | .due _ | .refused _ _ =>
          .isTrue (by simp [Keeps, work])
  | .connect | .copy _ | .session | .pump => .isTrue trivial

instance (u : Setup C) (held : Multiset Row) (s : State C) :
    (ev : Ev) → Decidable (Honest u held s ev)
  | .session =>
      match sub : s.sub with
      | .idle => decidable_of_iff
          (0 < u.resumeAt → ∃ cache ∈ s.marks.lookup u.resumeAt, held = cache.values)
          (by simp [Honest, sub])
      | .offset _ | .rows _ _ | .replay _ _ _ | .served _ _ | .subscribed _ _ | .failed
      | .resnapshot => .isTrue (by simp [Honest, sub])
  | .connect | .copy _ | .fanOut | .pump => .isTrue trivial

def returning : Setup Unit := { setup with resumeAt := 1 }

def updated : Change :=
  { inserted with
    op := .update, new := some (KeyMap.ofList [("id", .int64 1), ("done", .bool true)]) }

/-- Two changes before the client comes back at offset 1, one after. -/
def resumed : List Ev :=
  [.copy inserted, .fanOut, .fanOut, .fanOut, .copy updated, .fanOut, .fanOut, .fanOut,
    .connect, .session, .session, .session, .session,
    .copy { inserted with op := .delete, new := none, old := inserted.new },
    .fanOut, .fanOut, .fanOut, .fanOut]

theorem client_view_exact_resumed :
    ∃ t, (machine returning).run returning.start resumed = some t ∧ t.offsets = [2, 3] ∧
      Mirrored returning {KeyMap.ofList [("id", .int64 1)]} t := by
  have keyed : returning.inst.Keyed := by
    intro key row found
    cases found
  have calm : (machine returning).Meets (fun s ev => orderly returning s ev = true ∧
      Honest returning {KeyMap.ofList [("id", .int64 1)]} s ev ∧ Keeps s ev) returning.start
      resumed := by
    decide +kernel
  exact ⟨_, rfl, by decide +kernel, (client_view_exact returning _ keyed calm).last rfl⟩

end Tasks

end Tether.Subscribe
