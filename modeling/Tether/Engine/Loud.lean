/-
# Tether.Engine.Loud — a stream that fails is halted, and says so

`dispatchChange` treats the errors of `Apply` in two ways.  A drifted or halted stream
is reported to every session subscribed to its shape name.  Any other error is logged
and the loop goes on: the change is missing from the stream, the log stays open, and
the next change is applied on top of the gap.

`Loud` is the law for one dispatch, `NeverResumes` the one for what follows in a run.
With room in the buffers for the notices, both hold for a run exactly as long as no
live stream is given a change that it accepts and cannot project (`loud_iff`): one
without a key column, or with an operation it does not know.
-/
import Tether.Engine.Dispatch
import Tether.Lib.Machine

namespace Tether

open Lib Wal Shape Transport

set_option autoImplicit false

variable {C : Type}

/-- `Apply` returns an error. -/
def Shape.Instance.Fails (inst : Instance C) (ch : Change) : Prop :=
  ∃ err, (inst.apply ch).2 = .error err

namespace Engine

/-- Session `s` (under `id`) has been sent the halt of the shape. -/
def SendsHalt (e : Engine C) (ch : Change) (id : String) (s : Session C) (shapeName : String) :
    Prop :=
  ∃ text, e.Sends ch id s ⟨.error codeHalted text shapeName, none⟩

/-- After the dispatch the change has been applied to every stream it concerns, or the
stream is halted and its subscribers have been told. -/
def Loud (e : Engine C) (ch : Change) : Prop :=
  ∀ key inst, ⟨key, inst⟩ ∈ e.streams.entries → inst.reaches ch = true → inst.Fails ch →
    (inst.apply ch).1.log.halted ≠ none ∧
      ∀ id s, e.sessions.lookup id = some s → shapeNameOf key ∈ s.shapes →
        e.SendsHalt ch id s (shapeNameOf key)

/-- Every live stream can project the change, if it concerns it and its fingerprint is
accepted. -/
def Projects (e : Engine C) (ch : Change) : Prop :=
  ∀ key inst, ⟨key, inst⟩ ∈ e.streams.entries → inst.reaches ch = true →
    inst.log.halted = none →
      ∀ fp, inst.checkFingerprint ch.relationFingerprint = .ok { inst with fingerprint := fp } →
        ∀ err, inst.project ch ≠ .error err

/-- The row that the change is keyed by has every key column, and the operation is one that
`Apply` knows.  A row that is inserted without matching the filter is not keyed. -/
def Keyable (inst : Instance C) (ch : Change) : Prop :=
  match ch.op with
  | .insert => ∀ row ∈ ch.new, inst.filter.match (some row) = true →
      ∀ col ∈ inst.defn.primaryKey, col ∈ row
  | .delete => ∀ row ∈ ch.old, ∀ col ∈ inst.defn.primaryKey, col ∈ row
  | .update => ∀ row ∈ firstNonNil ch.old ch.new, ∀ col ∈ inst.defn.primaryKey, col ∈ row
  | .unknown _ => False

theorem pkKey_fails_iff {pk : List String} {row : Row} (nonempty : pk ≠ []) :
    (∀ err, pkKey pk row ≠ .error err) ↔ ∀ col ∈ pk, col ∈ row := by
  constructor
  · intro keyed
    cases outcome : pkKey pk row with
    | ok key => exact present_of_pkKey outcome
    | error err => exact absurd outcome (keyed err)
  · intro present err failed
    cases failed.symm.trans (pkKey_of_present nonempty present)

theorem map_fails_iff {α β : Type} {r : Except ShapeError α} {f : α → β} :
    (∀ err, r.map f ≠ .error err) ↔ ∀ err, r ≠ .error err := by
  cases r <;> simp [Except.map]

/-- A projection fails exactly for a missing key column or an unknown operation. -/
theorem project_fails_iff {inst : Instance C} {ch : Change}
    (nonempty : inst.defn.primaryKey ≠ []) :
    (∀ err, inst.project ch ≠ .error err) ↔ Keyable inst ch := by
  have looked : ∀ row, (∀ err, inst.lookup row ≠ .error err) ↔
      ∀ r ∈ row, ∀ col ∈ inst.defn.primaryKey, col ∈ r := by
    rintro (_ | row)
    · simp [Instance.lookup]
    · simp [Instance.lookup, map_fails_iff, pkKey_fails_iff nonempty]
  cases op : ch.op with
  | insert =>
      cases neu : ch.new with
      | none => simp [Instance.project, Keyable, op, neu, Instance.applyInsert]
      | some row =>
          by_cases matched : inst.filter.match (some row) = true
          · simp [Instance.project, Keyable, op, neu, Instance.applyInsert, matched,
              map_fails_iff, pkKey_fails_iff nonempty]
          · simp [Instance.project, Keyable, op, neu, Instance.applyInsert, matched]
  | delete =>
      simp only [Instance.project, Keyable, op, Instance.applyDelete, map_fails_iff, looked]
  | update =>
      simp only [Instance.project, Keyable, op, Instance.applyUpdate, map_fails_iff, looked]
  | unknown text => simp [Instance.project, Keyable, op]

/-- `Projects`, in terms of the columns of the change. -/
theorem projects_iff {e : Engine C} {ch : Change}
    (nonempty : ∀ key inst, ⟨key, inst⟩ ∈ e.streams.entries → inst.defn.primaryKey ≠ []) :
    e.Projects ch ↔ ∀ key inst, ⟨key, inst⟩ ∈ e.streams.entries → inst.reaches ch = true →
      inst.log.halted = none →
        ∀ fp, inst.checkFingerprint ch.relationFingerprint = .ok { inst with fingerprint := fp } →
          Keyable inst ch :=
  forall₃_congr fun key inst here => forall₄_congr fun _ _ _ _ =>
    project_fails_iff (nonempty key inst here)

/-- Every connection is open and has room for the notices of one dispatch. -/
def Roomy (e : Engine C) (ch : Change) : Prop :=
  ∀ id s, e.sessions.lookup id = some s →
    Conn.Room (failures ch e.streams.entries).length s.conn

/-! ## The notices -/

theorem halts_of_checkFingerprint {inst : Instance C} {fp : String} {err : ShapeError}
    (refused : inst.checkFingerprint fp = .error err) : halts err = true := by
  unfold Instance.checkFingerprint at refused
  split_ifs at refused
  cases refused
  rfl

/-- An error leaves a halted log and is reported, or it is a failed projection. -/
theorem fails_cases {inst : Instance C} {ch : Change} {err : ShapeError}
    (failed : (inst.apply ch).2 = .error err) :
    ((inst.apply ch).1.log.halted ≠ none ∧ halts err = true) ∨
      (inst.log.halted = none ∧ (inst.apply ch).1.log.halted = none ∧ inst.project ch = .error err ∧
        ∃ fp, inst.checkFingerprint ch.relationFingerprint =
          .ok { inst with fingerprint := fp }) := by
  have stepped := inst.apply_step ch
  generalize inst.apply ch = result at stepped failed ⊢
  obtain ⟨inst', outcome⟩ := result
  cases stepped with
  | halted dead =>
      cases failed
      refine Or.inl ⟨fun live => ?_, rfl⟩
      cases dead.symm.trans live
  | ignored _ _ => cases failed
  | drifted _ _ _ refused =>
      cases failed
      exact Or.inl ⟨by simp [Log.halt], halts_of_checkFingerprint refused⟩
  | failed live _ _ accepted error =>
      cases failed
      exact Or.inr ⟨live, live, error, _, accepted⟩
  | silent _ _ _ _ _ => cases failed
  | moved _ _ _ _ _ => cases failed

theorem notifyAll_told (s : Session C) (fails : List (String × String))
    (room : Conn.Room fails.length s.conn) {fail : String × String} (member : fail ∈ fails)
    (subscribed : fail.1 ∈ s.shapes) :
    ⟨.error codeHalted fail.2 fail.1, none⟩ ∈
      (s.notifyAll fails).conn.queue.drop s.conn.queue.length := by
  induction fails generalizing s with
  | nil => cases member
  | cons first fails ih =>
      have room' : Conn.Room (fails.length + 1) s.conn := room
      have shapes := s.notifyHalted_shapes first.1 first.2
      obtain ⟨-, later⟩ := notifyAll_sends (s.notifyHalted first.1 first.2) fails
      obtain ⟨added, grown, -⟩ := later
      by_cases told : first.1 ∈ s.shapes
      · have sent : (s.notifyHalted first.1 first.2).conn =
            (s.conn.enqueue ⟨.error codeHalted first.2 first.1, none⟩).1 := by
          rw [Session.notifyHalted, if_pos told]
          rfl
        obtain ⟨-, queue, left⟩ := room'.enqueue ⟨.error codeHalted first.2 first.1, none⟩
        rw [← sent] at queue left
        rcases List.mem_cons.1 member with rfl | later
        · rw [Session.notifyAll, List.foldl_cons, ← Session.notifyAll, grown, queue,
            List.append_assoc, List.drop_left]
          exact List.mem_append_left _ List.mem_cons_self
        · have fresh := ih _ left later (shapes ▸ subscribed)
          rw [queue, List.length_append] at fresh
          rw [Session.notifyAll, List.foldl_cons, ← Session.notifyAll]
          exact List.mem_of_mem_drop (by rwa [List.drop_drop])
      · have same : s.notifyHalted first.1 first.2 = s := if_neg told
        rcases List.mem_cons.1 member with rfl | later
        · exact absurd subscribed told
        · have fresh := ih s (room'.mono (Nat.le_succ _)) later subscribed
          rw [Session.notifyAll, List.foldl_cons, same]
          exact fresh

theorem mem_failures {ch : Change} {streams : List (Σ _ : String, Instance C)} {key : String}
    {inst : Instance C} {err : ShapeError} (here : ⟨key, inst⟩ ∈ streams)
    (failed : (inst.apply ch).2 = .error err) (reported : halts err = true) :
    (shapeNameOf key, err.text) ∈ failures ch streams :=
  List.mem_filterMap.2 ⟨⟨key, inst⟩, here, by simp [failed, reported]⟩

variable {e : Engine C} {ch : Change}

/-- Every subscriber with room is told of a reported failure. -/
theorem sendsHalt_of_fails (roomy : e.Roomy ch) {key : String} {inst : Instance C}
    {err : ShapeError} (here : ⟨key, inst⟩ ∈ e.streams.entries)
    (failed : (inst.apply ch).2 = .error err) (reported : halts err = true) {id : String}
    {s : Session C} (present : e.sessions.lookup id = some s)
    (subscribed : shapeNameOf key ∈ s.shapes) : e.SendsHalt ch id s (shapeNameOf key) := by
  have told := notifyAll_told s (failures ch e.streams.entries) (roomy id s present)
    (mem_failures here failed reported) subscribed
  refine ⟨err.text, present, (s.notifyAll (failures ch e.streams.entries)).deliver e.exotic
    (emissions ch e.streams.entries), ?_, ?_⟩
  · rw [dispatchChange_sessions, KeyMap.lookup_mapValues, present]
    rfl
  · -- the events are delivered after the notices
    obtain ⟨added, grown, -⟩ := deliver_sends e.exotic
      (s.notifyAll (failures ch e.streams.entries)) (emissions ch e.streams.entries)
    rw [grown, List.drop_append]
    exact List.mem_append_left _ told

/-- **One dispatch.**  With room for the notices it is loud exactly when every live
stream can project the change. -/
theorem loud_iff_projects (roomy : e.Roomy ch) : e.Loud ch ↔ e.Projects ch := by
  constructor
  · intro loud key inst here concerns live fp accepted err refused
    obtain ⟨mine, passes⟩ := Instance.reaches_iff.1 concerns
    have failed : (inst.apply ch).2 = .error err ∧ (inst.apply ch).1.log.halted = none := by
      have same : ({ inst with fingerprint := fp } : Instance C).project ch = inst.project ch := rfl
      simp [Instance.apply, live, mine, passes, accepted, same, refused]
    exact (loud key inst here concerns ⟨err, failed.1⟩).1 failed.2
  · rintro projects key inst here concerns ⟨err, failed⟩
    rcases fails_cases failed with ⟨dead, reported⟩ | ⟨live, -, refused, fp, accepted⟩
    · exact ⟨dead, fun id s present subscribed =>
        sendsHalt_of_fails roomy here failed reported present subscribed⟩
    · exact absurd refused (projects key inst here concerns live fp accepted err)

end Engine

/-! ## Runs -/

namespace Loud

/-- The engine, and the registered streams that a change has been skipped on. -/
structure State (C : Type) where
  engine : Engine C
  skipped : List String := []

/-- What happens to an engine between two changes: its sessions come, go, subscribe and
drain their buffers; a subscription registers a stream, perhaps in place of another one;
slot-lag recovery drops them all. -/
inductive Turn (C : Type) where
  | dispatch (ch : Change)
  | sessions (after : KeyMap String (Session C))
  | register (key : String) (inst : Instance C)
  | recover

/-- The streams the change concerns and that return an error for it. -/
def missed (ch : Change) (streams : List (Σ _ : String, Instance C)) : List String :=
  (streams.filter fun entry =>
    entry.2.reaches ch && !(entry.2.apply ch).2.isOk).map Sigma.fst

def step (s : State C) : Turn C → Option (State C)
  | .dispatch ch =>
      some ⟨s.engine.dispatchChange ch, s.skipped ++ missed ch s.engine.streams.entries⟩
  | .sessions after => some { s with engine := { s.engine with sessions := after } }
  | .register key inst =>
      -- a stream that is replaced takes its gaps with it
      some ⟨{ s.engine with streams := s.engine.streams.insert key inst },
        s.skipped.filter fun key' => key' ≠ key⟩
  | .recover => some ⟨{ s.engine with streams := ∅ }, []⟩

/-- Any engine, with nothing skipped yet. -/
def machine (C : Type) : Machine (State C) (Turn C) := ⟨fun s => s.skipped = [], step⟩

/-- A law for every dispatch. -/
def AtDispatch (law : Engine C → Change → Prop) (s : State C) : Turn C → Prop
  | .dispatch ch => law s.engine ch
  | _ => True

/-- No dispatch applies a change to a stream that an earlier one was skipped on. -/
def NeverResumes (s : State C) : Turn C → Prop
  | .dispatch ch => ∀ key ∈ s.skipped, ∀ inst, s.engine.streams.lookup key = some inst →
      inst.reaches ch = true → inst.Fails ch
  | _ => True

/-- Every stream that missed a change is there and refuses every later one. -/
def Stopped (s : State C) : Prop :=
  ∀ key ∈ s.skipped, ∃ inst, s.engine.streams.lookup key = some inst ∧ inst.log.halted ≠ none

theorem mem_missed {ch : Change} {streams : List (Σ _ : String, Instance C)} {key : String}
    (member : key ∈ missed ch streams) :
    ∃ inst, ⟨key, inst⟩ ∈ streams ∧ inst.reaches ch = true ∧ inst.Fails ch := by
  obtain ⟨⟨key', inst⟩, kept, rfl⟩ := List.mem_map.1 member
  obtain ⟨here, chosen⟩ := List.mem_filter.1 kept
  simp only [Bool.and_eq_true, Bool.not_eq_true'] at chosen
  obtain ⟨concerns, failed⟩ := chosen
  refine ⟨inst, here, concerns, ?_⟩
  cases outcome : (inst.apply ch).2 with
  | error err => exact ⟨err, outcome⟩
  | ok evs => simp [outcome, Except.isOk, Except.toBool] at failed

/-- A halted stream returns an error for every change, and stays as it is. -/
theorem apply_of_halted {inst : Instance C} (dead : inst.log.halted ≠ none) (ch : Change) :
    inst.Fails ch ∧ (inst.apply ch).1 = inst := by
  obtain ⟨cause, found⟩ := Option.ne_none_iff_exists'.1 dead
  have refused : inst.apply ch = (inst, .error (.halted cause)) := by
    simp [Instance.apply, found]
  exact ⟨⟨_, by rw [refused]⟩, by rw [refused]⟩

theorem stopped_dispatch {s : State C} {ch : Change} (stopped : Stopped s)
    (loud : s.engine.Loud ch) :
    Stopped ⟨s.engine.dispatchChange ch, s.skipped ++ missed ch s.engine.streams.entries⟩ := by
  intro key member
  rcases List.mem_append.1 member with old | new
  · obtain ⟨inst, found, dead⟩ := stopped key old
    refine ⟨inst, ?_, dead⟩
    rw [dispatchChange_lookup, found, Option.map_some, (apply_of_halted dead ch).2]
  · obtain ⟨inst, here, concerns, failed⟩ := mem_missed new
    refine ⟨(inst.apply ch).1, ?_, (loud key inst here concerns failed).1⟩
    rw [dispatchChange_lookup, AList.mem_lookup_iff.2 here, Option.map_some]

theorem stopped_step {s t : State C} {turn : Turn C} (stopped : Stopped s)
    (loud : AtDispatch Engine.Loud s turn) (stepped : step s turn = some t) : Stopped t := by
  cases turn with
  | dispatch ch =>
      cases stepped
      exact stopped_dispatch stopped loud
  | sessions after =>
      cases stepped
      exact stopped
  | register key inst =>
      cases stepped
      intro key' member
      obtain ⟨old, other⟩ := List.mem_filter.1 member
      obtain ⟨inst', found, dead⟩ := stopped key' old
      refine ⟨inst', ?_, dead⟩
      rw [← found]
      exact AList.lookup_insert_ne (of_decide_eq_true other)
  | recover =>
      cases stepped
      intro key member
      cases member

theorem stopped_neverResumes {s : State C} {turn : Turn C} (stopped : Stopped s) :
    NeverResumes s turn := by
  cases turn with
  | dispatch ch =>
      intro key member inst found _
      obtain ⟨inst', found', dead⟩ := stopped key member
      cases found.symm.trans found'
      exact (apply_of_halted dead ch).1
  | sessions | register | recover => trivial

theorem loud_atDispatch {s : State C} {turn : Turn C} (roomy : AtDispatch Engine.Roomy s turn) :
    AtDispatch Engine.Loud s turn ↔ AtDispatch Engine.Projects s turn := by
  cases turn with
  | dispatch ch => exact Engine.loud_iff_projects roomy
  | sessions | register | recover => exact Iff.rfl

/-- **Loud failures.**  On any run with room in the buffers for the notices, every
change is applied or its stream halts and tells its subscribers, and no stream goes on
after a change it missed, exactly as long as every live stream can project every change
that concerns it. -/
theorem loud_iff (s : State C) (fresh : (machine C).init s) (turns : List (Turn C))
    (roomy : (machine C).Meets (AtDispatch Engine.Roomy) s turns) :
    ((machine C).Meets (AtDispatch Engine.Loud) s turns ∧
        (machine C).Meets NeverResumes s turns) ↔
      (machine C).Meets (AtDispatch Engine.Projects) s turns := by
  have start : Stopped s := by
    intro key member
    rw [fresh] at member
    cases member
  constructor
  · rintro ⟨loud, -⟩
    exact (loud.and roomy).imp (I := fun _ => True) (fun _ _ _ _ _ _ => trivial)
      (fun _ _ _ _ both _ => (loud_atDispatch both.2).1 both.1) trivial
  · intro projects
    have loud : (machine C).Meets (AtDispatch Engine.Loud) s turns :=
      (projects.and roomy).imp (I := fun _ => True) (fun _ _ _ _ _ _ => trivial)
        (fun _ _ _ _ both _ => (loud_atDispatch both.2).2 both.1) trivial
    exact ⟨loud, loud.imp (I := Stopped) (fun _ _ _ stopped here stepped =>
      stopped_step stopped here stepped) (fun _ _ _ stopped _ _ => stopped_neverResumes stopped)
      start⟩

namespace Pages

def pages : Definition Unit :=
  { name := "pages", schema := "", table := "", primaryKey := ["slug"],
    bind := some fun _ => .ok (.notNull "slug") }

def page (slug title : String) : Row :=
  KeyMap.ofList [("slug", .string slug), ("title", .string title)]

def key : String := streamKey "pages" ""

/-- One page, read while the table had the fingerprint `v1`. -/
def stream : Instance Unit :=
  (({ Instance.start pages (.notNull "slug") with fingerprint := "v1" }).loadSnapshot 5
    [some (page "intro" "Welcome")]).1

/-- One subscribed session. -/
def engine : Engine Unit where
  registry _ := some pages
  claimsKey _ := ""
  exotic _ := none
  streams := AList.singleton key stream
  sessions := KeyMap.ofList [("c1", { conn := .new 64, claims := (), shapes := {"pages"} })]

def change (op : Op) (fp : String) (lsn : LSN) (row : Row) : Change :=
  { schema := "public", table := "pages", op := op, relationFingerprint := fp, commitLSN := lsn,
    new := some row }

def drifted : Change := change .insert "v2" 10 (page "faq" "Questions")

/-- An update that changes the title only: the key is stored out of line, and
Postgres does not send it. -/
def retitled : Change := change .update "v1" 10 (KeyMap.ofList [("title", .string "Hello")])

def inserted : Change := change .insert "v1" 20 (page "faq" "Questions")

theorem stream_of_mem {k : String} {inst : Instance Unit}
    (here : ⟨k, inst⟩ ∈ engine.streams.entries) : k = key ∧ inst = stream := by
  have only : engine.streams.entries = [⟨key, stream⟩] := rfl
  rw [only, List.mem_singleton] at here
  cases here
  exact ⟨rfl, rfl⟩

def roomFor (n : Nat) (sessions : KeyMap String (Session Unit)) : Bool :=
  Finmap.all (fun _ s => !s.conn.closed && s.conn.queue.length + n ≤ s.conn.capacity) sessions

theorem roomy_of_roomFor {e : Engine Unit} {ch : Change}
    (all : roomFor (failures ch e.streams.entries).length e.sessions = true) : e.Roomy ch := by
  intro id s present
  have here := (KeyMap.all_iff _ _).1 all id s present
  simp only [Bool.and_eq_true, Bool.not_eq_true', decide_eq_true_eq] at here
  exact here

/-- A drift, and then a change that the halted stream refuses. -/
theorem loud_iff_drifted :
    (machine Unit).Meets (AtDispatch Engine.Loud) ⟨engine, []⟩
        [.dispatch drifted, .dispatch inserted] ∧
      (machine Unit).Meets NeverResumes ⟨engine, []⟩ [.dispatch drifted, .dispatch inserted] := by
  refine (loud_iff ⟨engine, []⟩ rfl _ ?_).2 ?_
  · rintro _ ⟨⟩
    refine ⟨roomy_of_roomFor (by decide +kernel), ?_⟩
    rintro _ ⟨⟩
    exact ⟨roomy_of_roomFor (by decide +kernel), trivial⟩
  · rintro _ ⟨⟩
    refine ⟨?_, ?_⟩
    · intro k inst here _ _ fp accepted
      obtain ⟨rfl, rfl⟩ := stream_of_mem here
      cases accepted
    · rintro _ ⟨⟩
      refine ⟨?_, trivial⟩
      intro k inst here _ live
      have only : (engine.dispatchChange drifted).streams.entries =
          [⟨key, (stream.apply drifted).1⟩] := rfl
      rw [only, List.mem_singleton] at here
      cases here
      exact absurd live (by decide +kernel)

/-- The update is skipped without a word, and the insert after it is applied. -/
theorem retitled_skipped :
    ¬ engine.Loud retitled ∧
      ¬ (machine Unit).Meets NeverResumes ⟨engine, []⟩ [.dispatch retitled, .dispatch inserted] ∧
      ((machine Unit).run ⟨engine, []⟩ [.dispatch retitled, .dispatch inserted]).map (fun s =>
        (s.skipped, (s.engine.streams.lookup key).map fun inst =>
          (inst.log.halted, inst.materialized))) =
        some ([key], some (none, {page "faq" "Questions", page "intro" "Welcome"})) ∧
      ((engine.dispatchChange retitled).sessions.lookup "c1").map (fun s => s.conn.queue) =
        some [] := by
  have failed : (stream.apply retitled).2 = .error (.missingPrimaryKey "slug") := by
    decide +kernel
  refine ⟨fun loud => ?_, fun never => ?_, by decide +kernel, by decide +kernel⟩
  · exact (loud key stream (List.mem_singleton.2 rfl) rfl ⟨_, failed⟩).1 (by decide +kernel)
  · obtain ⟨-, later⟩ := never _ rfl
    obtain ⟨resumes, -⟩ := later _ rfl
    obtain ⟨err, refused⟩ := resumes key (by decide +kernel) (stream.apply retitled).1 rfl rfl
    have applied : ((stream.apply retitled).1.apply inserted).2.isOk = true := by decide +kernel
    rw [refused] at applied
    cases applied

end Pages

end Loud

end Tether
