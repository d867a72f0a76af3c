/-
# Tether.Engine.Sharing — who shares a stream

A stream is found by its key alone, and keeps the filter that was bound for the session
that created it.  By default the claims enter the key as `fmt.Sprint` prints them, which
sets no marks between the texts of a struct or slice: `{a b c}` is what it prints for
several pairs.

`Own` says that what a subscription was served satisfies the filter bound for the
session's own claims.  It holds in every run whose principals are told apart wherever
they are bound to different filters (`KeysApart`), if `snapshot.Take` returns rows of the
filter it was asked for (`TakesMatching`): every instance holds only rows of its own
filter (`Tether.Shape.Isolation`), and the instance found under a key has the filter of
whoever finds it.  Claims of one type without blanks in their strings are told apart
(`sprint_injective`).
-/
import Tether.Engine.Live
import Tether.Lib.Float64
import Tether.Lib.Joined
import Tether.Shape.Isolation

namespace Tether.Live

open Lib Wal Shape Transport

set_option autoImplicit false

/-- A field of a claims value. -/
inductive Field where
  | string (s : String)
  | int (n : Int64)
  deriving DecidableEq

/-- Claims that are structs or slices of strings and integers. -/
inductive Claims where
  | struct (fields : List Field)
  | slice (elems : List Field)
  deriving DecidableEq

def Field.sprint : Field → String
  | .string s => s
  | .int n => n.toInt.repr

/-- `fmt.Sprint`, the default claims key. -/
def Claims.sprint : Claims → String
  | .struct fields => "\x7b" ++ " ".intercalate (fields.map Field.sprint) ++ "\x7d"
  | .slice elems => "[" ++ " ".intercalate (elems.map Field.sprint) ++ "]"

def Claims.fields : Claims → List Field
  | .struct fields => fields
  | .slice elems => elems

/-- No string of the claims has a blank. -/
def Claims.Plain (c : Claims) : Prop := ∀ s, .string s ∈ c.fields → ' ' ∉ s.toList

def Field.SameKind : Field → Field → Prop
  | .string _, .string _ | .int _, .int _ => True
  | _, _ => False

/-- Fields at one place are of one type, as in two values of one Go type, and not just one
of the two is empty. -/
structure Claims.Alike (c c' : Claims) : Prop where
  empty : c.fields = [] ↔ c'.fields = []
  kinds : ∀ (i : Nat) (f f' : Field), c.fields[i]? = some f → c'.fields[i]? = some f' →
    f.SameKind f'

/-! ## What `fmt.Sprint` tells apart -/

theorem Field.sprint_inj {f f' : Field} (kind : f.SameKind f') (same : f.sprint = f'.sprint) :
    f = f' := by
  cases f with
  | string s =>
      cases f' with
      | string s' => exact congrArg Field.string same
      | int n' => exact kind.elim
  | int n =>
      cases f' with
      | string s' => exact kind.elim
      | int n' => exact congrArg Field.int (Int64.toInt_inj.1 (Float64.intRepr_inj same))

/-- The texts of the fields, none of which has a blank. -/
theorem Claims.Plain.free {c : Claims} (plain : c.Plain) :
    ∀ text ∈ c.fields.map fun f => f.sprint.toList, ' ' ∉ text := by
  intro text member
  obtain ⟨f, here, rfl⟩ := List.mem_map.1 member
  cases f with
  | string s => exact plain s here
  | int n => exact fun blank => absurd (Float64.numeric_intRepr _ ' ' blank) (by decide)

theorem Claims.toList_sprint (c : Claims) : ∃ first last, c.sprint.toList =
    first :: ([' '].intercalate (c.fields.map fun f => f.sprint.toList) ++ [last]) ∧
      (first = '[' ↔ ∃ elems, c = .slice elems) := by
  cases c with
  | struct fields =>
      refine ⟨'\x7b', '\x7d', ?_, iff_of_false (by decide) (by simp)⟩
      simp [Claims.sprint, Claims.fields, String.toList_intercalate, Function.comp_def]
  | slice elems =>
      refine ⟨'[', ']', ?_, iff_of_true rfl ⟨elems, rfl⟩⟩
      simp [Claims.sprint, Claims.fields, String.toList_intercalate, Function.comp_def]

/-- Texts of fields that are alike say what the fields are. -/
theorem fields_inj_of_kinds {fs fs' : List Field}
    (kinds : ∀ (i : Nat) (f f' : Field), fs[i]? = some f → fs'[i]? = some f' → f.SameKind f')
    (same : (fs.map fun f => f.sprint.toList) = fs'.map fun f => f.sprint.toList) : fs = fs' := by
  refine List.ext_getElem? fun i => ?_
  have texts := congrArg (fun texts => texts[i]?) same
  simp only [List.getElem?_map] at texts
  cases left : fs[i]? with
  | none =>
      rw [left] at texts
      exact (Option.map_eq_none_iff.1 texts.symm).symm
  | some f =>
      rw [left] at texts
      obtain ⟨f', right, text⟩ := Option.map_eq_some_iff.1 texts.symm
      rw [right, Field.sprint_inj (kinds i f f' left right) (String.toList_inj.1 text).symm]

/-- `fmt.Sprint` tells claims of one type without blanks apart. -/
theorem sprint_injective {c c' : Claims} (plain : c.Plain) (plain' : c'.Plain)
    (alike : c.Alike c') (same : c.sprint = c'.sprint) : c = c' := by
  obtain ⟨first, last, text, slice⟩ := c.toList_sprint
  obtain ⟨first', last', text', slice'⟩ := c'.toList_sprint
  rw [same, text'] at text
  obtain ⟨rfl, joined⟩ := List.cons.inj text
  have inner := (List.append_inj' joined rfl).1
  have fields : c.fields = c'.fields := by
    by_cases empty : c.fields = []
    · rw [empty, alike.empty.1 empty]
    · have empty' : c'.fields ≠ [] := fun none => empty (alike.empty.2 none)
      exact fields_inj_of_kinds alike.kinds
        (join_inj (by simpa using empty) (by simpa using empty') plain.free plain'.free inner.symm)
  have shape := slice.symm.trans slice'
  cases c <;> cases c'
  · exact congrArg Claims.struct fields
  · simp at shape
  · simp at shape
  · exact congrArg Claims.slice fields

variable {C : Type} {u : Setup C} {s t : State C}

/-- `Bind` returns the filter `f`. -/
def Binds (d : Definition C) (claims : C) (f : Filter) : Prop :=
  ∃ bind, d.bind = some bind ∧ bind claims = .ok f

theorem new_ok {d : Definition C} {claims : C} {inst : Instance C}
    (created : Instance.new d claims = .ok inst) :
    Binds d claims inst.filter ∧ inst = .start d inst.filter := by
  unfold Instance.new at created
  cases bound : d.bind with
  | none =>
      rw [bound] at created
      cases created
  | some bind =>
      rw [bound] at created
      dsimp only at created
      cases filtered : bind claims with
      | error err =>
          rw [filtered] at created
          cases created
      | ok f =>
          rw [filtered] at created
          cases created
          exact ⟨⟨bind, bound, filtered⟩, rfl⟩

def Setup.Registered (u : Setup C) (d : Definition C) : Prop := ∃ name, u.registry name = some d

/-- The rows a message carries. -/
def rowsOf : Message → Multiset Row
  | .snapshot _ _ _ rows => rows
  | .change _ _ _ row => {row}
  | .error _ _ _ => 0

/-- What was served satisfies the filter of the session's own claims. -/
def Served.Own (v : Served C) : Prop :=
  ∃ f, Binds v.defn v.claims f ∧ ∀ row ∈ rowsOf v.message, f.match (some row) = true

/-- The claims of the sessions that connect. -/
def principals (es : List (Ev C)) : List C :=
  es.filterMap fun e =>
    match e with
    | .connect claims => some claims
    | _ => none

/-- Two principals of `P` whose streams have one key are bound to the same filters. -/
def KeysApart (u : Setup C) (P : C → Prop) : Prop :=
  ∀ c c', P c → P c' → ∀ d d', u.Registered d → u.Registered d' → u.key d c = u.key d' c' →
    ∀ f, Binds d c f → Binds d' c' f

/-- `snapshot.Take` returns rows that satisfy the filter bound for the session. -/
def TakesMatching (s : State C) : Ev C → Bool
  | .take j _ rows =>
      match s.clients[j]? with
      | none => true
      | some c =>
          match c.phase with
          | .bound _ inst => rows.all fun row => inst.filter.match (some row)
          | _ => true
  | _ => true

theorem takesMatching_take {j : Nat} {c : Client C} {d : Definition C} {inst : Instance C}
    {lsn : LSN} {rows : List Row} (found : s.clients[j]? = some c) (phase : c.phase = .bound d inst)
    (matching : TakesMatching s (.take j lsn rows) = true) :
    ∀ row ∈ rows, inst.filter.match (some row) = true := by
  simpa [TakesMatching, found, phase] using matching

/-! ## The invariant -/

/-- What each phase of a subscription has read is of the session's own filter. -/
def Phase.Own (u : Setup C) (heap : List (Instance C)) (claims : C) : Phase C → Prop
  | .idle | .next | .served _ _ | .slow | .parting => True
  | .resume d _ | .refused d => u.Registered d
  | .found d _ a | .offset d a _ =>
      u.Registered d ∧ ∃ inst, heap[a]? = some inst ∧ Binds d claims inst.filter
  | .replay d _ events => ∃ f, Binds d claims f ∧ ∀ ev ∈ events, f.match (some ev.row) = true
  | .rows d _ _ read => ∃ f, Binds d claims f ∧ ∀ row ∈ read, f.match (some row) = true
  | .bound d inst => u.Registered d ∧ Binds d claims inst.filter ∧ inst.Isolated
  | .loaded d inst _ read =>
      u.Registered d ∧ Binds d claims inst.filter ∧ inst.Isolated ∧
        ∀ row ∈ read, inst.filter.match (some row) = true
  | .stored d _ _ read | .snapshot d _ _ read _ =>
      ∃ f, Binds d claims f ∧ ∀ row ∈ read, f.match (some row) = true

theorem Phase.Own.grow {heap heap' : List (Instance C)} {claims : C} {phase : Phase C}
    (own : phase.Own u heap claims) (grows : Grows heap heap') : phase.Own u heap' claims := by
  have held : ∀ {d : Definition C} {a : Nat},
      (u.Registered d ∧ ∃ inst, heap[a]? = some inst ∧ Binds d claims inst.filter) →
        u.Registered d ∧ ∃ inst, heap'[a]? = some inst ∧ Binds d claims inst.filter := by
    rintro d a ⟨registered, inst, found, binds⟩
    obtain ⟨inst', found', evolves⟩ := grows a inst found
    exact ⟨registered, inst', found', evolves.filter ▸ binds⟩
  cases phase with
  | found | offset => exact held own
  | _ => exact own

theorem Phase.Own.registered {heap : List (Instance C)} {claims : C} {phase : Phase C}
    {held : Option Nat} {d : Definition C} (own : phase.Own u heap claims)
    (takes : phase.Takes held d) : u.Registered d := by
  cases phase with
  | resume => exact takes.1 ▸ own
  | refused => exact takes ▸ own
  | found => exact takes.1 ▸ own.1
  | _ => cases takes

/-- Instances hold rows of their filter, also the one that is being written. -/
structure Filtered (s : State C) : Prop where
  heap : ∀ inst ∈ s.heap, inst.Isolated
  work : ∀ r key a m, s.work = .appending r key a m →
    ∃ inst, s.heap[a]? = some inst ∧ inst.filter.match (some m.row) = true

structure Shares (u : Setup C) (P : C → Prop) (s : State C) : Prop where
  filtered : Filtered s
  streams : ∀ key a, s.streams.lookup key = some a → ∃ inst, s.heap[a]? = some inst ∧
    ∃ d c, u.Registered d ∧ P c ∧ key = u.key d c ∧ Binds d c inst.filter
  clients : ∀ c ∈ s.clients, P c.session.claims ∧ c.phase.Own u s.heap c.session.claims
  trace : ∀ v, .served v ∈ s.trace → v.Own

/-! ## Rows of the instances -/

theorem isolated_applyBegin {inst : Instance C} (isolated : inst.Isolated) (ch : Change) :
    (inst.applyBegin ch).1.Isolated ∧ ∀ m, (inst.applyBegin ch).2 = .ok (some m) →
      (inst.applyBegin ch).1.filter.match (some m.row) = true := by
  rcases inst.applyBegin_cases ch with
    ⟨fp, log, after, events, -, silent⟩ | ⟨fp, m, after, -, decided⟩
  · rw [after]
    refine ⟨⟨isolated.cached, fun ev member => ?_⟩, fun m moved => absurd moved (silent m)⟩
    exact isolated.logged ev (events ▸ member)
  · rw [after]
    have supported := Instance.project_sound decided
    have moved := Instance.isolated_move isolated supported
    refine ⟨⟨moved.cached, isolated.logged⟩, fun m' same => ?_⟩
    cases same
    show inst.filter.match (some m.row) = true
    exact supported.match isolated

theorem isolated_append {inst : Instance C} {op : EventOp} {row : Row} {ev : Event} {log : Log}
    (isolated : inst.Isolated) (matched : inst.filter.match (some row) = true)
    (appended : inst.log.append op inst.defn.table row = .ok (ev, log)) :
    ({ inst with log := log } : Instance C).Isolated := by
  unfold Log.append at appended
  split at appended
  · cases appended
  · cases appended
    refine ⟨isolated.cached, fun ev member => ?_⟩
    rw [Log.push_events] at member
    rcases List.mem_append.1 member with old | new
    · exact isolated.logged ev old
    · cases List.mem_singleton.1 new
      exact matched

theorem filtered_set {heap : List (Instance C)} (isolated : ∀ inst ∈ heap, inst.Isolated) {a : Nat}
    {inst : Instance C} (own : inst.Isolated) : ∀ inst' ∈ heap.set a inst, inst'.Isolated := by
  intro inst' member
  rcases List.mem_or_eq_of_mem_set member with old | rfl
  · exact isolated inst' old
  · exact own

theorem afterError_ne_appending (r : Round) (key : String) (err : ShapeError) (r' : Round)
    (key' : String) (a : Nat) (m : Move) : State.afterError r key err ≠ .appending r' key' a m := by
  unfold State.afterError
  split <;> simp

theorem filtered_run (filtered : Filtered s) (stepped : RunStep s t) : Filtered t := by
  cases stepped with
  | silent work streams found silent after =>
      refine ⟨filtered_set filtered.heap
        (isolated_applyBegin (filtered.heap _ (List.mem_of_getElem? found)) _).1, ?_⟩
      intro r' key' a' m appending
      rcases after with rfl | ⟨err, rfl⟩
      · cases appending
      · exact absurd appending (afterError_ne_appending _ _ _ _ _ _ _)
  | cached work streams found moved =>
      obtain ⟨isolated, matched⟩ :=
        isolated_applyBegin (filtered.heap _ (List.mem_of_getElem? found)) _
      refine ⟨filtered_set filtered.heap isolated, fun r' key' a' m' appending => ?_⟩
      cases appending
      have inside := (List.getElem?_eq_some_iff.1 found).1
      exact ⟨_, by simp [inside], matched _ moved⟩
  | appended work found appended =>
      have isolated := filtered.heap _ (List.mem_of_getElem? found)
      obtain ⟨inst, here, matched⟩ := filtered.work _ _ _ _ work
      cases found.symm.trans here
      exact ⟨filtered_set filtered.heap (isolated_append isolated matched appended), by simp⟩
  | unappended work =>
      exact ⟨filtered.heap, fun _ _ _ _ appending =>
        absurd appending (afterError_ne_appending _ _ _ _ _ _ _)⟩
  | notify work after => exact ⟨filtered.heap, by rcases after with rfl | rfl <;> simp⟩
  | deliver work after => exact ⟨filtered.heap, by rcases after with rfl | rfl <;> simp⟩
  | @parted j rest work => exact ⟨filtered.heap, by cases rest <;> simp [Rest.work]⟩
  | _ => exact ⟨filtered.heap, by simp [State.clear]⟩

theorem loadSnapshot_kept {inst inst' : Instance C} {lsn : LSN} {rows : List (Option Row)}
    (isolated : inst.Isolated) (loaded : inst.loadSnapshot lsn rows = (inst', .ok ())) :
    inst'.Isolated ∧ inst'.filter = inst.filter := by
  have kept := Instance.isolated_call isolated (.loadSnapshot lsn rows)
  have frame := inst.extends_call (.loadSnapshot lsn rows)
  rw [Instance.call, loaded] at kept frame
  exact ⟨kept, frame.filter⟩

/-! ## A session's own steps -/

section Next

variable {heap : List (Instance C)} {streams : KeyMap String Nat} {j : Nat} {c c' : Client C}
  {notes : List (Note C)}

structure StepOwn (u : Setup C) (heap : List (Instance C)) (c c' : Client C)
    (notes : List (Note C)) : Prop where
  claims : c'.session.claims = c.session.claims
  phase : c'.phase.Own u heap c.session.claims
  notes : ∀ v, .served v ∈ notes → v.Own

theorem stepOwn_fail (claims : c'.session.claims = c.session.claims) (text : String) :
    StepOwn u heap c (c'.fail j text).1 (c'.fail j text).2 := by
  refine ⟨claims, trivial, fun v member => ?_⟩
  cases fail_notes c' j text _ member

theorem stepOwn_next (isolated : ∀ inst ∈ heap, inst.Isolated)
    (shared : ∀ d a, u.Registered d → streams.lookup (u.key d c.session.claims) = some a →
      ∃ inst, heap[a]? = some inst ∧ Binds d c.session.claims inst.filter)
    (own : c.phase.Own u heap c.session.claims) (next : c.Next u heap streams j c' notes) :
    StepOwn u heap c c' notes := by
  cases next with
  | finish | slow | bye => exact ⟨rfl, trivial, by simp⟩
  | fail text _ => exact stepOwn_fail (by rfl) text
  | unknown => exact ⟨rfl, own, by simp⟩
  | resume phase names registered => exact ⟨rfl, ⟨_, registered⟩, by simp⟩
  | found phase held =>
      rw [phase] at own
      exact ⟨rfl, ⟨own, shared _ _ own held⟩, by simp⟩
  | bound conn phase created =>
      obtain ⟨binds, started⟩ := new_ok created
      exact ⟨rfl, ⟨own.registered phase, binds, started ▸ Instance.isolated_start _ _⟩, by simp⟩
  | @replay d resumeAt a inst events phase found _ held =>
      rw [phase] at own
      obtain ⟨-, _, here, binds⟩ := own
      cases found.symm.trans here
      refine ⟨rfl, ⟨inst.filter, binds, fun ev member => ?_⟩, by simp⟩
      exact (isolated inst (List.mem_of_getElem? found)).logged ev (Log.mem_of_after held member)
  | refuse phase =>
      rw [phase] at own
      exact ⟨rfl, own.1, by simp⟩
  | offset phase found =>
      rw [phase] at own
      exact ⟨rfl, own, by simp⟩
  | event conn phase noted =>
      rw [phase] at own
      obtain ⟨f, binds, matched⟩ := own
      refine ⟨rfl, ⟨f, binds, fun ev' later => matched ev' (List.mem_cons_of_mem _ later)⟩, ?_⟩
      intro v member
      cases noted _ member
      refine ⟨f, binds, fun row here => ?_⟩
      rw [Multiset.mem_singleton.1 here]
      exact matched _ List.mem_cons_self
  | replayed => exact ⟨rfl, trivial, by simp⟩
  | @rows d a offset inst phase found =>
      rw [phase] at own
      obtain ⟨-, _, here, binds⟩ := own
      cases found.symm.trans here
      refine ⟨rfl, ⟨inst.filter, binds, fun row member => ?_⟩, by simp⟩
      obtain ⟨key, cached⟩ := (KeyMap.mem_values _ row).1 member
      exact (isolated inst (List.mem_of_getElem? found)).cached key row cached
  | cached conn phase =>
      rw [phase] at own
      refine ⟨rfl, trivial, fun v member => ?_⟩
      cases List.mem_singleton.1 member
      exact own
  | stored phase =>
      rw [phase] at own
      exact ⟨rfl, own, by simp⟩
  | loaded conn phase =>
      rw [phase] at own
      obtain ⟨f, binds, matched⟩ := own
      refine ⟨rfl, trivial, fun v member => ?_⟩
      cases List.mem_singleton.1 member
      exact ⟨f, binds, fun row here => matched row (Multiset.mem_coe.1 here)⟩
  | subscribed => exact ⟨rfl, trivial, by simp⟩

end Next

/-! ## Every step -/

section Steps

variable {P : C → Prop}

/-- The instance a session finds under its key has the session's own filter. -/
theorem Shares.found (shares : Shares u P s) (apart : KeysApart u P) {claims : C} (one : P claims)
    {d : Definition C} {a : Nat} (registered : u.Registered d)
    (held : s.streams.lookup (u.key d claims) = some a) :
    ∃ inst, s.heap[a]? = some inst ∧ Binds d claims inst.filter := by
  obtain ⟨inst, found, d', c', registered', other, same, binds⟩ := shares.streams _ _ held
  exact ⟨inst, found,
    apart c' claims other one d' d registered' registered same.symm inst.filter binds⟩

theorem shares_background (shares : Shares u P s) (quiet : Background s t) (filtered : Filtered t) :
    Shares u P t where
  filtered := filtered
  streams key a held := by
    rcases quiet.streams with same | ⟨-, empty⟩
    · rw [same] at held
      obtain ⟨inst, found, d, c, registered, one, rfl, binds⟩ := shares.streams key a held
      obtain ⟨inst', found', evolves⟩ := quiet.heap a inst found
      exact ⟨inst', found', d, c, registered, one, rfl, evolves.filter ▸ binds⟩
    · rw [empty, Finmap.lookup_empty] at held
      cases held
  clients c member := by
    obtain ⟨c', member', same⟩ := quiet.control member
    have claims : c'.session.claims = c.session.claims := congrArg Prod.fst same
    have phase : c'.phase = c.phase := congrArg (fun k => k.2.1) same
    obtain ⟨one, own⟩ := shares.clients c' member'
    rw [claims] at one own
    rw [phase] at own
    exact ⟨one, own.grow quiet.heap⟩
  trace v member := by
    obtain ⟨notes, grown, background⟩ := quiet.trace
    rw [grown] at member
    rcases List.mem_append.1 member with old | new
    · exact shares.trace v old
    · cases background _ new

theorem shares_set (shares : Shares u P s) {j : Nat} {c c' : Client C} {notes : List (Note C)}
    (found : s.clients[j]? = some c) (stepped : StepOwn u s.heap c c' notes) :
    Shares u P { s.setClient j c' with trace := s.trace ++ notes } where
  filtered := ⟨shares.filtered.heap, shares.filtered.work⟩
  streams := shares.streams
  clients d member := by
    rcases List.mem_or_eq_of_mem_set member with old | rfl
    · exact shares.clients d old
    · rw [stepped.claims]
      exact ⟨(shares.clients c (List.mem_of_getElem? found)).1, stepped.phase⟩
  trace v member := by
    rcases List.mem_append.1 member with old | new
    · exact shares.trace v old
    · exact stepped.notes v new

theorem shares_store (shares : Shares u P s) {j : Nat} {c : Client C} {d : Definition C}
    {inst : Instance C} {lsn : LSN} {rows : List Row} (found : s.clients[j]? = some c)
    (phase : c.phase = .loaded d inst lsn rows) : Shares u P (s.store u j c d inst lsn rows) := by
  obtain ⟨one, own⟩ := shares.clients c (List.mem_of_getElem? found)
  rw [phase] at own
  obtain ⟨registered, binds, isolated, matched⟩ := own
  have grows := grows_append s.heap inst
  refine ⟨⟨fun inst' member => ?_, fun r key a m work => ?_⟩, fun key a held => ?_,
    fun c' member => ?_, shares.trace⟩
  · rcases List.mem_append.1 member with old | new
    · exact shares.filtered.heap inst' old
    · cases List.mem_singleton.1 new
      exact isolated
  · obtain ⟨inst', here, matched'⟩ := shares.filtered.work r key a m work
    obtain ⟨inst'', here', evolves⟩ := grows a inst' here
    exact ⟨inst'', here', evolves.filter ▸ matched'⟩
  · simp only [State.store, KeyMap.lookup_insert_eq] at held
    split at held
    · next same =>
        cases held
        exact ⟨inst, by simp [State.store], d, c.session.claims, registered, one, same, binds⟩
    · obtain ⟨inst', here, d', c', registered', other, rfl, binds'⟩ := shares.streams key a held
      obtain ⟨inst'', here', evolves⟩ := grows a inst' here
      exact ⟨inst'', here', d', c', registered', other, rfl, evolves.filter ▸ binds'⟩
  · rcases List.mem_or_eq_of_mem_set member with old | rfl
    · obtain ⟨other, own⟩ := shares.clients c' old
      exact ⟨other, own.grow grows⟩
    · exact ⟨one, inst.filter, binds, matched⟩

theorem filtered_aside {e : Ev C} (filtered : Filtered s) (aside : Aside s e t) : Filtered t := by
  cases aside with
  | buffer clients => exact ⟨filtered.heap, filtered.work⟩
  | copy | recover | sweep => exact ⟨filtered.heap, by simp⟩
  | run _ ran => exact filtered_run filtered ran

theorem shares_step {e : Ev C} (apart : KeysApart u P) (shares : Shares u P s)
    (one : ∀ claims, e = .connect claims → P claims) (matching : TakesMatching s e = true)
    (stepped : step u s e = some t) : Shares u P t := by
  cases step_spec stepped with
  | connect conn event =>
      refine ⟨⟨shares.filtered.heap, shares.filtered.work⟩, shares.streams, fun c member => ?_,
        shares.trace⟩
      rcases List.mem_append.1 member with old | new
      · exact shares.clients c old
      · cases List.mem_singleton.1 new
        exact ⟨one _ event, trivial⟩
  | background quiet aside =>
      exact shares_background shares quiet (filtered_aside shares.filtered aside)
  | store _ found phase => exact shares_store shares found phase
  | client _ found acts =>
      obtain ⟨principal, own⟩ := shares.clients _ (List.mem_of_getElem? found)
      cases acts with
      | subscribe names _ => exact shares_set shares found ⟨rfl, trivial, by simp⟩
      | refuse names text _ => exact shares_set shares found (stepOwn_fail (by rfl) text)
      | fail text _ => exact shares_set shares found (stepOwn_fail (by rfl) text)
      | take event phase loaded =>
          subst event
          have matched := takesMatching_take found phase matching
          rw [phase] at own
          obtain ⟨registered, binds, isolated⟩ := own
          obtain ⟨kept, filter⟩ := loadSnapshot_kept isolated loaded
          rw [← filter] at binds matched
          exact shares_set shares found
            ⟨rfl, ⟨registered, binds, kept, matched⟩, by simp⟩
      | next event moved =>
          exact shares_set shares found (stepOwn_next shares.filtered.heap
            (fun d a registered held => shares.found apart principal registered held) own moved)

end Steps

theorem served_own {es : List (Ev C)} (apart : KeysApart u (· ∈ principals es))
    (matching : (machine u).Meets (fun s e => TakesMatching s e = true) {} es)
    (ran : (machine u).run {} es = some s) : ∀ v, .served v ∈ s.trace → v.Own := by
  have start : Shares u (· ∈ principals es) ({} : State C) :=
    ⟨⟨by simp, by simp⟩, by simp, by simp, by simp⟩
  have listed : ∀ e ∈ es, ∀ claims, e = .connect claims → claims ∈ principals es := by
    rintro e member claims rfl
    exact List.mem_filterMap.2 ⟨_, member, rfl⟩
  have along : (machine u).Along (Shares u (· ∈ principals es)) {} es :=
    Machine.along_of_meets (I := Shares u (· ∈ principals es)) (fun _ shares => shares)
      (fun _ _ _ shares both stepped => shares_step apart shares both.1 both.2 stepped) start
      ((Machine.meets_of_forall listed _).and matching)
  exact (along.last ran).trace

/-! ## The default claims key -/

/-- Keys of shape names without a NUL say which shape and which claims they are of. -/
theorem streamKey_inj {name name' key key' : String} (free : '\x00' ∉ name.toList)
    (free' : '\x00' ∉ name'.toList) (same : streamKey name key = streamKey name' key') :
    name = name' ∧ key = key' := by
  have texts := congrArg String.toList same
  simp only [streamKey, String.toList_append, List.append_assoc] at texts
  have cut := Aligned.cancel (.inr ⟨free, free'⟩) texts
  exact ⟨String.toList_inj.1 cut.1, String.toList_inj.1 cut.2⟩

/-- A definition is registered under its name. -/
theorem Setup.Registered.eq {d d' : Definition C} (registered : u.Registered d)
    (registered' : u.Registered d') (same : d.name = d'.name) : d = d' := by
  obtain ⟨name, found⟩ := registered
  obtain ⟨name', found'⟩ := registered'
  rw [← u.named name d found, same] at found
  rw [← u.named name' d' found'] at found'
  exact Option.some.inj (found.symm.trans found')

theorem sprint_keys_apart {u : Setup Claims} {P : Claims → Prop}
    (default : u.claimsKey = Claims.sprint)
    (names : ∀ d, u.Registered d → '\x00' ∉ d.name.toList) (plain : ∀ c, P c → c.Plain)
    (alike : ∀ c c', P c → P c' → c.Alike c') {c c' : Claims} (one : P c) (other : P c')
    {d d' : Definition Claims} (registered : u.Registered d) (registered' : u.Registered d')
    (same : u.key d c = u.key d' c') : d = d' ∧ c = c' := by
  rw [Setup.key, Setup.key, default] at same
  obtain ⟨name, text⟩ := streamKey_inj (names d registered) (names d' registered') same
  exact ⟨registered.eq registered' name,
    sprint_injective (plain c one) (plain c' other) (alike c c' one other) text⟩

/-- **Streams are shared by principals with the same view.**  With the default claims key,
let the claims of a run be of one type, with no blank in a string, and let no shape name have
a NUL.  If `Take` returns rows of the filter it was asked for, then the rows of every
snapshot and every replayed change that `subscribeShape` enqueues satisfy the filter bound
for the session's own claims; and claims that are bound to different filters have different
stream keys. -/
theorem sprint_served_own (u : Setup Claims) (default : u.claimsKey = Claims.sprint)
    (names : ∀ d, u.Registered d → '\x00' ∉ d.name.toList)
    (es : List (Ev Claims)) (s : State Claims) (ran : (machine u).run {} es = some s)
    (plain : ∀ c ∈ principals es, c.Plain)
    (alike : ∀ c ∈ principals es, ∀ c' ∈ principals es, c.Alike c')
    (matching : (machine u).Meets (fun s e => TakesMatching s e = true) {} es) :
    (∀ v, .served v ∈ s.trace → v.Own) ∧
      ∀ c ∈ principals es, ∀ c' ∈ principals es, ∀ d, u.Registered d → ∀ f f', Binds d c f →
        Binds d c' f' → f ≠ f' → u.key d c ≠ u.key d c' := by
  have apart : ∀ {c c' : Claims}, c ∈ principals es → c' ∈ principals es →
      ∀ {d d' : Definition Claims}, u.Registered d → u.Registered d' →
        u.key d c = u.key d' c' → d = d' ∧ c = c' := by
    intro _ _ one other _ _ registered registered' same
    exact sprint_keys_apart (P := (· ∈ principals es)) default names plain
      (fun c c' one other => alike c one c' other) one other registered registered' same
  refine ⟨served_own (fun c c' one other d d' registered registered' same f binds => ?_)
    matching ran, fun c one c' other d registered f f' binds binds' distinct same => ?_⟩
  · obtain ⟨rfl, rfl⟩ := apart one other registered registered' same
    exact binds
  · obtain ⟨-, rfl⟩ := apart one other registered registered same
    obtain ⟨bind, bound, filtered⟩ := binds
    obtain ⟨bind', bound', filtered'⟩ := binds'
    cases bound.symm.trans bound'
    exact distinct (Except.ok.inj (filtered.symm.trans filtered'))

namespace Owners

/-- The shape of the notes whose owner is the first of the claims. -/
def notes : Definition Claims :=
  { name := "notes", schema := "public", table := "notes", primaryKey := ["id"]
    bind := some fun claims =>
      match claims with
      | .struct (.string owner :: _) | .slice (.string owner :: _) =>
          .ok ⟨[⟨"owner", .eq, .string owner⟩]⟩
      | _ => .error (.bind "claims without an owner") }

def setup : Setup Claims := .single notes Claims.sprint

def note (owner : String) : Row := KeyMap.ofList [("id", .int64 1), ("owner", .string owner)]

/-- The first subscription with these claims. -/
def subscribed (j : Nat) (claims : Claims) (rows : List Row) : List (Ev Claims) :=
  [.connect claims, .subscribe j ["notes"] none, .session j, .session j, .take j 10 rows] ++
    List.replicate 5 (.session j)

/-- A later one that finds the stream. -/
def joined (j : Nat) (claims : Claims) : List (Ev Claims) :=
  [.connect claims, .subscribe j ["notes"] none] ++ List.replicate 5 (.session j)

def owner (name : String) : Filter := ⟨[⟨"owner", .eq, .string name⟩]⟩

/-- What was served, and the filter bound for the session's own claims. -/
def served : Note Claims → Option (Option Filter × Message)
  | .served v => some (v.defn.bind.bind fun bind => (bind v.claims).toOption, v.message)
  | _ => none

def ann : Claims := .struct [.string "ann", .int 1]
def bob : Claims := .struct [.string "bob", .int 1]

/-- Three sessions, two of them with the same claims. -/
def apart : List (Ev Claims) :=
  subscribed 0 ann [note "ann"] ++ subscribed 1 bob [] ++ joined 2 ann

theorem registered_eq_notes {d : Definition Claims} (registered : setup.Registered d) :
    d = notes := by
  obtain ⟨name, found⟩ := registered
  simp only [setup, Setup.single] at found
  split at found
  · exact (Option.some.inj found).symm
  · cases found

theorem plain_ann : ann.Plain ∧ bob.Plain := by
  simp [Claims.Plain, Claims.fields, ann, bob]

theorem alike_owners {name name' : String} {n n' : Int64} :
    (Claims.struct [.string name, .int n]).Alike (.struct [.string name', .int n']) := by
  refine ⟨by simp [Claims.fields], fun i f f' left right => ?_⟩
  rcases i with _ | _ | i <;> simp [Claims.fields] at left right <;> subst left right <;> trivial

theorem sprint_served_own_apart :
    ∃ s, (machine setup).run {} apart = some s ∧
      s.trace.filterMap served = [(some (owner "ann"), .snapshot "notes" 10 1 {note "ann"}),
        (some (owner "bob"), .snapshot "notes" 10 0 0),
        (some (owner "ann"), .snapshot "notes" 0 1 {note "ann"})] ∧
      ∀ v, .served v ∈ s.trace → v.Own := by
  have replay : ((machine setup).run {} apart).map (fun s => s.trace.filterMap served) =
      some [(some (owner "ann"), .snapshot "notes" 10 1 {note "ann"}),
        (some (owner "bob"), .snapshot "notes" 10 0 0),
        (some (owner "ann"), .snapshot "notes" 0 1 {note "ann"})] := by
    decide +kernel
  have principal : ∀ c ∈ principals apart, c = ann ∨ c = bob := by decide
  obtain ⟨s, ran, trace⟩ := Option.map_eq_some_iff.1 replay
  have names : ∀ d, setup.Registered d → '\x00' ∉ d.name.toList := by
    rintro d registered
    rw [registered_eq_notes registered]
    decide
  have plain : ∀ c ∈ principals apart, c.Plain := by
    intro c one
    rcases principal c one with rfl | rfl
    · exact plain_ann.1
    · exact plain_ann.2
  have alike : ∀ c ∈ principals apart, ∀ c' ∈ principals apart, c.Alike c' := by
    intro c one c' other
    rcases principal c one with rfl | rfl <;> rcases principal c' other with rfl | rfl <;>
      exact alike_owners
  exact ⟨s, ran, trace, (sprint_served_own setup rfl names apart s ran plain alike
    (by decide +kernel)).1⟩

def left : Claims := .struct [.string "a b", .string "c"]
def right : Claims := .struct [.string "a", .string "b c"]

/-- Both print as one text, so the second session is served the notes of the first. -/
theorem sprint_collision :
    left.sprint = right.sprint ∧
      ∃ s, (machine setup).run {} (subscribed 0 left [note "a b"] ++ joined 1 right) = some s ∧
        s.trace.filterMap served = [(some (owner "a b"), .snapshot "notes" 10 1 {note "a b"}),
          (some (owner "a"), .snapshot "notes" 0 1 {note "a b"})] ∧
        ¬ ∀ v, .served v ∈ s.trace → v.Own := by
  have replay : ((machine setup).run {} (subscribed 0 left [note "a b"] ++ joined 1 right)).map
      (fun s => s.trace.filterMap served) =
      some [(some (owner "a b"), .snapshot "notes" 10 1 {note "a b"}),
        (some (owner "a"), .snapshot "notes" 0 1 {note "a b"})] := by
    decide +kernel
  obtain ⟨s, ran, trace⟩ := Option.map_eq_some_iff.1 replay
  refine ⟨by decide, s, ran, trace, fun own => ?_⟩
  have last : (some (owner "a"), Message.snapshot "notes" 0 1 {note "a b"}) ∈
      s.trace.filterMap served := by
    rw [trace]
    simp
  obtain ⟨n, member, same⟩ := List.mem_filterMap.1 last
  cases n with
  | served v =>
      obtain ⟨f, ⟨bind, bound, filtered⟩, matched⟩ := own v member
      obtain ⟨filter, message⟩ := Prod.mk.inj (Option.some.inj same)
      rw [bound, Option.bind_some, filtered] at filter
      cases filter
      have foreign := matched (note "a b") (by rw [message]; simp [rowsOf])
      revert foreign
      decide
  | failed | delivered | subscribed | resnapshot => cases same

end Owners

end Tether.Live
