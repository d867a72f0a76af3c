/-
# Tether.Engine.Principals — mutations of sessions with different claims

`handleMutation` passes the claims of the session on to the handler, but the key of a
request is all that `mutation_keys` records.  The machine runs any number of requests
through `handleMutation` and `mutate.Apply` and remembers, for every call, the claims
and the request it was made for.

Two properties are asked for.  `Acknowledged`: a `mutation_ok` answers to a committed
call with the same claims and key.  `purge`: taking the requests of all other principals
out of a run leaves every call of one principal as it was.

Both hold for runs in which no key is used with two different claims (`KeysApart`): the
unique index then shows a principal only its own calls (`view_eq`).
-/
import Tether.Engine.Replay

namespace Tether.Principals

open Tether.Lib Tether.Mutate Tether.Replay

set_option autoImplicit false

variable {C ε W : Type}

/-- `owners` says for whom each call of the database was made; `refused` are the replies
that `handleMutation` gave without a call. -/
structure State (C ε W : Type) where
  owners : List (C × Request) := []
  refused : List (C × Request × Reply) := []
  database : Mutate.State ε W := {}

inductive Event (C ε W : Type) where
  | request (claims : C) (req : Request) (refusal : Option Refusal)
  | apply (i : Nat) (a : Action ε W)

section Machine

variable (errors : Errors ε)

def step (s : State C ε W) : Event C ε W → Option (State C ε W)
  | .request claims req refusal =>
      match handleMutation errors refusal req with
      | .error reply => some { s with refused := s.refused ++ [(claims, req, reply)] }
      | .ok args =>
          (Mutate.step s.database (.call args)).map fun database =>
            { s with owners := s.owners ++ [(claims, req)], database }
  | .apply i a =>
      (Mutate.step s.database (.on i a)).map fun database => { s with database }

def machine : Machine (State C ε W) (Event C ε W) := ⟨(· = {}), step errors⟩

/-- The calls, each with the claims and the request it was made for. -/
def State.calls (s : State C ε W) : List ((C × Request) × Call ε W) :=
  s.owners.zip s.database.calls

/-- The reply to the request of a call, once there is one. -/
def replied (p : (C × Request) × Call ε W) : Option Reply :=
  match p.2.pc with
  | .returned r => some (replyTo errors p.1.2 r)
  | _ => none

/-- Every `mutation_ok` is for a key under which a call with the same claims invoked the
handler and committed. -/
def State.Acknowledged (s : State C ε W) : Prop :=
  (∀ r ∈ s.refused, ∀ id duplicate, r.2.2 ≠ .mutationOK id duplicate) ∧
    ∀ p ∈ s.calls, ∀ id duplicate, replied errors p = some (.mutationOK id duplicate) →
      ∃ q ∈ s.calls, q.1.1 = p.1.1 ∧ q.1.2.key = p.1.2.key ∧ q.2.invoked = true ∧
        q.2.tx = .committed

/-- A request does not reuse the key of a call with other claims. -/
def KeysApart (s : State C ε W) : Event C ε W → Prop
  | .request claims req _ => ∀ o ∈ s.owners, o.2.key = req.key → o.1 = claims
  | .apply _ _ => True

variable [DecidableEq C]

/-- The run without the requests of principals other than `c`; `owners` are the claims
of the calls made so far, and calls are renumbered. -/
def purge (c : C) : List C → List (Event C ε W) → List (Event C ε W)
  | _, [] => []
  | owners, .request claims req refusal :: es =>
      let rest :=
        match handleMutation errors refusal req with
        | .error _ => purge c owners es
        | .ok _ => purge c (owners ++ [claims]) es
      if claims = c then .request claims req refusal :: rest else rest
  | owners, .apply i a :: es =>
      if owners[i]? = some c then .apply ((owners.take i).count c) a :: purge c owners es
      else purge c owners es

/-- What principal `c` sees of a state. -/
def State.own (c : C) (s : State C ε W) :
    List ((C × Request) × Call ε W) × List (C × Request × Reply) :=
  (s.calls.filter fun p => p.1.1 = c, s.refused.filter fun r => r.1 = c)

instance (s : State C ε W) : ∀ e, Decidable (KeysApart s e)
  | .request claims req _ =>
      inferInstanceAs (Decidable (∀ o ∈ s.owners, o.2.key = req.key → o.1 = claims))
  | .apply _ _ => .isTrue trivial

end Machine

/-! ## The invariant -/

structure Inv (s : State C ε W) : Prop where
  lengths : s.owners.length = s.database.calls.length
  keyed : ∀ p ∈ s.calls, p.2.args.key = p.1.2.key
  apart : ∀ o ∈ s.owners, ∀ o' ∈ s.owners, o.2.key = o'.2.key → o.1 = o'.1
  refused : ∀ r ∈ s.refused, ∀ id duplicate, r.2.2 ≠ .mutationOK id duplicate
  database : Mutate.Inv s.database

namespace Inv

variable {s : State C ε W} (inv : Inv s)

include inv

theorem calls_fst : s.calls.map Prod.fst = s.owners := List.map_fst_zip inv.lengths.le

theorem calls_snd : s.calls.map Prod.snd = s.database.calls := List.map_snd_zip inv.lengths.ge

theorem owner_mem {p : (C × Request) × Call ε W} (member : p ∈ s.calls) : p.1 ∈ s.owners :=
  inv.calls_fst ▸ List.mem_map_of_mem member

/-- The applied keys are those of the committed calls. -/
theorem mem_keys {key : String} :
    key ∈ s.database.keys ↔ ∃ p ∈ s.calls, p.1.2.key = key ∧ p.2.tx = .committed := by
  rw [inv.database.mem_keys]
  constructor
  · rintro ⟨i, c, here, rfl, committed⟩
    have member : c ∈ s.calls.map Prod.snd := inv.calls_snd ▸ List.mem_of_getElem? here
    obtain ⟨p, called, rfl⟩ := List.mem_map.1 member
    exact ⟨p, called, (inv.keyed p called).symm, committed⟩
  · rintro ⟨p, called, rfl, committed⟩
    have member : p.2 ∈ s.database.calls := inv.calls_snd ▸ List.mem_map_of_mem called
    obtain ⟨i, inside, here⟩ := List.mem_iff_getElem.1 member
    exact ⟨i, p.2, List.getElem?_eq_some_iff.2 ⟨inside, here⟩, inv.keyed p called, committed⟩

theorem acknowledged (errors : Errors ε) : s.Acknowledged errors := by
  refine ⟨inv.refused, fun p called id duplicate ok => ?_⟩
  have member : p.2 ∈ s.database.calls := inv.calls_snd ▸ List.mem_map_of_mem called
  obtain ⟨i, inside, at_i⟩ := List.mem_iff_getElem.1 member
  have here : s.database.calls[i]? = some p.2 := List.getElem?_eq_some_iff.2 ⟨inside, at_i⟩
  unfold replied at ok
  split at ok
  · next r returned =>
      obtain ⟨res, rfl, accepted⟩ := replyTo_mutationOK (Option.some.inj ok)
      have applied := inv.database.applied here returned accepted
      rw [inv.keyed p called, inv.mem_keys] at applied
      obtain ⟨q, called', key, committed⟩ := applied
      have member' : q.2 ∈ s.database.calls := inv.calls_snd ▸ List.mem_map_of_mem called'
      obtain ⟨j, inside', at_j⟩ := List.mem_iff_getElem.1 member'
      have consistent :=
        inv.database.consistent j q.2 (List.getElem?_eq_some_iff.2 ⟨inside', at_j⟩)
      exact ⟨q, called', inv.apart _ (inv.owner_mem called') _ (inv.owner_mem called) key, key,
        (consistent.sent (.inr committed)).2, committed⟩
  · cases ok

end Inv

theorem calls_concat {s : State C ε W} (lengths : s.owners.length = s.database.calls.length)
    (o : C × Request) (c : Call ε W) :
    (s.owners ++ [o]).zip (s.database.calls ++ [c]) = s.calls ++ [(o, c)] := by
  rw [List.zip_append lengths]
  rfl

theorem Inv.refuse {s : State C ε W} (inv : Inv s) {claims : C} {req : Request} {reply : Reply}
    (refused : ∀ id duplicate, reply ≠ .mutationOK id duplicate) :
    Inv { s with refused := s.refused ++ [(claims, req, reply)] } :=
  { inv with
    refused := fun r member => by
      rcases List.mem_append.1 member with old | new
      · exact inv.refused r old
      · cases List.mem_singleton.1 new
        exact refused }

theorem Inv.call {s : State C ε W} (inv : Inv s) {claims : C} {req : Request} {args : Args ε}
    (key : args.key = req.key) (apart : ∀ o ∈ s.owners, o.2.key = req.key → o.1 = claims) :
    Inv { s with
      owners := s.owners ++ [(claims, req)]
      database := { s.database with calls := s.database.calls ++ [{ args := args }] } } where
  lengths := by simp [inv.lengths]
  keyed p called := by
    rw [State.calls, calls_concat inv.lengths] at called
    rcases List.mem_append.1 called with old | new
    · exact inv.keyed p old
    · cases List.mem_singleton.1 new
      exact key
  apart o first o' second same := by
    rcases List.mem_append.1 first with old | new <;>
      rcases List.mem_append.1 second with old' | new'
    · exact inv.apart o old o' old' same
    · cases List.mem_singleton.1 new'
      exact apart o old same
    · cases List.mem_singleton.1 new
      exact (apart o' old' same.symm).symm
    · cases List.mem_singleton.1 new
      cases List.mem_singleton.1 new'
      rfl
  refused := inv.refused
  database := Mutate.inv_call inv.database args

/-- An action of one call, seen from the call's owner. -/
theorem calls_on {s : State C ε W} (inv : Inv s) {i : Nat} {a : Action ε W}
    {db : Mutate.State ε W} (acted : Mutate.step s.database (.on i a) = some db) :
    ∃ o c c', s.calls[i]? = some (o, c) ∧ s.owners[i]? = some o ∧
      c.step (s.database.view c.args.key) a = some c' ∧ c'.args = c.args ∧
      s.owners.zip db.calls = s.calls.set i (o, c') := by
  obtain ⟨c, here, rest⟩ := Option.bind_eq_some_iff.1 acted
  obtain ⟨c', moved, updated⟩ := Option.bind_eq_some_iff.1 rest
  cases updated
  have inside : i < s.owners.length := inv.lengths ▸ (List.getElem?_eq_some_iff.1 here).1
  have owner : s.owners[i]? = some s.owners[i] := List.getElem?_eq_getElem inside
  refine ⟨s.owners[i], c, c', List.getElem?_zip_eq_some.2 ⟨owner, here⟩, owner, moved,
    (Call.step_stepped moved).args, ?_⟩
  rw [State.calls_update]
  exact zip_set owner c'

theorem Inv.apply {s : State C ε W} (inv : Inv s) {i : Nat} {a : Action ε W}
    {db : Mutate.State ε W} (acted : Mutate.step s.database (.on i a) = some db) :
    Inv { s with database := db } := by
  obtain ⟨o, c, c', called, -, -, args, calls⟩ := calls_on inv acted
  obtain ⟨_, _, _, _, sizes, _⟩ := step_on acted
  exact {
    lengths := by rw [sizes, List.length_set]; exact inv.lengths
    keyed := fun p member => by
      rw [State.calls, calls] at member
      rcases List.mem_or_eq_of_mem_set member with old | rfl
      · exact inv.keyed p old
      · rw [args]
        exact inv.keyed (o, c) (List.mem_of_getElem? called)
    apart := inv.apart
    refused := inv.refused
    database := Mutate.inv_step inv.database acted }

theorem inv_step {errors : Errors ε} {s t : State C ε W} {e : Event C ε W} (inv : Inv s)
    (apart : KeysApart s e) (stepped : step errors s e = some t) : Inv t := by
  cases e with
  | request claims req refusal =>
      simp only [step] at stepped
      split at stepped
      · next refused =>
          cases stepped
          exact inv.refuse (handleMutation_error refused)
      · next called =>
          cases stepped
          exact inv.call (handleMutation_ok called) apart
  | apply i a =>
      obtain ⟨db, acted, rfl⟩ := Option.map_eq_some_iff.1 stepped
      exact inv.apply acted

theorem inv_initial : Inv ({} : State C ε W) where
  lengths := rfl
  keyed := by simp [State.calls]
  apart := by simp
  refused := by simp
  database := Mutate.inv_init

section Purging

variable [DecidableEq C] {errors : Errors ε}

/-! ## Purging -/

/-- `t` is what principal `c` sees of `s`. -/
structure Purged (c : C) (s t : State C ε W) : Prop where
  calls : t.calls = s.calls.filter fun p => p.1.1 = c
  refused : t.refused = s.refused.filter fun r => r.1 = c

/-- Under keys of its own, a principal's calls are all that the index shows it. -/
theorem view_eq {c : C} {s t : State C ε W} (inv : Inv s) (inv' : Inv t) (purged : Purged c s t)
    {p : (C × Request) × Call ε W} (called : p ∈ s.calls) (own : p.1.1 = c) :
    t.database.view p.2.args.key = s.database.view p.2.args.key := by
  have mine : ∀ q ∈ s.calls, q.2.args.key = p.2.args.key → q ∈ t.calls := by
    intro q called' same
    rw [inv.keyed q called', inv.keyed p called] at same
    rw [purged.calls, List.mem_filter]
    refine ⟨called', decide_eq_true ?_⟩
    rw [← own]
    exact inv.apart _ (inv.owner_mem called') _ (inv.owner_mem called) same
  have theirs : ∀ q ∈ t.calls, q ∈ s.calls := by
    intro q member
    rw [purged.calls] at member
    exact List.mem_of_mem_filter member
  have keys : p.2.args.key ∈ t.database.keys ↔ p.2.args.key ∈ s.database.keys := by
    rw [inv.mem_keys, inv'.mem_keys]
    constructor
    · rintro ⟨q, member, key, committed⟩
      exact ⟨q, theirs q member, key, committed⟩
    · rintro ⟨q, member, key, committed⟩
      exact ⟨q, mine q member ((inv.keyed q member).trans key), key, committed⟩
  have held : t.database.calls.any (Call.holds p.2.args.key) =
      s.database.calls.any (Call.holds p.2.args.key) := by
    rw [← inv.calls_snd, ← inv'.calls_snd, List.any_map, List.any_map, Bool.eq_iff_iff,
      List.any_eq_true, List.any_eq_true]
    constructor
    · rintro ⟨q, member, holds⟩
      exact ⟨q, theirs q member, holds⟩
    · rintro ⟨q, member, holds⟩
      refine ⟨q, mine q member ?_, holds⟩
      simp only [Function.comp_apply, Call.holds, Bool.and_eq_true, decide_eq_true_eq] at holds
      exact holds.1.2
  simp only [State.view, keys, held]

theorem purged_refuse {c : C} {s t : State C ε W} (purged : Purged c s t) (claims : C)
    (req : Request) (reply : Reply) :
    Purged c { s with refused := s.refused ++ [(claims, req, reply)] }
      (if claims = c then { t with refused := t.refused ++ [(claims, req, reply)] } else t) := by
  split
  · next own => exact ⟨purged.calls, by simp [purged.refused, own]⟩
  · next other => exact ⟨purged.calls, by simp [purged.refused, other]⟩

theorem purged_call {c : C} {s t : State C ε W} (inv : Inv s) (inv' : Inv t)
    (purged : Purged c s t) (claims : C) (req : Request) (args : Args ε) :
    Purged c { s with
        owners := s.owners ++ [(claims, req)]
        database := { s.database with calls := s.database.calls ++ [{ args := args }] } }
      (if claims = c then { t with
          owners := t.owners ++ [(claims, req)]
          database := { t.database with calls := t.database.calls ++ [{ args := args }] } }
        else t) := by
  have calls := calls_concat inv.lengths (claims, req) ({ args := args } : Call ε W)
  split
  · next own =>
      refine ⟨?_, purged.refused⟩
      show (t.owners ++ [_]).zip (t.database.calls ++ [_]) =
        ((s.owners ++ [_]).zip (s.database.calls ++ [_])).filter _
      rw [calls, calls_concat inv'.lengths, List.filter_append, purged.calls]
      simp [own]
  · next other =>
      refine ⟨?_, purged.refused⟩
      show t.calls = ((s.owners ++ [_]).zip (s.database.calls ++ [_])).filter _
      rw [calls, List.filter_append, purged.calls]
      simp [other]

/-- The number of a call among the calls of its owner. -/
theorem rank_eq {s : State C ε W} (inv : Inv s) (c : C) (i : Nat) :
    ((s.owners.map Prod.fst).take i).count c =
      ((s.calls.take i).filter fun p => p.1.1 = c).length := by
  rw [← inv.calls_fst, List.map_map, ← List.map_take, List.count_eq_countP, List.countP_map,
    List.countP_eq_length_filter]
  congr 1

theorem purged_apply_other {c : C} {s t : State C ε W} (inv : Inv s) (purged : Purged c s t)
    {i : Nat} {a : Action ε W} {db : Mutate.State ε W}
    (acted : Mutate.step s.database (.on i a) = some db)
    (other : (s.owners.map Prod.fst)[i]? ≠ some c) : Purged c { s with database := db } t := by
  obtain ⟨o, d, d', called, owner, -, -, calls⟩ := calls_on inv acted
  have foreign : o.1 ≠ c := by
    rw [List.getElem?_map, owner] at other
    exact fun same => other (congrArg some same)
  refine ⟨?_, purged.refused⟩
  rw [purged.calls]
  show _ = (s.owners.zip db.calls).filter _
  rw [calls, filter_set_of_neg called (by simpa using foreign) (by simpa using foreign)]

theorem purged_apply_own {c : C} {s t : State C ε W} (inv : Inv s) (inv' : Inv t)
    (purged : Purged c s t) {i : Nat} {a : Action ε W} {db : Mutate.State ε W}
    (acted : Mutate.step s.database (.on i a) = some db)
    (own : (s.owners.map Prod.fst)[i]? = some c) :
    ∃ db', Mutate.step t.database (.on (((s.owners.map Prod.fst).take i).count c) a) = some db' ∧
      Purged c { s with database := db } { t with database := db' } := by
  obtain ⟨o, d, d', called, owner, moved, args, calls⟩ := calls_on inv acted
  have mine : o.1 = c := by
    rw [List.getElem?_map, owner] at own
    exact Option.some.inj own
  have passes : decide (o.1 = c) = true := decide_eq_true mine
  have found := getElem?_filter (p := fun p : (C × Request) × Call ε W => p.1.1 = c) called passes
  rw [← purged.calls, ← rank_eq inv] at found
  generalize ranked : ((s.owners.map Prod.fst).take i).count c = rank at found ⊢
  obtain ⟨owner', here'⟩ := List.getElem?_zip_eq_some.1 found
  have view := view_eq inv inv' purged (List.mem_of_getElem? called) mine
  rw [← view] at moved
  refine ⟨t.database.update rank d d', ?_, ?_, purged.refused⟩
  · simp only [Mutate.step, here', Option.bind_eq_bind, Option.bind_some, moved]
    rfl
  · show t.owners.zip (t.database.update _ d d').calls = (s.owners.zip db.calls).filter _
    rw [calls, State.calls_update, zip_set owner' d',
      filter_set_of_pos (p := fun p : (C × Request) × Call ε W => p.1.1 = c) called passes passes,
      ← purged.calls, ← rank_eq inv, ranked]
    rfl

theorem owners_apart {c : C} {s t : State C ε W} (inv : Inv t) (purged : Purged c s t)
    {req : Request} : ∀ o ∈ t.owners, o.2.key = req.key → o.1 = c := by
  intro o member _
  rw [← inv.calls_fst, purged.calls] at member
  obtain ⟨p, called, rfl⟩ := List.mem_map.1 member
  exact of_decide_eq_true (List.mem_filter.1 called).2

/-- The run of a principal's own requests follows the whole run. -/
theorem exists_purged_run {c : C} {s s' t : State C ε W} {es : List (Event C ε W)} (inv : Inv s)
    (inv' : Inv t) (purged : Purged c s t) (apart : (machine errors).Meets KeysApart s es)
    (ran : (machine errors).run s es = some s') :
    ∃ t', (machine errors).run t (purge errors c (s.owners.map Prod.fst) es) = some t' ∧
      Purged c s' t' := by
  induction es generalizing s t with
  | nil =>
      cases ran
      exact ⟨t, rfl, purged⟩
  | cons e es ih =>
      obtain ⟨u, stepped, rest⟩ := Machine.run_cons.1 ran
      obtain ⟨here, later⟩ := apart u stepped
      have invU := inv_step inv here stepped
      cases e with
      | request claims req refusal =>
          cases handled : handleMutation errors refusal req with
          | error reply =>
              have moved : ∀ t : State C ε W, step errors t (.request claims req refusal) =
                  some { t with refused := t.refused ++ [(claims, req, reply)] } := fun t => by
                rw [step, handled]
              obtain rfl := Option.some.inj ((moved s).symm.trans stepped)
              have purged' := purged_refuse purged claims req reply
              simp only [purge, handled]
              by_cases own : claims = c
              · rw [if_pos own] at purged' ⊢
                obtain ⟨t', ran', purged''⟩ :=
                  ih invU (inv'.refuse (handleMutation_error handled)) purged' later rest
                exact ⟨t', Machine.run_cons.2 ⟨_, moved t, ran'⟩, purged''⟩
              · rw [if_neg own] at purged' ⊢
                exact ih (s := { s with refused := s.refused ++ [(claims, req, reply)] }) invU inv'
                  purged' later rest
          | ok args =>
              have moved : ∀ t : State C ε W, step errors t (.request claims req refusal) =
                  some { t with
                    owners := t.owners ++ [(claims, req)]
                    database := { t.database with
                      calls := t.database.calls ++ [{ args := args }] } } := fun t => by
                rw [step, handled]
                rfl
              obtain rfl := Option.some.inj ((moved s).symm.trans stepped)
              have purged' := purged_call inv inv' purged claims req args
              have owners : (s.owners ++ [(claims, req)]).map Prod.fst =
                  s.owners.map Prod.fst ++ [claims] := by
                simp
              simp only [purge, handled]
              by_cases own : claims = c
              · rw [if_pos own] at purged' ⊢
                obtain ⟨t', ran', purged''⟩ := ih invU
                  (inv'.call (handleMutation_ok handled) (own ▸ owners_apart inv' purged)) purged'
                  later rest
                rw [owners] at ran'
                exact ⟨t', Machine.run_cons.2 ⟨_, moved t, ran'⟩, purged''⟩
              · rw [if_neg own] at purged' ⊢
                obtain ⟨t', ran', purged''⟩ := ih invU inv' purged' later rest
                rw [owners] at ran'
                exact ⟨t', ran', purged''⟩
      | apply i a =>
          obtain ⟨db, acted, rfl⟩ := Option.map_eq_some_iff.1 stepped
          simp only [purge]
          by_cases own : (s.owners.map Prod.fst)[i]? = some c
          · obtain ⟨db', acted', purged'⟩ := purged_apply_own inv inv' purged acted own
            have moved : step errors t (.apply (((s.owners.map Prod.fst).take i).count c) a) =
                some { t with database := db' } := by
              rw [step, acted']
              rfl
            obtain ⟨t', ran', purged''⟩ := ih invU (inv'.apply acted') purged' later rest
            rw [if_pos own]
            exact ⟨t', Machine.run_cons.2 ⟨_, moved, ran'⟩, purged''⟩
          · rw [if_neg own]
            exact ih (s := { s with database := db }) invU inv'
              (purged_apply_other inv purged acted own) later rest

/-- **Principals with keys of their own do not interfere.**  In a run in which no key is
used with two different claims, every `mutation_ok` answers to a committed call with the
session's own claims, and every principal's calls and replies are those of the run in
which it is alone. -/
theorem noninterference (errors : Errors ε) (es : List (Event C ε W)) (s : State C ε W)
    (ran : (machine errors).run {} es = some s) (apart : (machine errors).Meets KeysApart {} es) :
    s.Acknowledged errors ∧
      ∀ c, ∃ t, (machine errors).run {} (purge errors c [] es) = some t ∧ (t.calls, t.refused) =
        s.own c := by
  have along : (machine errors).Along Inv {} es :=
    Machine.along_of_meets (I := Inv) (fun _ inv => inv)
      (fun _ _ _ inv apart stepped => inv_step inv apart stepped) inv_initial apart
  refine ⟨(along.last ran).acknowledged errors, fun c => ?_⟩
  have nothing : Purged c ({} : State C ε W) {} := ⟨rfl, rfl⟩
  obtain ⟨t, ran', purged⟩ := exists_purged_run inv_initial inv_initial nothing apart ran
  exact ⟨t, ran', by rw [State.own, purged.calls, purged.refused]⟩

end Purging

namespace SharedKey

def applied (i n : Nat) : List (Event String String Nat) := (committing n).map (.apply i)

/-- One principal sends its request twice, another one uses a key of its own. -/
def separate : List (Event String String Nat) :=
  List.flatten
    [[.request "alice" (.upsert "a-1" "k-1") none], applied 0 1,
      [.request "bob" (.upsert "b-1" "k-2") none], applied 1 2,
      [.request "alice" (.upsert "a-2" "k-1") none, .apply 2 (.begin none), .apply 2 .insert]]

theorem noninterference_separate :
    ∃ s : State String String Nat, (machine .plain).run {} separate = some s ∧
      s.database.keys = ["k-1", "k-2"] ∧ s.Acknowledged .plain ∧
      ∃ t, (machine .plain).run {} (purge .plain "bob" [] separate) = some t ∧
        (t.calls, t.refused) = s.own "bob" := by
  have replay : ((machine .plain).run {} separate).map (fun s => s.database.keys) =
      some ["k-1", "k-2"] := by
    decide +kernel
  obtain ⟨s, ran, keys⟩ := Option.map_eq_some_iff.1 replay
  obtain ⟨acknowledged, alone⟩ := noninterference .plain separate s ran (by decide +kernel)
  exact ⟨s, ran, keys, acknowledged, alone "bob"⟩

/-- The second principal chooses the key of the first. -/
def shared : List (Event String String Nat) :=
  List.flatten
    [[.request "alice" (.upsert "a-1" "k-1") none], applied 0 1,
      [.request "bob" (.upsert "b-1" "k-1") none, .apply 1 (.begin none), .apply 1 .insert]]

/-- It is told `mutation_ok`, and no call of its own has committed; alone, it would be
in its handler. -/
theorem shared_acknowledged :
    ∃ s t : State String String Nat, (machine .plain).run {} shared = some s ∧
      s.calls.map (replied .plain) =
        [some (.mutationOK "a-1" false), some (.mutationOK "b-1" true)] ∧
      ¬ s.Acknowledged .plain ∧ (machine .plain).run {} (purge .plain "bob" [] shared) = some t ∧
      (t.calls, t.refused) ≠ s.own "bob" := by
  have replay : ((machine .plain).run {} shared).map (fun s => (s.calls.map (replied .plain),
      decide (∃ p ∈ s.calls, replied .plain p = some (.mutationOK "b-1" true) ∧
        ∀ q ∈ s.calls, q.1.1 = p.1.1 → q.2.tx ≠ .committed),
      (s.own "bob").1.map fun p => p.2.tx)) =
        some ([some (.mutationOK "a-1" false), some (.mutationOK "b-1" true)], true,
          [.aborted]) := by
    decide +kernel
  have alone : ((machine .plain).run {} (purge .plain "bob" [] shared)).map
      (fun t => t.calls.map fun p => p.2.tx) = some [.active] := by
    decide +kernel
  obtain ⟨s, ran, seen⟩ := Option.map_eq_some_iff.1 replay
  obtain ⟨t, ran', seen'⟩ := Option.map_eq_some_iff.1 alone
  obtain ⟨replies, seen⟩ := Prod.mk.inj seen
  obtain ⟨unearned, own⟩ := Prod.mk.inj seen
  refine ⟨s, t, ran, replies, ?_, ran', ?_⟩
  · rintro ⟨-, acknowledged⟩
    obtain ⟨p, called, reply, never⟩ := of_decide_eq_true unearned
    obtain ⟨q, called', same, -, -, committed⟩ := acknowledged p called "b-1" true reply
    exact never q called' same committed
  · intro same
    have shown : t.calls.map (fun p => p.2.tx) = (s.own "bob").1.map fun p => p.2.tx :=
      congrArg (fun own => own.1.map fun p => p.2.tx) same
    rw [seen', own] at shown
    cases shown

end SharedKey

end Tether.Principals
