/-
# Tether.Mutate.AtMostOnce — one committed call per key, whole or not at all

The unique index is a lock that a commit never gives back: at any time at most one call
of a key has its transaction open on the key or committed (`Claims`).  What a call
returned, what its transaction did and what the tables hold then fit together in every
interleaving.
-/
import Tether.Lib.Lists
import Tether.Mutate.Apply

namespace Tether.Mutate

open Tether.Lib

set_option autoImplicit false

section Calls

variable {ε W : Type}

/-- All that one action can do to a call, with what it needs. -/
inductive Call.Stepped (view : KeyView) (c : Call ε W) : Call ε W → Prop where
  /-- Every way out that returns no `Result`; the transaction stays as it is. -/
  | gone (pc : PC ε) : (∀ r, pc ≠ .returned (.ok r)) → pc.ended = true →
      Stepped view c { c with pc := pc }
  | begun : c.pc = .called → Stepped view c { c with pc := .begun, tx := .active }
  | inserted : c.pc = .begun → c.tx = .active → view = .free →
      Stepped view c { c with pc := .handling, keyed := true, invoked := true }
  | duplicate : c.pc = .begun → view = .taken →
      Stepped view c { c with pc := .returned (.ok { duplicate := true }), tx := .aborted }
  | wrote (writes : List W) : c.pc = .handling → c.tx = .active →
      Stepped view c { c with writes := writes }
  | handled : c.pc = .handling → Stepped view c { c with pc := .handled }
  | rejected (reason : String) : c.pc = .handling →
      Stepped view c { c with pc := .returned (.ok { rejected := true, reason := reason }) }
  | commitSent : c.pc = .handled → c.tx = .active →
      Stepped view c { c with pc := .committing, tx := .committing }
  | commitLost : c.pc = .handled → c.tx ≠ .active → Stepped view c { c with pc := .committing }
  | committed : c.tx = .committing → Stepped view c { c with tx := .committed }
  | returned : c.pc = .committing → c.tx = .committed →
      Stepped view c { c with pc := .returned (.ok {}) }
  | aborted : c.tx = .active ∨ c.tx = .committing → Stepped view c { c with tx := .aborted }
  | lateInserted : c.pc.ended = true → c.tx = .active → view = .free →
      Stepped view c { c with keyed := true }

theorem Call.step_stepped {view : KeyView} {c c' : Call ε W} {a : Action ε W}
    (stepped : c.step view a = some c') : c.Stepped view c' := by
  cases a with
  | begin failed =>
      simp only [Call.step] at stepped
      split at stepped <;> cases stepped
      · exact .gone _ (by simp) rfl
      · exact .gone _ (by simp) rfl
      · exact .begun ‹_›
  | insert =>
      simp only [Call.step] at stepped
      split at stepped <;> cases stepped
      · exact .inserted ‹_› ‹_› rfl
      · exact .duplicate ‹_› rfl
  | insertError cause =>
      simp only [Call.step] at stepped
      split at stepped <;> cases stepped
      exact .gone _ (by simp) rfl
  | write writes =>
      simp only [Call.step] at stepped
      split at stepped <;> cases stepped
      exact .wrote writes ‹_› ‹_›
  | handlerReturn err =>
      simp only [Call.step, Args.handlerFailed] at stepped
      split at stepped <;> cases stepped
      · exact .handled ‹_›
      · split
        · exact .rejected _ ‹_›
        · exact .gone _ (by simp) rfl
  | handlerPanic =>
      simp only [Call.step] at stepped
      split at stepped <;> cases stepped
      exact .gone _ (by simp) rfl
  | commit =>
      simp only [Call.step] at stepped
      split at stepped <;> cases stepped
      · exact .commitSent ‹_› ‹_›
      · exact .commitLost ‹_› ‹_›
  | settle committed =>
      simp only [Call.step] at stepped
      split at stepped <;> cases stepped
      cases committed with
      | false => exact .aborted (.inr ‹_›)
      | true => exact .committed ‹_›
  | commitReply =>
      simp only [Call.step] at stepped
      split at stepped <;> cases stepped
      exact .returned ‹_› ‹_›
  | commitError cause =>
      simp only [Call.step] at stepped
      split at stepped <;> cases stepped
      exact .gone _ (by simp) rfl
  | abort =>
      simp only [Call.step] at stepped
      split at stepped <;> cases stepped
      exact .aborted (.inl ‹_›)
  | lateInsert =>
      simp only [Call.step] at stepped
      split at stepped <;> cases stepped
      exact .lateInserted ‹_› ‹_› rfl
  | crash =>
      simp only [Call.step] at stepped
      split at stepped <;> cases stepped
      exact .gone _ (by simp) rfl

/-- The call's transaction is committed, or may still be. -/
def Call.Claims (c : Call ε W) : Prop :=
  c.keyed = true ∧ (c.tx = .active ∨ c.tx = .committing ∨ c.tx = .committed)

/-- No COMMIT was sent. -/
def Tx.Unsent (tx : Tx) : Prop := tx = .active ∨ tx = .aborted

/-- What is known of a call's transaction and handler from where the call is. -/
def PC.Allows (tx : Tx) (keyed invoked : Bool) : PC ε → Prop
  | .called => tx = .unopened ∧ keyed = false ∧ invoked = false
  | .begun => tx.Unsent ∧ invoked = false
  | .handling | .handled => tx.Unsent ∧ keyed = true ∧ invoked = true
  | .committing => keyed = true ∧ invoked = true
  | .returned (.ok r) =>
      r = {} ∧ tx = .committed ∨ r = { duplicate := true } ∧ tx = .aborted ∧ invoked = false ∨
        r.rejected = true ∧ tx.Unsent
  | .returned (.error _) | .panicked | .crashed => True

structure Call.Consistent (c : Call ε W) : Prop where
  sent : c.tx = .committing ∨ c.tx = .committed → c.keyed = true ∧ c.invoked = true
  place : c.pc.Allows c.tx c.keyed c.invoked

theorem PC.allows_of_gone {pc : PC ε} (noResult : ∀ r, pc ≠ .returned (.ok r))
    (ended : pc.ended = true) (tx : Tx) (keyed invoked : Bool) : pc.Allows tx keyed invoked := by
  cases pc with
  | returned r =>
      cases r with
      | ok r => exact absurd rfl (noResult r)
      | error _ => trivial
  | panicked => trivial
  | crashed => trivial
  | called => cases ended
  | begun => cases ended
  | handling => cases ended
  | handled => cases ended
  | committing => cases ended

theorem PC.Allows.committed {pc : PC ε} {keyed invoked : Bool}
    (allows : pc.Allows .committing keyed invoked) : pc.Allows .committed keyed invoked := by
  unfold PC.Allows at allows ⊢
  split <;> simp_all [Tx.Unsent]

theorem PC.Allows.aborted {pc : PC ε} {tx : Tx} {keyed invoked : Bool}
    (allows : pc.Allows tx keyed invoked) (undecided : tx = .active ∨ tx = .committing) :
    pc.Allows .aborted keyed invoked := by
  unfold PC.Allows at allows ⊢
  rcases undecided with rfl | rfl <;> split <;> simp_all [Tx.Unsent]

theorem PC.Allows.keyed {pc : PC ε} {keyed invoked : Bool}
    (allows : pc.Allows .active keyed invoked) : pc.Allows .active true invoked := by
  unfold PC.Allows at allows ⊢
  split <;> simp_all [Tx.Unsent]

theorem Call.Consistent.step {view : KeyView} {c c' : Call ε W} (consistent : c.Consistent)
    (stepped : c.Stepped view c') : c'.Consistent := by
  obtain ⟨args, pc, tx, keyed, writes, invoked⟩ := c
  obtain ⟨sent, place⟩ := consistent
  cases stepped with
  | gone pc noResult ended => exact ⟨sent, PC.allows_of_gone noResult ended _ _ _⟩
  | begun here =>
      cases here
      exact ⟨by simp, .inl rfl, place.2.2⟩
  | inserted here active _ =>
      cases here
      cases active
      exact ⟨by simp, .inl rfl, rfl, rfl⟩
  | duplicate here _ =>
      cases here
      exact ⟨by simp, .inr (.inl ⟨rfl, rfl, place.2⟩)⟩
  | wrote writes _ _ => exact ⟨sent, place⟩
  | handled here =>
      cases here
      exact ⟨sent, place⟩
  | rejected reason here =>
      cases here
      exact ⟨sent, .inr (.inr ⟨rfl, place.1⟩)⟩
  | commitSent here active =>
      cases here
      exact ⟨fun _ => place.2, place.2⟩
  | commitLost here _ =>
      cases here
      exact ⟨sent, place.2⟩
  | committed committing =>
      cases committing
      exact ⟨fun _ => sent (.inl rfl), place.committed⟩
  | returned here committed =>
      cases committed
      exact ⟨sent, .inl ⟨rfl, rfl⟩⟩
  | aborted undecided => exact ⟨by simp, place.aborted undecided⟩
  | lateInserted ended active _ =>
      cases active
      exact ⟨by simp, place.keyed⟩

theorem Call.Stepped.args {view : KeyView} {c c' : Call ε W} (stepped : c.Stepped view c') :
    c'.args = c.args := by
  cases stepped <;> rfl

/-- The key is claimed only when the index shows it free. -/
theorem Call.Stepped.claims {view : KeyView} {c c' : Call ε W} (stepped : c.Stepped view c')
    (consistent : c.Consistent) (claims : c'.Claims) : c.Claims ∨ view = .free := by
  obtain ⟨keyed, tx⟩ := claims
  cases stepped with
  | inserted _ _ free => exact .inr free
  | lateInserted _ _ free => exact .inr free
  | begun here =>
      have unkeyed := consistent.place
      rw [here] at unkeyed
      cases keyed.symm.trans unkeyed.2.1
  | gone => exact .inl ⟨keyed, tx⟩
  | duplicate => simp at tx
  | wrote => exact .inl ⟨keyed, tx⟩
  | handled => exact .inl ⟨keyed, tx⟩
  | rejected => exact .inl ⟨keyed, tx⟩
  | commitSent _ active => exact .inl ⟨keyed, .inl active⟩
  | commitLost => exact .inl ⟨keyed, tx⟩
  | committed committing => exact .inl ⟨keyed, .inr (.inl committing)⟩
  | returned => exact .inl ⟨keyed, tx⟩
  | aborted => simp at tx

/-- What is committed stays, with all its writes. -/
theorem Call.Stepped.stays {view : KeyView} {c c' : Call ε W} (stepped : c.Stepped view c')
    (consistent : c.Consistent) (committed : c.tx = .committed) :
    c'.tx = .committed ∧ c'.writes = c.writes := by
  cases stepped with
  | gone => exact ⟨committed, rfl⟩
  | begun here =>
      have unopened := consistent.place
      rw [here] at unopened
      cases committed.symm.trans unopened.1
  | inserted _ active _ => cases committed.symm.trans active
  | duplicate here _ =>
      have unsent := consistent.place
      rw [here] at unsent
      rcases unsent.1 with active | aborted
      · cases committed.symm.trans active
      · cases committed.symm.trans aborted
  | wrote _ _ active => cases committed.symm.trans active
  | handled => exact ⟨committed, rfl⟩
  | rejected => exact ⟨committed, rfl⟩
  | commitSent _ active => cases committed.symm.trans active
  | commitLost => exact ⟨committed, rfl⟩
  | committed => exact ⟨rfl, rfl⟩
  | returned => exact ⟨committed, rfl⟩
  | aborted undecided =>
      rcases undecided with active | committing
      · cases committed.symm.trans active
      · cases committed.symm.trans committing
  | lateInserted => exact ⟨committed, rfl⟩

/-- A transaction commits from a sent COMMIT only, with the writes it then has. -/
theorem Call.Stepped.commits {view : KeyView} {c c' : Call ε W} (stepped : c.Stepped view c')
    (committed : c'.tx = .committed) : c.tx = .committed ∨ c.tx = .committing := by
  cases stepped with
  | gone => exact .inl committed
  | begun => cases committed
  | inserted _ active _ => cases active.symm.trans committed
  | duplicate => cases committed
  | wrote => exact .inl committed
  | handled => exact .inl committed
  | rejected => exact .inl committed
  | commitSent => cases committed
  | commitLost => exact .inl committed
  | committed committing => exact .inr committing
  | returned => exact .inl committed
  | aborted => cases committed
  | lateInserted => exact .inl committed

theorem Call.Stepped.duplicate_taken {view : KeyView} {c c' : Call ε W}
    (stepped : c.Stepped view c') (duplicate : c'.pc = .returned (.ok { duplicate := true })) :
    c.pc = .returned (.ok { duplicate := true }) ∨ view = .taken := by
  cases stepped with
  | gone _ noResult _ => exact absurd duplicate (noResult _)
  | begun => cases duplicate
  | inserted => cases duplicate
  | duplicate _ taken => exact .inr taken
  | wrote => exact .inl duplicate
  | handled => cases duplicate
  | rejected => cases duplicate
  | commitSent => cases duplicate
  | commitLost => cases duplicate
  | committed => exact .inl duplicate
  | returned => cases duplicate
  | aborted => exact .inl duplicate
  | lateInserted => exact .inl duplicate

end Calls

/-! ## What the tables hold -/

section Tables

variable {ε W : Type}

/-- Call `i` has the key `key` and has committed. -/
def State.Committed (s : State ε W) (key : String) (i : Nat) : Prop :=
  ∃ c, s.calls[i]? = some c ∧ c.args.key = key ∧ c.tx = .committed

/-- A later call with the key of call `i` can commit any writes, unless another call
has the key. -/
def State.Reusable (s : State ε W) (i : Nat) (key : String) : Prop :=
  key ∉ s.keys → (∀ (j : Nat) c, s.calls[j]? = some c → j ≠ i → c.holds key = false) →
    ∀ (args : Args ε) (writes : List W), args.key = key → args.check = none →
      ∃ es t, machine.run s es = some t ∧ ⟨s.calls.length, key, writes⟩ ∈ t.effects

structure State.AtMostOnce (s : State ε W) : Prop where
  distinct : s.keys.Nodup ∧ (s.effects.map Effect.call).Nodup
  keys : ∀ key, key ∈ s.keys ↔ ∃! i, s.Committed key i
  effects : ∀ f, f ∈ s.effects ↔ ∃ c, s.calls[f.call]? = some c ∧ c.tx = .committed ∧
    f.key = c.args.key ∧ f.writes = c.writes
  ok : ∀ (i : Nat) c, s.calls[i]? = some c → c.pc = .returned (.ok {}) →
    c.invoked = true ∧ ⟨i, c.args.key, c.writes⟩ ∈ s.effects
  duplicate : ∀ (i : Nat) c, s.calls[i]? = some c → c.pc = .returned (.ok { duplicate := true }) →
    c.invoked = false ∧ ∃ j, j ≠ i ∧ s.Committed c.args.key j
  rejected : ∀ (i : Nat) c r, s.calls[i]? = some c → c.pc = .returned (.ok r) → r.rejected = true →
    (∀ f ∈ s.effects, f.call ≠ i) ∧ s.Reusable i c.args.key

structure Inv (s : State ε W) : Prop where
  consistent : ∀ (i : Nat) c, s.calls[i]? = some c → c.Consistent
  exclusive : ∀ (i j : Nat) c d, s.calls[i]? = some c → s.calls[j]? = some d →
    c.args.key = d.args.key → c.Claims → d.Claims → i = j
  keys : s.keys = s.effects.map Effect.key
  effects : ∀ f, f ∈ s.effects ↔ ∃ c, s.calls[f.call]? = some c ∧ c.tx = .committed ∧
    f.key = c.args.key ∧ f.writes = c.writes
  distinct : (s.effects.map Effect.call).Nodup
  duplicate : ∀ (i : Nat) c, s.calls[i]? = some c → c.pc = .returned (.ok { duplicate := true }) →
    c.args.key ∈ s.keys

theorem Call.Consistent.claims {c : Call ε W} (consistent : c.Consistent)
    (committed : c.tx = .committed) : c.Claims :=
  ⟨(consistent.sent (.inr committed)).1, .inr (.inr committed)⟩

theorem Inv.mem_keys {s : State ε W} (inv : Inv s) {key : String} :
    key ∈ s.keys ↔ ∃ i, s.Committed key i := by
  rw [inv.keys, List.mem_map]
  constructor
  · rintro ⟨f, member, rfl⟩
    obtain ⟨c, here, committed, key, -⟩ := (inv.effects f).1 member
    exact ⟨f.call, c, here, key.symm, committed⟩
  · rintro ⟨i, c, here, rfl, committed⟩
    exact ⟨⟨i, c.args.key, c.writes⟩, (inv.effects _).2 ⟨c, here, committed, rfl, rfl⟩, rfl⟩

theorem Inv.committed_unique {s : State ε W} (inv : Inv s) {key : String} {i j : Nat}
    (first : s.Committed key i) (second : s.Committed key j) : i = j := by
  obtain ⟨c, at_i, rfl, committed⟩ := first
  obtain ⟨d, at_j, same, committed'⟩ := second
  exact inv.exclusive i j c d at_i at_j same.symm ((inv.consistent i c at_i).claims committed)
    ((inv.consistent j d at_j).claims committed')

theorem Inv.keys_nodup {s : State ε W} (inv : Inv s) : s.keys.Nodup := by
  rw [inv.keys]
  refine List.Nodup.map_on (fun f first g second same => ?_) (inv.distinct.of_map _)
  have committed : ∀ f ∈ s.effects, s.Committed f.key f.call := fun f member => by
    obtain ⟨c, here, committed, key, -⟩ := (inv.effects f).1 member
    exact ⟨c, here, key.symm, committed⟩
  have call : f.call = g.call :=
    inv.committed_unique (committed f first) (same ▸ committed g second)
  exact List.inj_on_of_nodup_map inv.distinct first second call

/-- A key the index shows free is claimed by no call. -/
theorem Inv.unclaimed {s : State ε W} (inv : Inv s) {key : String} (free : s.view key = .free)
    {i : Nat} {c : Call ε W} (here : s.calls[i]? = some c) (same : c.args.key = key) :
    ¬ c.Claims := by
  rintro ⟨keyed, tx⟩
  unfold State.view at free
  split at free
  · cases free
  next absent =>
    split at free
    · cases free
    next unheld =>
      have undecided : ¬ (c.tx = .active ∨ c.tx = .committing) := fun undone => by
        refine unheld (List.any_eq_true.2 ⟨c, List.mem_of_getElem? here, ?_⟩)
        simpa [Call.holds, keyed, same] using undone
      rcases tx with active | committing | committed
      · exact undecided (.inl active)
      · exact undecided (.inr committing)
      · exact absent (inv.mem_keys.2 ⟨i, c, here, same, committed⟩)

theorem State.view_taken {s : State ε W} {key : String} :
    s.view key = .taken ↔ key ∈ s.keys := by
  unfold State.view
  split
  · simpa
  · split <;> simpa

/-! ## Steps -/

theorem inv_call {s : State ε W} (inv : Inv s) (args : Args ε) :
    Inv { s with calls := s.calls ++ [{ args := args }] } where
  consistent i c here := by
    rcases getElem?_concat_cases here with old | rfl
    · exact inv.consistent i c old
    · exact ⟨by simp, rfl, rfl, rfl⟩
  exclusive i j c d at_i at_j same claims claims' := by
    rcases getElem?_concat_cases at_i with old | rfl
    · rcases getElem?_concat_cases at_j with old' | rfl
      · exact inv.exclusive i j c d old old' same claims claims'
      · cases claims'.1
    · cases claims.1
  keys := inv.keys
  effects f := by
    rw [inv.effects f]
    constructor
    · rintro ⟨c, here, rest⟩
      exact ⟨c, getElem?_append_of_some here _, rest⟩
    · rintro ⟨c, here, committed, rest⟩
      rcases getElem?_concat_cases here with old | rfl
      · exact ⟨c, old, committed, rest⟩
      · cases committed
  distinct := inv.distinct
  duplicate i c here duplicate := by
    rcases getElem?_concat_cases here with old | rfl
    · exact inv.duplicate i c old duplicate
    · cases duplicate

section Update

variable {s : State ε W} {i : Nat} {c c' : Call ε W}

theorem State.calls_update : (s.update i c c').calls = s.calls.set i c' := by
  unfold State.update
  split <;> rfl

theorem State.mem_keys_update {key : String} (member : key ∈ s.keys) :
    key ∈ (s.update i c c').keys := by
  unfold State.update
  split
  · exact List.mem_append_left _ member
  · exact member

/-- While call `i` claims its key after a step, no other call does. -/
theorem Inv.others_unclaimed (inv : Inv s) (here : s.calls[i]? = some c)
    (stepped : c.Stepped (s.view c.args.key) c') (claims : c'.Claims) {j : Nat} {d : Call ε W}
    (there : s.calls[j]? = some d) (other : j ≠ i) (same : d.args.key = c'.args.key) :
    ¬ d.Claims := by
  rw [stepped.args] at same
  rcases stepped.claims (inv.consistent i c here) claims with before | free
  · exact fun again => other (inv.exclusive j i d c there here same again before)
  · exact inv.unclaimed free there same

/-- The effects still are those of the committed calls. -/
theorem Inv.effects_update (inv : Inv s) (here : s.calls[i]? = some c)
    (stepped : c.Stepped (s.view c.args.key) c') (f : Effect W) :
    f ∈ (s.update i c c').effects ↔ ∃ d, (s.calls.set i c')[f.call]? = some d ∧
      d.tx = .committed ∧ f.key = d.args.key ∧ f.writes = d.writes := by
  have inside : i < s.calls.length := (List.getElem?_eq_some_iff.1 here).1
  have own : (s.calls.set i c')[i]? = some c' := List.getElem?_set_self inside
  have elsewhere : ∀ j, j ≠ i → (s.calls.set i c')[j]? = s.calls[j]? := fun j other =>
    List.getElem?_set_ne (Ne.symm other)
  by_cases away : f.call = i
  · obtain ⟨call, key, writes⟩ := f
    subst away
    -- the effect of call `i` itself, before and after
    have before : ⟨call, key, writes⟩ ∈ s.effects ↔
        c.tx = .committed ∧ key = c.args.key ∧ writes = c.writes := by
      rw [inv.effects]
      simp [here]
    have after : (∃ d, (s.calls.set call c')[call]? = some d ∧ d.tx = .committed ∧
        key = d.args.key ∧ writes = d.writes) ↔
        c'.tx = .committed ∧ key = c'.args.key ∧ writes = c'.writes := by
      simp [own]
    simp only [after]
    by_cases committed : c.tx = .committed
    · obtain ⟨stays, same⟩ := stepped.stays (inv.consistent call c here) committed
      simp [State.update, committed, before, stays, same, stepped.args]
    · by_cases commits : c'.tx = .committed
      · simp [State.update, committed, commits, before]
      · simp [State.update, committed, commits, before]
  · have same : f ∈ (s.update i c c').effects ↔ f ∈ s.effects := by
      unfold State.update
      split
      · rw [List.mem_append, List.mem_singleton]
        exact or_iff_left fun new => away (congrArg Effect.call new)
      · rfl
    rw [same, inv.effects, elsewhere _ away]

theorem inv_update (inv : Inv s) (here : s.calls[i]? = some c)
    (stepped : c.Stepped (s.view c.args.key) c') : Inv (s.update i c c') where
  consistent j d there := by
    rw [State.calls_update] at there
    rcases getElem?_set_cases there with ⟨rfl, rfl⟩ | ⟨-, old⟩
    · exact (inv.consistent j c here).step stepped
    · exact inv.consistent j d old
  exclusive j k d e at_j at_k same claims claims' := by
    rw [State.calls_update] at at_j at_k
    rcases getElem?_set_cases at_j with ⟨rfl, rfl⟩ | ⟨other, old⟩
    · rcases getElem?_set_cases at_k with ⟨rfl, -⟩ | ⟨other, old⟩
      · rfl
      · exact absurd claims' (inv.others_unclaimed here stepped claims old other same.symm)
    · rcases getElem?_set_cases at_k with ⟨rfl, rfl⟩ | ⟨-, old'⟩
      · exact absurd claims (inv.others_unclaimed here stepped claims' old other same)
      · exact inv.exclusive j k d e old old' same claims claims'
  keys := by
    unfold State.update
    split <;> simp [inv.keys]
  effects f := by
    rw [inv.effects_update here stepped f, State.calls_update]
  distinct := by
    unfold State.update
    split
    · next commits =>
        have fresh : i ∉ s.effects.map Effect.call := fun again => by
          obtain ⟨f, member, rfl⟩ := List.mem_map.1 again
          obtain ⟨d, there, committed, -⟩ := (inv.effects f).1 member
          cases here.symm.trans there
          exact commits.1 committed
        rw [List.map_append]
        exact List.nodup_append.2 ⟨inv.distinct, List.nodup_singleton _, fun a old b new =>
          fun same => fresh (by simpa [same, List.mem_singleton.1 new] using old)⟩
    · exact inv.distinct
  duplicate j d there duplicate := by
    rw [State.calls_update] at there
    apply State.mem_keys_update
    rcases getElem?_set_cases there with ⟨rfl, rfl⟩ | ⟨-, old⟩
    · rw [stepped.args]
      rcases stepped.duplicate_taken duplicate with before | taken
      · exact inv.duplicate j c here before
      · exact State.view_taken.1 taken
    · exact inv.duplicate j d old duplicate

end Update

theorem inv_step {s t : State ε W} {e : Event ε W} (inv : Inv s) (stepped : step s e = some t) :
    Inv t := by
  cases e with
  | call args =>
      cases stepped
      exact inv_call inv args
  | on i a =>
      obtain ⟨c, here, rest⟩ := Option.bind_eq_some_iff.1 stepped
      obtain ⟨c', moved, updated⟩ := Option.bind_eq_some_iff.1 rest
      cases updated
      exact inv_update inv here (Call.step_stepped moved)

theorem inv_init : Inv ({} : State ε W) where
  consistent := by simp
  exclusive := by simp
  keys := rfl
  effects := by simp
  distinct := List.nodup_nil
  duplicate := by simp

/-- A call that returned without error and was not rejected: its key is applied, by
this call or by another. -/
theorem Inv.applied {s : State ε W} (inv : Inv s) {i : Nat} {c : Call ε W} {r : Result}
    (here : s.calls[i]? = some c) (returned : c.pc = .returned (.ok r))
    (accepted : r.rejected = false) : c.args.key ∈ s.keys := by
  have place := (inv.consistent i c here).place
  rw [returned] at place
  rcases place with ⟨-, committed⟩ | ⟨rfl, -⟩ | ⟨rejected, -⟩
  · exact inv.mem_keys.2 ⟨i, c, here, rfl, committed⟩
  · exact inv.duplicate i c here returned
  · cases accepted.symm.trans rejected

/-- What an action of a call changes for everybody else: at most its own new key is
committed. -/
theorem step_on {s t : State ε W} {i : Nat} {a : Action ε W}
    (stepped : step s (.on i a) = some t) :
    ∃ c c', s.calls[i]? = some c ∧ c'.args = c.args ∧ t.calls = s.calls.set i c' ∧
      (t.keys = s.keys ∨ t.keys = s.keys ++ [c.args.key]) := by
  obtain ⟨c, here, rest⟩ := Option.bind_eq_some_iff.1 stepped
  obtain ⟨c', moved, updated⟩ := Option.bind_eq_some_iff.1 rest
  cases updated
  have args := (Call.step_stepped moved).args
  refine ⟨c, c', here, args, State.calls_update, ?_⟩
  unfold State.update
  split
  · exact .inr (by rw [args])
  · exact .inl rfl

/-! ## A key that was rejected -/

/-- A call from its start to its commit. -/
def wholeCall (i : Nat) (args : Args ε) (writes : List W) : List (Event ε W) :=
  [.call args, .on i (.begin none), .on i .insert, .on i (.write writes),
    .on i (.handlerReturn none), .on i .commit, .on i (.settle true)]

theorem run_wholeCall {s : State ε W} {args : Args ε} (writes : List W)
    (passes : args.check = none) (absent : args.key ∉ s.keys)
    (unheld : s.calls.any (Call.holds args.key) = false) :
    ∃ t, machine.run s (wholeCall s.calls.length args writes) = some t ∧
      ⟨s.calls.length, args.key, writes⟩ ∈ t.effects := by
  have free : ∀ c : Call ε W, c.keyed = false →
      ({ s with calls := s.calls ++ [c] } : State ε W).view args.key = .free := fun c unkeyed => by
    simp [State.view, absent, unheld, Call.holds, unkeyed]
  simp [Machine.run, machine, wholeCall, step, Call.step, State.update, passes, free]

theorem any_holds_eq_false {key : String} {calls : List (Call ε W)}
    (unheld : ∀ (j : Nat) d, calls[j]? = some d → d.holds key = false) :
    calls.any (Call.holds key) = false := by
  rw [List.any_eq_false]
  intro d member
  obtain ⟨j, there⟩ := List.getElem?_of_mem member
  simp [unheld j d there]

/-- A call that sent no COMMIT leaves its key to the others, at the latest when the
server has rolled its transaction back. -/
theorem reusable_of_unsent {s : State ε W} {i : Nat} {c : Call ε W}
    (here : s.calls[i]? = some c) (unsent : c.tx.Unsent) : s.Reusable i c.args.key := by
  intro absent others args writes same passes
  rw [← same] at absent others ⊢
  rcases unsent with active | aborted
  · obtain ⟨t, ran, committed⟩ := run_wholeCall (s := { s with
        calls := s.calls.set i { c with tx := .aborted } }) writes passes absent
      (any_holds_eq_false fun j d there => by
        rcases getElem?_set_cases there with ⟨-, rfl⟩ | ⟨other, old⟩
        · simp [Call.holds]
        · exact others j d old other)
    rw [List.length_set] at ran committed
    refine ⟨.on i .abort :: wholeCall s.calls.length args writes, t, ?_, committed⟩
    rw [Machine.run_cons]
    exact ⟨_, by simp [machine, step, here, Call.step, active, State.update], ran⟩
  · obtain ⟨t, ran, committed⟩ := run_wholeCall (s := s) writes passes absent
      (any_holds_eq_false fun j d there => by
        by_cases other : j = i
        · subst other
          cases here.symm.trans there
          simp [Call.holds, aborted]
        · exact others j d there other)
    exact ⟨_, t, ran, committed⟩

/-! ## Every interleaving -/

theorem Inv.atMostOnce {s : State ε W} (inv : Inv s) : s.AtMostOnce where
  distinct := ⟨inv.keys_nodup, inv.distinct⟩
  keys key := by
    rw [inv.mem_keys]
    exact ⟨fun ⟨i, committed⟩ =>
        ⟨i, committed, fun j again => inv.committed_unique again committed⟩,
      fun ⟨i, committed, _⟩ => ⟨i, committed⟩⟩
  effects := inv.effects
  ok i c here ok := by
    have place := (inv.consistent i c here).place
    rw [ok] at place
    rcases place with ⟨-, committed⟩ | ⟨wrong, -⟩ | ⟨wrong, -⟩
    · exact ⟨((inv.consistent i c here).sent (.inr committed)).2,
        (inv.effects _).2 ⟨c, here, committed, rfl, rfl⟩⟩
    · cases wrong
    · cases wrong
  duplicate i c here duplicate := by
    have place := (inv.consistent i c here).place
    rw [duplicate] at place
    rcases place with ⟨wrong, -⟩ | ⟨-, aborted, unInvoked⟩ | ⟨wrong, -⟩
    · cases wrong
    · obtain ⟨j, committed⟩ := inv.mem_keys.1 (inv.duplicate i c here duplicate)
      refine ⟨unInvoked, j, ?_, committed⟩
      rintro rfl
      obtain ⟨d, there, -, committed⟩ := committed
      cases here.symm.trans there
      cases aborted.symm.trans committed
    · cases wrong
  rejected i c r here returned rejected := by
    have unsent : c.tx.Unsent := by
      have place := (inv.consistent i c here).place
      rw [returned] at place
      rcases place with ⟨rfl, -⟩ | ⟨rfl, -⟩ | ⟨-, unsent⟩
      · cases rejected
      · cases rejected
      · exact unsent
    refine ⟨fun f member own => ?_, reusable_of_unsent here unsent⟩
    obtain ⟨d, there, committed, -⟩ := (inv.effects f).1 member
    cases here.symm.trans (own ▸ there)
    rcases unsent with active | aborted
    · cases active.symm.trans committed
    · cases aborted.symm.trans committed

/-- **At most once, all or nothing.**  In every interleaving of any calls, with
crashes and lost replies anywhere, the tables hold what the committed calls did and
each call's result says what became of it. -/
theorem apply_atMostOnce {s : State ε W} (reached : machine.Reachable s) : s.AtMostOnce := by
  have inv : Inv s := by
    refine Machine.reachable_induction (P := Inv) ?_ ?_ reached
    · rintro _ rfl
      exact inv_init
    · exact fun _ _ _ inv stepped => inv_step inv stepped
  exact inv.atMostOnce

end Tables

/-! ## Three calls with one key -/

namespace OneKey

/-- A handler error is a text; the text "nope" is a reject. -/
def args : Args String where
  key := "k1"
  isReject := some (· == "nope")
  rejectReason := some id

/-- Call 0 is rejected while call 1 waits for its key; call 1 commits but never learns
it; call 2 is the retry. -/
def schedule : List (Event String Nat) :=
  [.call args, .call args, .on 0 (.begin none), .on 1 (.begin none), .on 0 .insert,
    .on 0 (.write [7]), .on 0 (.handlerReturn (some "nope")), .on 0 .abort, .on 1 .insert,
    .on 1 (.write [8, 9]), .on 1 (.handlerReturn none), .on 1 .commit,
    .on 1 (.commitError "conn closed"), .call args, .on 2 (.begin none), .on 1 (.settle true),
    .on 2 .insert]

theorem apply_atMostOnce_oneKey :
    ∃ s : State String Nat, machine.Reachable s ∧ s.keys = ["k1"] ∧
      s.effects = [⟨1, "k1", [8, 9]⟩] ∧ s.AtMostOnce := by
  have replay : (machine.run {} schedule).map (fun s => (s.keys, s.effects)) =
      some (["k1"], [⟨1, "k1", [8, 9]⟩]) := by
    decide +kernel
  obtain ⟨s, ran, ends⟩ := Option.map_eq_some_iff.1 replay
  obtain ⟨keys, effects⟩ := Prod.mk.inj ends
  have reached : machine.Reachable s := (Machine.Reachable.init rfl).run ran
  exact ⟨s, reached, keys, effects, apply_atMostOnce reached⟩

end OneKey

end Tether.Mutate
