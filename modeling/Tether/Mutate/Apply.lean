/-
# Tether.Mutate.Apply — mutations under an idempotency key

`mutate.Apply` is one transaction: insert the key, run the handler, commit.  A `Call`
is one invocation of it, cut at every point where it waits for the database or runs
code that is not its own, with the state of its transaction beside it:

* the transaction can end without the call (a failed statement aborts it, a backend
  dies), and the call can end without the transaction (it returns while the rollback,
  or a COMMIT already sent, is still on its way);
* the handler is arbitrary: it leaves any writes in the transaction and returns nil or
  any error, or panics.  It does not end the transaction itself;
* the unique index on `mutation_keys` shows a call what other transactions did with its
  key: nothing, inserted and not yet decided (the insert waits), or committed (the
  insert fails).

`machine` interleaves the actions of any number of calls.  `ε` is the handler's error
type and `W` what a handler writes.
-/
import Tether.Lib.Machine

namespace Tether.Mutate

open Tether.Lib

set_option autoImplicit false

structure Result where
  duplicate : Bool := false
  rejected : Bool := false
  reason : String := ""
  deriving DecidableEq

/-- `cause` is the text of the driver's error. -/
inductive ApplyError (ε : Type) where
  | poolNil
  | handlerNil
  | keyRequired
  | begin (cause : String)
  | insertKey (cause : String)
  | handler (err : ε)
  | commit (cause : String)
  deriving DecidableEq

/-- `err.Error()`, given that of the handler's errors. -/
def ApplyError.text {ε : Type} (error : ε → String) : ApplyError ε → String
  | .poolNil => "mutate: pool is nil"
  | .handlerNil => "mutate: handler is nil"
  | .keyRequired => "mutate: idempotency key is required"
  | .begin cause => "mutate: begin: " ++ cause
  | .insertKey cause => "mutate: insert key: " ++ cause
  | .handler err => error err
  | .commit cause => "mutate: commit: " ++ cause

/-- The arguments `Apply` itself reads; `pool` and `handler` say that they are not nil. -/
structure Args (ε : Type) where
  key : String
  pool : Bool := true
  handler : Bool := true
  isReject : Option (ε → Bool) := none
  rejectReason : Option (ε → String) := none

/-- The checks before the transaction. -/
def Args.check {ε : Type} (args : Args ε) : Option (ApplyError ε) :=
  if !args.pool then some .poolNil
  else if !args.handler then some .handlerNil
  else if args.key = "" then some .keyRequired
  else none

/-- What `Apply` returns when the handler returned `err`. -/
def Args.handlerFailed {ε : Type} (args : Args ε) (err : ε) : Except (ApplyError ε) Result :=
  if args.isReject.elim false (· err) then
    .ok { rejected := true, reason := args.rejectReason.elim "" (· err) }
  else .error (.handler err)

/-- Where a call is.  `handling` is inside the handler, `handled` after it returned nil. -/
inductive PC (ε : Type) where
  | called
  | begun
  | handling
  | handled
  | committing
  | returned (r : Except (ApplyError ε) Result)
  | panicked
  | crashed

/-- The call's transaction on the server; `committing` is a COMMIT not yet decided. -/
inductive Tx where
  | unopened
  | active
  | committing
  | committed
  | aborted
  deriving DecidableEq

/-- `keyed` says that the transaction inserted the key; `invoked` records that the
handler was called. -/
structure Call (ε W : Type) where
  args : Args ε
  pc : PC ε := .called
  tx : Tx := .unopened
  keyed : Bool := false
  writes : List W := []
  invoked : Bool := false

/-- What the unique index says about a key. -/
inductive KeyView where
  | free
  | held
  | taken
  deriving DecidableEq

inductive Action (ε W : Type) where
  | begin (failed : Option String)
  | insert
  | insertError (cause : String)
  | write (writes : List W)
  | handlerReturn (err : Option ε)
  | handlerPanic
  | commit
  | settle (committed : Bool)
  | commitReply
  | commitError (cause : String)
  | abort
  | lateInsert
  | crash

section Calls

variable {ε W : Type}

/-- The call no longer runs. -/
def PC.ended : PC ε → Bool
  | .returned _ | .panicked | .crashed => true
  | _ => false

/-- One action of one call.  `settle`, `abort` and `lateInsert` are the server's, all
others the call's own. -/
def Call.step (view : KeyView) (c : Call ε W) : Action ε W → Option (Call ε W)
  | .begin failed =>
      match c.pc, c.args.check, failed with
      | .called, some err, _ => some { c with pc := .returned (.error err) }
      | .called, none, some cause => some { c with pc := .returned (.error (.begin cause)) }
      | .called, none, none => some { c with pc := .begun, tx := .active }
      | _, _, _ => none
  | .insert =>
      match c.pc, c.tx, view with
      | .begun, .active, .free => some { c with pc := .handling, keyed := true, invoked := true }
      | .begun, .active, .taken =>
          -- the unique violation aborts the transaction
          some { c with pc := .returned (.ok { duplicate := true }), tx := .aborted }
      | _, _, _ => none
  | .insertError cause =>
      match c.pc with
      | .begun => some { c with pc := .returned (.error (.insertKey cause)) }
      | _ => none
  | .write writes =>
      -- a statement of the handler: these are now the writes of its transaction
      match c.pc, c.tx with
      | .handling, .active => some { c with writes := writes }
      | _, _ => none
  | .handlerReturn err =>
      match c.pc, err with
      | .handling, none => some { c with pc := .handled }
      | .handling, some err => some { c with pc := .returned (c.args.handlerFailed err) }
      | _, _ => none
  | .handlerPanic =>
      match c.pc with
      | .handling => some { c with pc := .panicked }
      | _ => none
  | .commit =>
      match c.pc, c.tx with
      | .handled, .active => some { c with pc := .committing, tx := .committing }
      | .handled, _ => some { c with pc := .committing }
      | _, _ => none
  | .settle committed =>
      match c.tx with
      | .committing => some { c with tx := if committed then .committed else .aborted }
      | _ => none
  | .commitReply =>
      match c.pc, c.tx with
      | .committing, .committed => some { c with pc := .returned (.ok {}) }
      | _, _ => none
  | .commitError cause =>
      match c.pc with
      | .committing => some { c with pc := .returned (.error (.commit cause)) }
      | _ => none
  | .abort =>
      match c.tx with
      | .active => some { c with tx := .aborted }
      | _ => none
  | .lateInsert =>
      -- an insert that was sent before the call ended
      match c.pc.ended, c.tx, view with
      | true, .active, .free => some { c with keyed := true }
      | _, _, _ => none
  | .crash => if c.pc.ended then none else some { c with pc := .crashed }

/-- The transaction has the key and is not decided. -/
def Call.holds (key : String) (c : Call ε W) : Bool :=
  c.keyed && c.args.key = key && (c.tx = .active || c.tx = .committing)

end Calls

/-- What one committed transaction did to the application's tables. -/
structure Effect (W : Type) where
  call : Nat
  key : String
  writes : List W
  deriving DecidableEq

/-- The calls, the committed rows of `mutation_keys` and the committed effects, both in
commit order. -/
structure State (ε W : Type) where
  calls : List (Call ε W) := []
  keys : List String := []
  effects : List (Effect W) := []

inductive Event (ε W : Type) where
  | call (args : Args ε)
  | on (i : Nat) (a : Action ε W)

section Machine

variable {ε W : Type}

def State.view (s : State ε W) (key : String) : KeyView :=
  if key ∈ s.keys then .taken
  else if s.calls.any (Call.holds key) then .held
  else .free

/-- Call `i` became `c'`; if that committed its transaction, key and writes appear. -/
def State.update (s : State ε W) (i : Nat) (c c' : Call ε W) : State ε W :=
  if c.tx ≠ .committed ∧ c'.tx = .committed then
    { calls := s.calls.set i c'
      keys := s.keys ++ [c'.args.key]
      effects := s.effects ++ [⟨i, c'.args.key, c'.writes⟩] }
  else { s with calls := s.calls.set i c' }

def step (s : State ε W) : Event ε W → Option (State ε W)
  | .call args => some { s with calls := s.calls ++ [{ args := args }] }
  | .on i a => do
      let c ← s.calls[i]?
      let c' ← c.step (s.view c.args.key) a
      return s.update i c c'

def machine : Machine (State ε W) (Event ε W) := ⟨(· = {}), step⟩

end Machine

end Tether.Mutate
