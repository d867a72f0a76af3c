/-
# Tether.Engine.Ticks — from `change_log` to the streams

One turn of the loop in `fanOutNewChanges`: the cursor of `FanOut` passes the next row of
the open result set, and `dispatchChange` of `Live` starts on the change it reads there.
A call of `Run` (`Tether.Engine.Rerun`) and the recovery from slot lag
(`Tether.Engine.Recovery`) are both built from it.
-/
import Tether.Engine.FanOut
import Tether.Engine.Live

namespace Tether.Live

open Lib Wal Shape

set_option autoImplicit false

variable {C : Type} {u : Setup C} {live live' : State C} {fan fan' : FanOut.State}
  {order : List String} {listed : List Nat}

/-- The goroutine of `Run` is in no `dispatchChange`, no broadcast and no `SendBye`. -/
def State.rests (live : State C) : Bool :=
  match live.work with
  | .idle => true
  | _ => false

theorem State.rests_iff : live.rests = true ↔ live.work = .idle := by
  unfold State.rests
  cases live.work <;> simp

/-- The next row goes to `dispatchChange`, unless it does not parse. -/
def dispatchRow [LSNText] (u : Setup C) (live : State C) (fan : FanOut.State) (order : List String)
    (listed : List Nat) : Option (State C × FanOut.State) := do
  let r ← fan.batch.bind List.head?
  let fan ← FanOut.step fan .row
  match r.readBack with
  | none => some (live, fan)
  | some ch => do
      let live ← step u live (.copy ch order listed)
      some (live, fan)

theorem dispatchRow_spec [LSNText]
    (stepped : dispatchRow u live fan order listed = some (live', fan')) :
    (∃ r later, fan.batch = some (r :: later)) ∧ FanOut.step fan .row = some fan' ∧
      (live' = live ∨ ∃ ch, step u live (.copy ch order listed) = some live') := by
  obtain ⟨r, head, rest⟩ := Option.bind_eq_some_iff.1 stepped
  obtain ⟨batch, reading, first⟩ := Option.bind_eq_some_iff.1 head
  obtain ⟨later, rfl⟩ := List.head?_eq_some_iff.1 first
  obtain ⟨fan, row, moved⟩ := Option.bind_eq_some_iff.1 rest
  refine ⟨⟨r, later, reading⟩, ?_⟩
  split at moved
  · cases moved
    exact ⟨row, .inl rfl⟩
  · next ch _ =>
      obtain ⟨live, copied, same⟩ := Option.bind_eq_some_iff.1 moved
      cases same
      exact ⟨row, .inr ⟨ch, copied⟩⟩

/-- A task as `persist` stores its insert. -/
def Tasks.stored (id : Int64) : StoredChange :=
  ⟨"public", "tasks", "insert", "v1", none, some (KeyMap.ofList [("id", .integer id)])⟩

end Tether.Live
