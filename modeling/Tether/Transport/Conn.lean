/-
# Tether.Transport.Conn — a client's outbound buffer

`transport/conn.go`.  `Enqueue` never blocks: it buffers the message or reports
that the buffer is full or the connection closed.  `SendBye` closes the connection for
good and writes its frame past the buffer, and returns when the shutdown is over: `gone`
says that it is.  The capacity bound is a field.

Two relations describe what a piece of the engine does to a connection: `Sends`,
what it may add to the buffer, and `Room`, that what it adds will fit.
-/
import Mathlib.Tactic.SplitIfs

namespace Tether.Transport

set_option autoImplicit false

/-- A connection that carries messages of type `μ`. -/
structure Conn (μ : Type) where
  capacity : Nat
  /-- Taken out by `WritePump`. -/
  written : List μ := []
  queue : List μ := []
  closed : Bool := false
  bye : Option String := none
  /-- The shutdown has returned. -/
  gone : Bool := false
  bounded : queue.length ≤ capacity

namespace Conn

variable {μ : Type}

/-- `NewConn`: a size that is not positive means 64. -/
def new (bufSize : Int) : Conn μ where
  capacity := if bufSize ≤ 0 then 64 else bufSize.toNat
  bounded := Nat.zero_le _

def enqueue (c : Conn μ) (m : μ) : Conn μ × Bool :=
  if c.closed then (c, false)
  else if room : c.queue.length < c.capacity then
    ({ c with queue := c.queue ++ [m], bounded := by rw [List.length_append]; exact room }, true)
  else (c, false)

/-- `SendBye` begins.  The first `SendBye` or `Close` wins. -/
def sendBye (c : Conn μ) (reason : String) : Conn μ :=
  if c.closed then c else { c with closed := true, bye := some reason }

/-- `Close` writes no frame. -/
def close (c : Conn μ) : Conn μ := { c with closed := true }

/-- The shutdown is under way: every `SendBye` and `Close` waits for its end. -/
def closing (c : Conn μ) : Bool := c.closed && !c.gone

/-- The shutdown ends: frames have been written or given up, and the channel is closed. -/
def shut (c : Conn μ) : Option (Conn μ) :=
  if c.closing then some { c with gone := true } else none

/-- `WritePump` takes the oldest message out. -/
def pump (c : Conn μ) : Option (Conn μ) :=
  match waiting : c.queue with
  | [] => none
  | m :: later =>
      some { c with
        written := c.written ++ [m]
        queue := later
        bounded := by
          have fits := c.bounded
          simp only [waiting, List.length_cons] at fits
          omega }

/-- Every message ever buffered, oldest first. -/
def accepted (c : Conn μ) : List μ := c.written ++ c.queue

/-- `Enqueue` accepts the message on an open connection, or changes nothing. -/
theorem enqueue_cases (c : Conn μ) (m : μ) :
    (c.closed = false ∧ (c.enqueue m).2 = true ∧ (c.enqueue m).1.closed = false ∧
      (c.enqueue m).1.accepted = c.accepted ++ [m]) ∨ c.enqueue m = (c, false) := by
  unfold enqueue
  by_cases closed : c.closed = true
  · exact Or.inr (if_pos closed)
  · rw [if_neg closed]
    split
    · exact Or.inl ⟨by simpa using closed, rfl, by simpa using closed, by simp [accepted]⟩
    · exact Or.inr rfl

@[simp] theorem sendBye_accepted (c : Conn μ) (reason : String) :
    (c.sendBye reason).accepted = c.accepted := by
  unfold sendBye
  split <;> rfl

@[simp] theorem sendBye_closed (c : Conn μ) (reason : String) :
    (c.sendBye reason).closed = true := by
  unfold sendBye
  split
  · assumption
  · rfl

theorem pump_spec {c c' : Conn μ} (pumped : c.pump = some c') :
    c'.accepted = c.accepted ∧ c'.closed = c.closed := by
  unfold pump at pumped
  split at pumped
  · cases pumped
  · rename_i m later waiting
    cases pumped
    exact ⟨by simp [accepted, waiting], rfl⟩

theorem shut_spec {c c' : Conn μ} (finished : c.shut = some c') : c' = { c with gone := true } := by
  unfold shut at finished
  split at finished
  · cases finished
    rfl
  · cases finished

/-- `c'` is `c` after more was buffered, or written out, or the connection closed. -/
structure Extends (c c' : Conn μ) : Prop where
  accepted : c.accepted <+: c'.accepted
  closed : c.closed = true → c'.closed = true

theorem Extends.refl (c : Conn μ) : Extends c c := ⟨List.prefix_refl _, id⟩

theorem Extends.trans {a b c : Conn μ} (first : Extends a b) (second : Extends b c) :
    Extends a c :=
  ⟨first.accepted.trans second.accepted, fun closed => second.closed (first.closed closed)⟩

theorem extends_enqueue (c : Conn μ) (m : μ) : Extends c (c.enqueue m).1 := by
  rcases c.enqueue_cases m with ⟨opened, -, -, grown⟩ | refused
  · exact ⟨grown ▸ List.prefix_append _ _, fun closed => absurd closed (by simp [opened])⟩
  · rw [refused]
    exact .refl c

theorem extends_sendBye (c : Conn μ) (reason : String) : Extends c (c.sendBye reason) := by
  refine ⟨?_, fun _ => c.sendBye_closed reason⟩
  exact sendBye_accepted c reason ▸ List.prefix_refl _

theorem extends_close (c : Conn μ) : Extends c c.close := ⟨List.prefix_refl _, fun _ => rfl⟩

theorem extends_shut {c c' : Conn μ} (finished : c.shut = some c') : Extends c c' := by
  rw [shut_spec finished]
  exact ⟨List.prefix_refl _, id⟩

theorem extends_pump {c c' : Conn μ} (pumped : c.pump = some c') : Extends c c' := by
  obtain ⟨accepted, closed⟩ := pump_spec pumped
  refine ⟨?_, fun before => closed.trans before⟩
  exact accepted ▸ List.prefix_refl _

/-- Everything added to the buffer from `c` to `c'` satisfies `Q`. -/
def Sends (Q : μ → Prop) (c c' : Conn μ) : Prop :=
  ∃ added, c'.queue = c.queue ++ added ∧ ∀ m ∈ added, Q m

variable {Q : μ → Prop}

theorem Sends.refl (c : Conn μ) : Sends Q c c := ⟨[], by simp, by simp⟩

theorem Sends.trans {a b c : Conn μ} (first : Sends Q a b) (second : Sends Q b c) :
    Sends Q a c := by
  obtain ⟨added, grown, good⟩ := first
  obtain ⟨added', grown', good'⟩ := second
  refine ⟨added ++ added', by rw [grown', grown, List.append_assoc], fun m member => ?_⟩
  rcases List.mem_append.1 member with early | late
  · exact good m early
  · exact good' m late

theorem Sends.mono {Q' : μ → Prop} {c c' : Conn μ} (sends : Sends Q c c')
    (weaker : ∀ m, Q m → Q' m) : Sends Q' c c' := by
  obtain ⟨added, grown, good⟩ := sends
  exact ⟨added, grown, fun m member => weaker m (good m member)⟩

theorem Sends.mem_drop {c c' : Conn μ} (sends : Sends Q c c') {m : μ}
    (fresh : m ∈ c'.queue.drop c.queue.length) : Q m := by
  obtain ⟨added, grown, good⟩ := sends
  rw [grown, List.drop_left] at fresh
  exact good m fresh

theorem Sends.subset {c c' : Conn μ} (sends : Sends Q c c') {m : μ} (member : m ∈ c.queue) :
    m ∈ c'.queue := by
  obtain ⟨added, grown, -⟩ := sends
  rw [grown]
  exact List.mem_append_left _ member

theorem sends_enqueue (c : Conn μ) {m : μ} (good : Q m) : Sends Q c (c.enqueue m).1 := by
  unfold enqueue
  split_ifs
  · exact .refl c
  · exact ⟨[m], rfl, by simpa using good⟩
  · exact .refl c

theorem sends_sendBye (c : Conn μ) (reason : String) : Sends Q c (c.sendBye reason) := by
  unfold sendBye
  split_ifs <;> exact ⟨[], by simp, by simp⟩

/-- Open, with room for `k` more messages. -/
def Room (k : Nat) (c : Conn μ) : Prop := c.closed = false ∧ c.queue.length + k ≤ c.capacity

theorem Room.mono {j k : Nat} {c : Conn μ} (room : Room k c) (less : j ≤ k) : Room j c :=
  ⟨room.1, Nat.le_trans (Nat.add_le_add_left less _) room.2⟩

theorem Room.enqueue {k : Nat} {c : Conn μ} (room : Room (k + 1) c) (m : μ) :
    (c.enqueue m).2 = true ∧ (c.enqueue m).1.queue = c.queue ++ [m] ∧
      Room k (c.enqueue m).1 := by
  obtain ⟨opened, fits⟩ := room
  have free : c.queue.length < c.capacity := by omega
  simp only [Conn.enqueue, opened, Bool.false_eq_true, if_false, free, dite_true, Room]
  refine ⟨trivial, trivial, trivial, ?_⟩
  simp only [List.length_append, List.length_singleton]
  omega

end Conn

end Tether.Transport
