/-
# Tether.Lib.Machine — guarded step functions, their runs and their invariants

A `Machine` is an executable transition system: `step s e` is the state after
event `e`, or `none` when `e` is not enabled in `s`.  A run is a list of events,
so a schedule can be replayed by `decide` and quantified over by induction.

Three predicates speak about runs:

* `Reachable s`: some run from an initial state ends in `s`;
* `Along P s es`: `P` holds in every state the run `es` from `s` visits;
* `Meets guard s es`: every step the run takes meets `guard` in the state before it.

`reachable_induction` is the invariant rule.  `along_iff_meets` is the rule for a
machine that keeps its invariant exactly as long as a guard is met: the step that
breaks the guard is the step that breaks the property.
-/
import Mathlib.Tactic.ByContra

namespace Tether.Lib

set_option autoImplicit false

/-- An initial condition and a guarded step function. -/
structure Machine (σ ε : Type) where
  init : σ → Prop
  step : σ → ε → Option σ

namespace Machine

variable {σ ε : Type} (m : Machine σ ε)

/-- Replay a schedule; `none` as soon as one of its events is not enabled. -/
def run : σ → List ε → Option σ
  | s, [] => some s
  | s, e :: es => (m.step s e).bind fun t => run t es

/-- `P` in every state visited by the run, the first one included. -/
def Along (P : σ → Prop) : σ → List ε → Prop
  | s, [] => P s
  | s, e :: es => P s ∧ ∀ t, m.step s e = some t → Along P t es

/-- Every step taken by the run meets `guard` in the state it is taken from. -/
def Meets (guard : σ → ε → Prop) : σ → List ε → Prop
  | _, [] => True
  | s, e :: es => ∀ t, m.step s e = some t → guard s e ∧ Meets guard t es

inductive Reachable : σ → Prop where
  | init {s : σ} : m.init s → Reachable s
  | step {s t : σ} {e : ε} : Reachable s → m.step s e = some t → Reachable t

variable {m}

theorem run_cons {s t : σ} {e : ε} {es : List ε} :
    m.run s (e :: es) = some t ↔ ∃ u, m.step s e = some u ∧ m.run u es = some t := by
  simp [run, Option.bind_eq_some_iff]

theorem run_append (s : σ) (es es' : List ε) :
    m.run s (es ++ es') = (m.run s es).bind fun t => m.run t es' := by
  induction es generalizing s with
  | nil => rfl
  | cons e es ih => cases stepped : m.step s e <;> simp [run, stepped, ih]

theorem run_trans {s t u : σ} {es es' : List ε} (first : m.run s es = some t)
    (second : m.run t es' = some u) : m.run s (es ++ es') = some u := by
  rw [run_append, first, Option.bind_some, second]

/-- An invariant of the initial states that every step keeps holds in every
reachable state. -/
theorem reachable_induction {P : σ → Prop} (start : ∀ s, m.init s → P s)
    (keeps : ∀ s e t, P s → m.step s e = some t → P t) {s : σ} (reached : m.Reachable s) :
    P s := by
  induction reached with
  | init initial => exact start _ initial
  | step _ stepped ih => exact keeps _ _ _ ih stepped

/-- What every step keeps, a run keeps. -/
theorem run_induction {P : σ → Prop} (keeps : ∀ s e t, P s → m.step s e = some t → P t)
    {s t : σ} {es : List ε} (holds : P s) (ran : m.run s es = some t) : P t := by
  induction es generalizing s with
  | nil => cases ran; exact holds
  | cons e es ih =>
      obtain ⟨u, stepped, rest⟩ := run_cons.mp ran
      exact ih (keeps s e u holds stepped) rest

theorem Reachable.run {s t : σ} {es : List ε} (reached : m.Reachable s)
    (ran : m.run s es = some t) : m.Reachable t :=
  run_induction (fun _ _ _ reached stepped => reached.step stepped) reached ran

theorem Along.head {P : σ → Prop} {s : σ} {es : List ε} (along : m.Along P s es) : P s := by
  cases es with
  | nil => exact along
  | cons e es => exact along.1

theorem Along.last {P : σ → Prop} {s t : σ} {es : List ε} (along : m.Along P s es)
    (ran : m.run s es = some t) : P t := by
  induction es generalizing s with
  | nil => cases ran; exact along
  | cons e es ih =>
      obtain ⟨u, stepped, rest⟩ := run_cons.mp ran
      exact ih (along.2 u stepped) rest

/-- **Exact guards.**  If `I` gives `P`, is kept by every step that meets
`guard`, and `P` fails right after any step that does not, then a run keeps `P`
exactly when all its steps meet `guard`. -/
theorem along_iff_meets {I P : σ → Prop} {guard : σ → ε → Prop}
    (gives : ∀ s, I s → P s)
    (keeps : ∀ s e t, I s → guard s e → m.step s e = some t → I t)
    (breaks : ∀ s e t, I s → ¬ guard s e → m.step s e = some t → ¬ P t)
    {s : σ} (inv : I s) (es : List ε) : m.Along P s es ↔ m.Meets guard s es := by
  induction es generalizing s with
  | nil => simp [Along, Meets, gives s inv]
  | cons e es ih =>
      constructor
      · rintro ⟨-, rest⟩ t stepped
        have met : guard s e := by
          by_contra unmet
          exact breaks s e t inv unmet stepped (rest t stepped).head
        exact ⟨met, (ih (keeps s e t inv met stepped)).1 (rest t stepped)⟩
      · intro met
        refine ⟨gives s inv, fun t stepped => ?_⟩
        obtain ⟨here, rest⟩ := met t stepped
        exact (ih (keeps s e t inv here stepped)).2 rest

/-- The guards of a run are those of its first part and those of the rest. -/
theorem Meets.split {guard : σ → ε → Prop} {s : σ} {es es' : List ε}
    (meets : m.Meets guard s (es ++ es')) :
    m.Meets guard s es ∧ ∀ t, m.run s es = some t → m.Meets guard t es' := by
  induction es generalizing s with
  | nil =>
      refine ⟨trivial, fun t ran => ?_⟩
      cases ran
      exact meets
  | cons e es ih =>
      refine ⟨fun u stepped => ?_, fun t ran => ?_⟩
      · obtain ⟨here, later⟩ := meets u stepped
        exact ⟨here, (ih later).1⟩
      · obtain ⟨u, stepped, rest⟩ := run_cons.mp ran
        exact (ih (meets u stepped).2).2 t rest

theorem Meets.append {guard : σ → ε → Prop} {s t : σ} {es es' : List ε}
    (meets : m.Meets guard s es) (ran : m.run s es = some t) (later : m.Meets guard t es') :
    m.Meets guard s (es ++ es') := by
  induction es generalizing s with
  | nil =>
      cases ran
      exact later
  | cons e es ih =>
      obtain ⟨u, stepped, rest⟩ := run_cons.mp ran
      intro u' stepped'
      cases stepped.symm.trans stepped'
      obtain ⟨here, within⟩ := meets u stepped
      exact ⟨here, ih within rest⟩

/-- A guard on the events alone. -/
theorem meets_of_forall {Q : ε → Prop} {es : List ε} (all : ∀ e ∈ es, Q e) (s : σ) :
    m.Meets (fun _ e => Q e) s es := by
  induction es generalizing s with
  | nil => trivial
  | cons e es ih =>
      intro t _
      exact ⟨all e List.mem_cons_self, ih (fun e' later => all e' (List.mem_cons_of_mem _ later)) t⟩

/-- On a run that is taken to its end, such a guard is one on every event. -/
theorem meets_iff_forall {Q : ε → Prop} {s t : σ} {es : List ε} (ran : m.run s es = some t) :
    m.Meets (fun _ e => Q e) s es ↔ ∀ e ∈ es, Q e := by
  refine ⟨fun meets => ?_, fun all => meets_of_forall all s⟩
  induction es generalizing s with
  | nil => simp
  | cons e es ih =>
      obtain ⟨u, stepped, rest⟩ := run_cons.mp ran
      obtain ⟨here, later⟩ := meets u stepped
      intro e' member
      rcases List.mem_cons.1 member with rfl | old
      · exact here
      · exact ih rest later e' old

theorem Meets.and {guard guard' : σ → ε → Prop} {s : σ} {es : List ε}
    (meets : m.Meets guard s es) (meets' : m.Meets guard' s es) :
    m.Meets (fun s e => guard s e ∧ guard' s e) s es := by
  induction es generalizing s with
  | nil => trivial
  | cons e es ih =>
      intro t stepped
      obtain ⟨here, later⟩ := meets t stepped
      obtain ⟨here', later'⟩ := meets' t stepped
      exact ⟨⟨here, here'⟩, ih later later'⟩

theorem Meets.mono {guard guard' : σ → ε → Prop} (weaker : ∀ s e, guard s e → guard' s e) {s : σ}
    {es : List ε} (meets : m.Meets guard s es) : m.Meets guard' s es := by
  induction es generalizing s with
  | nil => trivial
  | cons e es ih =>
      intro t stepped
      obtain ⟨here, later⟩ := meets t stepped
      exact ⟨weaker s e here, ih later⟩

/-- A guard that keeps the invariant, and gives another one where it holds. -/
theorem Meets.imp {I : σ → Prop} {guard guard' : σ → ε → Prop}
    (keeps : ∀ s e t, I s → guard s e → m.step s e = some t → I t)
    (gives : ∀ s e t, I s → guard s e → m.step s e = some t → guard' s e) {s : σ} (inv : I s)
    {es : List ε} (meets : m.Meets guard s es) : m.Meets guard' s es := by
  induction es generalizing s with
  | nil => trivial
  | cons e es ih =>
      intro t stepped
      obtain ⟨here, later⟩ := meets t stepped
      exact ⟨gives s e t inv here stepped, ih (keeps s e t inv here stepped) later⟩

/-- The half of `along_iff_meets` that needs no converse. -/
theorem along_of_meets {I P : σ → Prop} {guard : σ → ε → Prop}
    (gives : ∀ s, I s → P s)
    (keeps : ∀ s e t, I s → guard s e → m.step s e = some t → I t)
    {s : σ} (inv : I s) {es : List ε} (meets : m.Meets guard s es) : m.Along P s es := by
  induction es generalizing s with
  | nil => exact gives s inv
  | cons e es ih =>
      refine ⟨gives s inv, fun t stepped => ?_⟩
      obtain ⟨here, rest⟩ := meets t stepped
      exact ih (keeps s e t inv here stepped) rest

/-- A schedule can be checked against a decidable guard by replaying it. -/
instance decidableMeets (guard : σ → ε → Prop) [∀ s e, Decidable (guard s e)] :
    ∀ s es, Decidable (m.Meets guard s es)
  | _, [] => .isTrue trivial
  | s, e :: es =>
      match stepped : m.step s e with
      | none => .isTrue fun t taken => by simp [stepped] at taken
      | some u =>
          have : Decidable (m.Meets guard u es) := decidableMeets guard u es
          decidable_of_iff (guard s e ∧ m.Meets guard u es)
            ⟨fun met t taken => by
              cases stepped.symm.trans taken
              exact met,
            fun met => met u stepped⟩

/-- The other half where a broken guard shows only later: it puts the run on a bad
path, which no step leaves, so a run that ends well has met its guards. -/
theorem meets_of_run {I Bad : σ → Prop} {guard : σ → ε → Prop}
    (keeps : ∀ s e t, I s → guard s e → m.step s e = some t → I t)
    (spoils : ∀ s e t, I s → ¬ guard s e → m.step s e = some t → Bad t)
    (stays : ∀ s e t, Bad s → m.step s e = some t → Bad t)
    {s t : σ} {es : List ε} (inv : I s) (ran : m.run s es = some t) (good : ¬ Bad t) :
    m.Meets guard s es := by
  induction es generalizing s with
  | nil => trivial
  | cons e es ih =>
      obtain ⟨u, stepped, rest⟩ := run_cons.mp ran
      have met : guard s e := by
        by_contra unmet
        refine good (run_induction (fun s e t bad => stays s e t bad) ?_ rest)
        exact spoils s e u inv unmet stepped
      intro u' stepped'
      cases stepped.symm.trans stepped'
      exact ⟨met, ih (keeps s e u inv met stepped) rest⟩

end Machine

end Tether.Lib
