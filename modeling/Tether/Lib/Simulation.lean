/-
# Tether.Lib.Simulation — one machine explained by another

`Simulates m guard n R`: from related states, whatever step `m` takes that meets `guard`,
`n` can take some steps, or none, and end related again.  A faithful machine is related to
an abstract one by what it implements; the guard says which of its runs do.

The step condition is stated once for a step; `Simulates.run` and `Simulates.reached` are
the rules for runs.  `run_follows` is the rule for two machines over the same events that
may take different invisible steps.
-/
import Tether.Lib.Machine

namespace Tether.Lib

set_option autoImplicit false

namespace Machine

variable {σ ε τ δ : Type} {m : Machine σ ε} {guard : σ → ε → Prop} {n : Machine τ δ}
  {R : σ → τ → Prop}

/-- `n` can follow the guarded steps of `m`, keeping `R`. -/
structure Simulates (m : Machine σ ε) (guard : σ → ε → Prop) (n : Machine τ δ)
    (R : σ → τ → Prop) : Prop where
  init : ∀ s, m.init s → ∃ t, n.init t ∧ R s t
  step : ∀ s e s' t, R s t → guard s e → m.step s e = some s' →
    ∃ es t', n.run t es = some t' ∧ R s' t'

/-- Every guarded run is explained by a run of the other machine. -/
theorem Simulates.run (sim : Simulates m guard n R) {s s' : σ} {t : τ} {es : List ε}
    (related : R s t) (meets : m.Meets guard s es) (ran : m.run s es = some s') :
    ∃ es' t', n.run t es' = some t' ∧ R s' t' := by
  induction es generalizing s t with
  | nil =>
      cases ran
      exact ⟨[], t, rfl, related⟩
  | cons e es ih =>
      obtain ⟨u, stepped, rest⟩ := run_cons.1 ran
      obtain ⟨here, later⟩ := meets u stepped
      obtain ⟨first, v, ran', related'⟩ := sim.step s e u t related here stepped
      obtain ⟨second, t', ran'', final⟩ := ih related' later rest
      exact ⟨first ++ second, t', run_trans ran' ran'', final⟩

theorem Simulates.reached (sim : Simulates m guard n R) {s s' : σ} {es : List ε}
    (initial : m.init s) (meets : m.Meets guard s es) (ran : m.run s es = some s') :
    ∃ t, n.Reachable t ∧ R s' t := by
  obtain ⟨t, start, related⟩ := sim.init s initial
  obtain ⟨es', t', ran', final⟩ := sim.run related meets ran
  exact ⟨t', .run (.init start) ran', final⟩

/-- Two runs with the same visible events: steps that are matched one by one, up to
invisible ones, are matched along a run. -/
theorem run_follows {n : Machine τ ε} {visible : ε → Bool} {allowed : ε → Prop}
    (follow : ∀ s e s' t, R s t → allowed e → m.step s e = some s' →
      ∃ es t', n.run t es = some t' ∧ R s' t' ∧ es.filter visible = [e].filter visible)
    {s s' : σ} {t : τ} {es : List ε} (related : R s t) (all : ∀ e ∈ es, allowed e)
    (ran : m.run s es = some s') :
    ∃ es' t', n.run t es' = some t' ∧ R s' t' ∧ es'.filter visible = es.filter visible := by
  induction es generalizing s t with
  | nil =>
      cases ran
      exact ⟨[], t, rfl, related, rfl⟩
  | cons e es ih =>
      obtain ⟨u, stepped, rest⟩ := run_cons.1 ran
      obtain ⟨first, v, ran', related', same⟩ :=
        follow s e u t related (all e List.mem_cons_self) stepped
      obtain ⟨later, t', ran'', final, same'⟩ :=
        ih related' (fun e' member => all e' (List.mem_cons_of_mem _ member)) rest
      refine ⟨first ++ later, t', run_trans ran' ran'', final, ?_⟩
      rw [List.filter_append, same, same', ← List.filter_append, List.singleton_append]

end Machine

end Tether.Lib
