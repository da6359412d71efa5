/-!
# Runs of a labelled transition system

A system is a partial step function `step : σ → ε → Option σ`: all the
nondeterminism (the scheduler, the outcome of a network call, the clock) sits
in the event `ε`, so a run is determined by its events and can be executed.

`Run step P s t` is the reachability relation of the runs *whose every step
satisfies the guard `P`*: a guard speaks about the state before the step and
about the event, never about what comes later. Three rules carry everything
that is proved with it:

- `Run.inv`: what one guarded step preserves, a whole guarded run preserves;
- `Run.mono`: a weaker guard admits more runs;
- `Run.map`: a run is carried along a map of states that sends each step to a
  (possibly empty) run of another system: simulation.

`Run.exists_of_decreasing` is the rule for termination.

`exec` runs a list of events, and `run_of_exec` turns its result into a `Run`,
which is how a concrete run is exhibited.

`record` puts a log beside the state, for properties of what happened on the way
and not only of where the run is. The log is a ghost: it enables no step and
disables none (`record_eq_some`).
-/

namespace Lts

universe u v u' v' w

variable {σ : Type u} {ε : Type v} {σ' : Type u'} {ε' : Type v'}

/-- `t` is reached from `s` by steps that all satisfy the guard `P`. -/
inductive Run (step : σ → ε → Option σ) (P : σ → ε → Prop) (s : σ) : σ → Prop
  | refl : Run step P s s
  | tail {t u : σ} {e : ε} : Run step P s t → P t e → step t e = some u → Run step P s u

/-- The guard of the unrestricted runs. -/
def Free : σ → ε → Prop := fun _ _ => True

section Rules

variable {step : σ → ε → Option σ} {P Q : σ → ε → Prop} {s t u : σ}

/-- **Invariant rule**: what every guarded step preserves holds after the run. -/
theorem Run.inv {I : σ → Prop}
    (hstep : ∀ {a e b}, I a → P a e → step a e = some b → I b)
    (h : Run step P s t) (h0 : I s) : I t := by
  induction h with
  | refl => exact h0
  | tail _ hP hs ih => exact hstep ih hP hs

/-- A stronger guard allows fewer runs. -/
theorem Run.mono (hPQ : ∀ {a e}, P a e → Q a e) (h : Run step P s t) :
    Run step Q s t := by
  induction h with
  | refl => exact .refl
  | tail _ hP hs ih => exact .tail ih (hPQ hP) hs

/-- Every guarded run is a run. -/
theorem Run.free (h : Run step P s t) : Run step Free s t :=
  h.mono fun _ => trivial

theorem Run.single {e : ε} (hP : P s e) (hs : step s e = some t) : Run step P s t :=
  .tail .refl hP hs

theorem Run.trans (h₁ : Run step P s t) (h₂ : Run step P t u) : Run step P s u := by
  induction h₂ with
  | refl => exact h₁
  | tail _ hP hs ih => exact .tail ih hP hs

/-- A run is empty, or begins with a step. -/
theorem Run.cases_head (h : Run step P s t) :
    s = t ∨ ∃ e u, P s e ∧ step s e = some u ∧ Run step P u t := by
  induction h with
  | refl => exact Or.inl rfl
  | @tail r t e _ hP hs ih =>
    right
    rcases ih with rfl | ⟨e', u, hP', hs', hrest⟩
    · exact ⟨e, t, hP, hs, .refl⟩
    · exact ⟨e', u, hP', hs', .tail hrest hP hs⟩

/-- Where no state has two successors, one of two runs goes on from the other. -/
theorem Run.linear (hdet : ∀ {a e e' b b'}, step a e = some b → step a e' = some b' → b = b')
    (ht : Run step P s t) (hu : Run step P s u) : Run step P t u ∨ Run step P u t := by
  induction ht with
  | refl => exact Or.inl hu
  | @tail r t e _ hP hs ih =>
    rcases ih with hru | hur
    · rcases hru.cases_head with rfl | ⟨e', x, _, hs', hrest⟩
      · exact Or.inr (.single hP hs)
      · rw [hdet hs hs']
        exact Or.inl hrest
    · exact Or.inr (.tail hur hP hs)

/-- **Termination rule**: where a step is enabled that lowers a measure, until the run
is over, some run gets there. -/
theorem Run.exists_of_decreasing {I done : σ → Prop} (μ : σ → Nat)
    (hstep : ∀ {a}, I a → ¬ done a → ∃ e b, P a e ∧ step a e = some b ∧ I b ∧ μ b < μ a)
    (h0 : I s) : ∃ t, Run step P s t ∧ I t ∧ done t := by
  induction hn : μ s using Nat.strongRecOn generalizing s with
  | ind n ih =>
    by_cases hdone : done s
    · exact ⟨s, .refl, h0, hdone⟩
    · obtain ⟨e, b, hP, hs, hb, hlt⟩ := hstep h0 hdone
      obtain ⟨t, hrun, ht⟩ := ih (μ b) (hn ▸ hlt) hb rfl
      have hone : Run step P s b := .single hP hs
      exact ⟨t, hone.trans hrun, ht⟩

/-- **Simulation rule**: if every guarded step maps to a run of the other
system, so does every guarded run. The invariant `I` is what the simulation may
assume of the states it starts from. -/
theorem Run.map {step' : σ' → ε' → Option σ'} {P' : σ' → ε' → Prop} {I : σ → Prop}
    (f : σ → σ')
    (hI : ∀ {a e b}, I a → P a e → step a e = some b → I b)
    (hf : ∀ {a e b}, I a → P a e → step a e = some b → Run step' P' (f a) (f b))
    (h : Run step P s t) (h0 : I s) : Run step' P' (f s) (f t) := by
  induction h with
  | refl => exact .refl
  | tail hr hP hs ih => exact ih.trans (hf (hr.inv hI h0) hP hs)

end Rules

/-! ## Executing a list of events -/

/-- Run the events in turn; `none` as soon as a step is not enabled or is ruled
out by the (decidable) guard. -/
def exec (step : σ → ε → Option σ) (p : σ → ε → Bool) : σ → List ε → Option σ
  | s, [] => some s
  | s, e :: es => if p s e then (step s e).bind (exec step p · es) else none

/-- What `exec` computes is a run under its test. -/
theorem run_of_exec {step : σ → ε → Option σ} {p : σ → ε → Bool} :
    ∀ {es : List ε} {s t : σ}, exec step p s es = some t →
      Run step (fun a e => p a e = true) s t
  | [], s, t, h => by
    simp only [exec, Option.some.injEq] at h
    subst h
    exact .refl
  | e :: es, s, t, h => by
    rw [exec] at h
    split at h
    next hp =>
      obtain ⟨u, hu, hrest⟩ := Option.bind_eq_some_iff.mp h
      have hone : Run step (fun a e => p a e = true) s u := .single hp hu
      exact hone.trans (run_of_exec hrest)
    next => cases h

/-- A concrete run whose last state passes the test `q`. -/
theorem exists_run_of_exec {step : σ → ε → Option σ} {p : σ → ε → Bool} {q : σ → Bool}
    {s : σ} {es : List ε} (h : (exec step p s es).any q = true) :
    ∃ t, Run step (fun a e => p a e = true) s t ∧ q t = true := by
  cases hx : exec step p s es with
  | none => rw [hx] at h; cases h
  | some t => rw [hx] at h; exact ⟨t, run_of_exec hx, h⟩

/-! ## Recording -/

section Recording

variable {α : Type w} {step : σ → ε → Option σ} {note : σ → ε → σ → List α}

/-- The system with a log to which each step adds its notes. -/
def record (step : σ → ε → Option σ) (note : σ → ε → σ → List α) (s : σ × List α) (e : ε) :
    Option (σ × List α) :=
  (step s.1 e).map fun t => (t, s.2 ++ note s.1 e t)

/-- A recorded step is a step, with its notes at the end of the record. -/
theorem record_eq_some {s t : σ × List α} {e : ε} :
    record step note s e = some t ↔ step s.1 e = some t.1 ∧ t.2 = s.2 ++ note s.1 e t.1 := by
  unfold record
  rw [Option.map_eq_some_iff]
  constructor
  · rintro ⟨u, hu, rfl⟩
    exact ⟨hu, rfl⟩
  · rintro ⟨hstep, hlog⟩
    exact ⟨t.1, hstep, by rw [← hlog]⟩

end Recording

end Lts
