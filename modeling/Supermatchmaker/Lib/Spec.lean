import Supermatchmaker.Lib.Lts

/-!
# Sequential specifications

A specification is a relation `step : σ → α → σ → Prop`: in which states an
action is allowed, and what it leaves behind. Its actions are what an observer
sees, each happens at once, and `Trace step s as t` says that the history `as`
is allowed and leads from `s` to `t`.

An implementation is a transition system (`Lts`) in which the same actions take
many steps that interleave. `Lts.Run.refines` is the rule that connects the two:
if every step of the implementation, seen through an abstraction function, is a
history of the specification over what the step shows, then whatever a run shows
is a history too. A step that shows nothing must leave the abstraction alone.

What is known of all histories (`Trace.inv`) then holds of what any run of the
implementation shows, and a fact about a moment of a history is read off the
state the specification was in then (`Trace.moment`).
-/

universe u v u' v'

namespace Spec

variable {σ : Type u} {α : Type v} {step : σ → α → σ → Prop} {s t u : σ}

/-- The history `as` leads from `s` to `t`. -/
inductive Trace (step : σ → α → σ → Prop) (s : σ) : List α → σ → Prop
  | nil : Trace step s [] s
  | snoc {as : List α} {t u : σ} {a : α} :
      Trace step s as t → step t a u → Trace step s (as ++ [a]) u

theorem Trace.single {a : α} (h : step s a t) : Trace step s [a] t := by
  have hsnoc : Trace step s ([] ++ [a]) t := .snoc .nil h
  exact hsnoc

theorem Trace.append {as bs : List α} (hs : Trace step s as t) (ht : Trace step t bs u) :
    Trace step s (as ++ bs) u := by
  induction ht with
  | nil =>
    rw [List.append_nil]
    exact hs
  | snoc _ hstep ih =>
    rw [← List.append_assoc]
    exact ih.snoc hstep

/-- **Invariant rule**: what each action preserves holds after the history, of the state
and of the history that led there. -/
theorem Trace.inv {I : List α → σ → Prop} {as : List α}
    (hstep : ∀ {as a t u}, I as t → step t a u → I (as ++ [a]) u)
    (h : Trace step s as t) (h0 : I [] s) : I as t := by
  induction h with
  | nil => exact h0
  | snoc _ hs ih => exact hstep ih hs

/-- A history can be stopped anywhere. -/
theorem Trace.split {as bs : List α} (h : Trace step s (as ++ bs) u) :
    ∃ t, Trace step s as t ∧ Trace step t bs u := by
  generalize hcs : as ++ bs = cs at h
  induction h generalizing bs with
  | nil =>
    obtain ⟨rfl, rfl⟩ := List.append_eq_nil_iff.mp hcs
    exact ⟨s, .nil, .nil⟩
  | @snoc cs t u a hs hstep ih =>
    rcases List.eq_nil_or_concat bs with rfl | ⟨bs, b, rfl⟩
    · rw [List.append_nil] at hcs
      subst hcs
      exact ⟨u, hs.snoc hstep, .nil⟩
    · rw [List.concat_eq_append, ← List.append_assoc] at hcs
      obtain ⟨hfront, hlast⟩ := List.append_inj' hcs rfl
      obtain ⟨r, hr, hrest⟩ := ih hfront
      rw [List.concat_eq_append, List.singleton_inj.mp hlast]
      exact ⟨r, hr, hrest.snoc hstep⟩

/-- The state in which an action of a history took place. -/
theorem Trace.moment {pre post : List α} {a : α} (h : Trace step s (pre ++ a :: post) u) :
    ∃ r t, Trace step s pre r ∧ step r a t ∧ Trace step t post u := by
  rw [List.append_cons] at h
  obtain ⟨t, hpre, hpost⟩ := h.split
  generalize hcs : pre ++ [a] = cs at hpre
  cases hpre with
  | nil => simp at hcs
  | snoc hr hstep =>
    obtain ⟨rfl, hlast⟩ := List.append_inj' hcs rfl
    rw [← List.singleton_inj.mp hlast] at hstep
    exact ⟨_, t, hr, hstep, hpost⟩

/-- **Simulation rule**: what a history does here it does in another specification too, if
each of its actions does. -/
theorem Trace.simulates {σ' : Type u'} {step' : σ' → α → σ' → Prop} {R : σ → σ' → Prop}
    {P : α → Prop} {as : List α} {s' : σ'}
    (hsim : ∀ {a t u t'}, P a → step t a u → R t t' → ∃ u', step' t' a u' ∧ R u u')
    (h : Trace step s as t) (hP : ∀ a ∈ as, P a) (hR : R s s') :
    ∃ t', Trace step' s' as t' ∧ R t t' := by
  induction h with
  | nil => exact ⟨s', .nil, hR⟩
  | snoc _ hs ih =>
    obtain ⟨t', htrace, ht⟩ := ih fun a ha => hP a (List.mem_append_left _ ha)
    obtain ⟨u', hstep, hu⟩ :=
      hsim (hP _ (List.mem_append_right _ (List.mem_singleton_self _))) hs ht
    exact ⟨u', htrace.snoc hstep, hu⟩

end Spec

namespace Lts

open Spec

variable {σ : Type u} {ε : Type v} {σ' : Type u'} {α : Type v'}

/-- **Refinement rule**: if every step of an implementation is a history of the
specification over what it shows, so is every run over what was recorded. The
invariant `I` is what the refinement may assume of the states it starts from. -/
theorem Run.refines {step : σ → ε → Option σ} {shows : σ → ε → σ → List α} {P : σ → ε → Prop}
    {spec : σ' → α → σ' → Prop} {I : σ → Prop} (abs : σ → σ') {s t : σ} {log : List α}
    (hI : ∀ {a e b}, I a → P a e → step a e = some b → I b)
    (hsim : ∀ {a e b}, I a → P a e → step a e = some b →
      Trace spec (abs a) (shows a e b) (abs b))
    (h : Run (record step shows) (fun x e => P x.1 e) (s, []) (t, log)) (h0 : I s) :
    Trace spec (abs s) log (abs t) := by
  have hboth : I t ∧ Trace spec (abs s) log (abs t) :=
    h.inv (I := fun x => I x.1 ∧ Trace spec (abs s) x.2 (abs x.1))
      (fun {a e b} ⟨ha, htrace⟩ hP hs => by
        obtain ⟨hstep, hlog⟩ := record_eq_some.mp hs
        rw [hlog]
        exact ⟨hI ha hP hstep, htrace.append (hsim ha hP hstep)⟩)
      ⟨h0, .nil⟩
  exact hboth.2

end Lts
