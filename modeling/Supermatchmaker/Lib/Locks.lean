import Mathlib.Logic.Function.Basic
import Mathlib.Logic.Relation
import Supermatchmaker.Lib.Lts

/-!
# Code that takes locks

Threads run code over data, each datum behind a lock of its own. `Code` is that
code between two points at which a thread holds nothing: what it locks, tries to
lock, does through a guard, and where each guard goes out of scope. The threads
run interleaved, one request, access or release at a time (`step`); a thread that
has come to the end of its code goes on with any other that it may (`Follows`).

`Guarded` is a triple: code that is begun with one guard, or none, never asks for
a lock while it holds a guard, uses only the guard it holds, and ends with one
guard, or none. It composes along `bind` and blocks (`Guarded.bind`,
`withLock_guarded`), so it is checked along the text of the code, early returns and
loops included. Where all code is guarded no thread ever asks for a lock while it
holds one (`Orderly.not_holding`), so that nobody waits for a thread that waits
(`Orderly.acyclic`), and whoever holds a lock gives it up in a number of own steps
(`Orderly.exists_released`).
-/

namespace Locks

universe u v w x y

variable {ι : Type u} {κ : Type v} {V : Type w} {α : Type x} {β : Type y} {γ : Type y}

/-! ## Code -/

/-- Code that takes locks, works on the data behind them through the guard, and returns. -/
inductive Code (κ : Type v) (V : Type w) (α : Type x)
  | ret (a : α)
  /-- wait until the lock is free, take it -/
  | lock (k : κ) (held : Code κ V α)
  /-- take the lock if it is free -/
  | tryLock (k : κ) (held busy : Code κ V α)
  /-- through the guard: read the datum and replace it -/
  | access (k : κ) (put : V → V) (rest : V → Code κ V α)
  /-- the guard goes out of scope -/
  | drop (k : κ) (rest : Code κ V α)

namespace Code

/-- One piece of code after the other. -/
def bind : Code κ V α → (α → Code κ V β) → Code κ V β
  | ret a, f => f a
  | lock k held, f => lock k (held.bind f)
  | tryLock k held busy, f => tryLock k (held.bind f) (busy.bind f)
  | access k put rest, f => access k put fun v => (rest v).bind f
  | drop k rest, f => drop k (rest.bind f)

@[simp] theorem ret_bind (a : α) (f : α → Code κ V β) : (ret a).bind f = f a := rfl

theorem bind_assoc (p : Code κ V α) {f : α → Code κ V β} {g : β → Code κ V γ} :
    (p.bind f).bind g = p.bind fun a => (f a).bind g := by
  induction p with
  | ret a => rfl
  | lock k held ih => exact congrArg (lock k) ih
  | tryLock k held busy ih ih' => exact congrArg₂ (tryLock k) ih ih'
  | access k put rest ih => exact congrArg (access k put) (funext ih)
  | drop k rest ih => exact congrArg (drop k) ih

/-- The datum, seen through the guard. -/
def read (k : κ) (f : V → α) : Code κ V α := access k id fun v => ret (f v)

/-- The rest of a block that has bound the guard of `k`, which dies with the block. -/
def inScope (k : κ) (body : Code κ V α) : Code κ V α := body.bind fun a => drop k (ret a)

/-- A block that locks `k`. -/
def withLock (k : κ) (body : Code κ V α) : Code κ V α := lock k (body.inScope k)

/-- The lock that the code asks for next. -/
def requests : Code κ V α → Option κ
  | lock k _ => some k
  | tryLock k _ _ => some k
  | _ => none

/-- The lock that the code waits for if it is taken. -/
def awaits : Code κ V α → Option κ
  | lock k _ => some k
  | _ => none

/-- The code asks for `k` and goes on with `held` when it gets it. -/
def Takes (p : Code κ V α) (k : κ) (held : Code κ V α) : Prop :=
  p = lock k held ∨ ∃ busy, p = tryLock k held busy

/-! ## The discipline -/

/-- Begun with the guard `h`, the code asks for locks only while it holds none, uses
only the guard it holds, and ends with `h'`. -/
def Guarded : Code κ V α → Option κ → Option κ → Prop
  | ret _, h, h' => h = h'
  | lock k held, h, h' => h = none ∧ held.Guarded (some k) h'
  | tryLock k held busy, h, h' => h = none ∧ held.Guarded (some k) h' ∧ busy.Guarded none h'
  | access k _ rest, h, h' => h = some k ∧ ∀ v, (rest v).Guarded h h'
  | drop k rest, h, h' => h = some k ∧ rest.Guarded none h'

/-- **Sequence**. -/
theorem Guarded.bind {p : Code κ V α} {f : α → Code κ V β} {h h' h'' : Option κ}
    (hp : p.Guarded h h') (hf : ∀ a, (f a).Guarded h' h'') : (p.bind f).Guarded h h'' := by
  induction p generalizing h with
  | ret a =>
    have heq : h = h' := hp
    rw [heq]
    exact hf a
  | lock k held ih => exact ⟨hp.1, ih hp.2⟩
  | tryLock k held busy ih ih' => exact ⟨hp.1, ih hp.2.1, ih' hp.2.2⟩
  | access k put rest ih => exact ⟨hp.1, fun v => ih v (hp.2 v)⟩
  | drop k rest ih => exact ⟨hp.1, ih hp.2⟩

/-- **Block**: the guard that a block begins with is gone at its end. -/
theorem inScope_guarded {k : κ} {body : Code κ V α} (h : body.Guarded (some k) (some k)) :
    (body.inScope k).Guarded (some k) none :=
  h.bind fun _ => ⟨rfl, rfl⟩

/-- A block takes its lock and gives it back. -/
theorem withLock_guarded {k : κ} {body : Code κ V α} (h : body.Guarded (some k) (some k)) :
    (withLock k body).Guarded none none :=
  ⟨rfl, inScope_guarded h⟩

theorem read_guarded (k : κ) (f : V → α) : (read k f : Code κ V α).Guarded (some k) (some k) :=
  ⟨rfl, fun _ => rfl⟩

end Code

/-! ## Threads -/

/-- The data behind the locks, who holds each lock, and what each thread has still to run. -/
structure State (ι : Type u) (κ : Type v) (V : Type w) (α : Type x) where
  store : κ → V
  owner : κ → Option ι
  code : ι → Code κ V α

/-- One thread takes a step or goes on. -/
inductive Event (ι : Type u) (κ : Type v) (V : Type w) (α : Type x)
  /-- the next step of a thread's code -/
  | move (t : ι)
  /-- a thread at the end of its code goes on with other code -/
  | resume (t : ι) (p : Code κ V α)

namespace State

section Meaning

variable (s : State ι κ V α)

/-- `t` waits for a lock that `u` holds. -/
def WaitsFor (t u : ι) : Prop := ∃ k, (s.code t).awaits = some k ∧ s.owner k = some u

/-- Each thread is in guarded code and holds the one lock its code has, or none. -/
def Orderly : Prop :=
  ∀ t, ∃ h : Option κ, (s.code t).Guarded h none ∧ ∀ k, s.owner k = some t ↔ h = some k

variable {s}

/-- **A thread that asks for a lock holds none.** -/
theorem Orderly.not_holding (ho : s.Orderly) {t : ι} {k : κ}
    (hask : (s.code t).requests = some k) (k' : κ) : s.owner k' ≠ some t := by
  intro hholds
  obtain ⟨h, hguarded, hown⟩ := ho t
  have hh : h = some k' := (hown k').mp hholds
  cases hcode : s.code t with
  | lock | tryLock =>
    rw [hcode] at hguarded
    rw [hguarded.1] at hh
    cases hh
  | ret | access | drop =>
    rw [hcode] at hask
    cases hask

theorem requests_of_awaits {p : Code κ V α} {k : κ} (h : p.awaits = some k) :
    p.requests = some k := by
  cases p with
  | lock => exact h
  | _ => cases h

/-- Nobody waits for a thread that waits. -/
theorem Orderly.not_waitsFor (ho : s.Orderly) {t u v : ι} (htu : s.WaitsFor t u) :
    ¬ s.WaitsFor u v := by
  intro huv
  obtain ⟨k, _, hholds⟩ := htu
  obtain ⟨k', hawaits, _⟩ := huv
  exact ho.not_holding (requests_of_awaits hawaits) k hholds

/-- **No deadlock**: the wait-for graph has no cycle. -/
theorem Orderly.acyclic (ho : s.Orderly) (t : ι) : ¬ Relation.TransGen s.WaitsFor t t := by
  intro hcycle
  obtain ⟨u, htu, _⟩ := Relation.TransGen.head'_iff.mp hcycle
  obtain ⟨v, _, hvt⟩ := Relation.TransGen.tail'_iff.mp hcycle
  exact ho.not_waitsFor hvt htu

/-- What a thread does leaves the others in order if it touches no code but its own
and, of the locks, only its own and free ones. -/
theorem Orderly.update [DecidableEq ι] {s' : State ι κ V α} (ho : s.Orderly) {t : ι}
    {h : Option κ} {p : Code κ V α} (hcode : s'.code = Function.update s.code t p)
    (hguarded : p.Guarded h none)
    (howner : ∀ k u, u ≠ t → (s'.owner k = some u ↔ s.owner k = some u))
    (hown : ∀ k, s'.owner k = some t ↔ h = some k) : s'.Orderly := by
  intro u
  rw [hcode]
  by_cases hu : u = t
  · subst hu
    rw [Function.update_self]
    exact ⟨h, hguarded, hown⟩
  · obtain ⟨h', hguarded', hown'⟩ := ho u
    rw [Function.update_of_ne hu]
    exact ⟨h', hguarded', fun k => (howner k u hu).trans (hown' k)⟩

end Meaning

/-! ## Runs -/

/-- Threads at the end of their code go on with code that `goes` allows. -/
def Follows (goes : ι → α → Code κ V α → Prop) (s : State ι κ V α) : Event ι κ V α → Prop
  | .move _ => True
  | .resume t p => ∀ a, s.code t = .ret a → goes t a p

/-- The steps of one thread. -/
def Moves (t : ι) (_ : State ι κ V α) (e : Event ι κ V α) : Prop := e = .move t

/-- A move of one thread is allowed whatever code it may go on with. -/
theorem follows_of_moves {s : State ι κ V α} {goes : ι → α → Code κ V α → Prop} {t : ι}
    {e : Event ι κ V α} (h : Moves t s e) : s.Follows goes e := by
  cases (h : e = .move t)
  trivial

section Code

variable [DecidableEq ι] (s : State ι κ V α)

/-- The rest of one thread's code. -/
def setCode (t : ι) (p : Code κ V α) : State ι κ V α :=
  { s with code := Function.update s.code t p }

@[simp] theorem setCode_code (t : ι) (p : Code κ V α) : (s.setCode t p).code t = p :=
  Function.update_self ..

theorem setCode_code_of_ne {t u : ι} (h : u ≠ t) (p : Code κ V α) :
    (s.setCode t p).code u = s.code u :=
  Function.update_of_ne h ..

theorem setCode_comm {t u : ι} (h : t ≠ u) (p q : Code κ V α) :
    (s.setCode t p).setCode u q = (s.setCode u q).setCode t p := by
  simp only [setCode, Function.update_comm h]

@[simp] theorem setCode_setCode (t : ι) (p q : Code κ V α) :
    (s.setCode t p).setCode t q = s.setCode t q := by
  simp only [setCode, Function.update_idem]

theorem setCode_self {t : ι} {p : Code κ V α} (h : s.code t = p) : s.setCode t p = s := by
  simp only [setCode, ← h, Function.update_eq_self]

end Code

section Store

variable [DecidableEq κ] (s : State ι κ V α)

/-- The lock `k` goes to the thread, or is free again. -/
def setOwner (k : κ) (o : Option ι) : State ι κ V α :=
  { s with owner := Function.update s.owner k o }

/-- The datum behind one lock. -/
def setStore (k : κ) (v : V) : State ι κ V α := { s with store := Function.update s.store k v }

@[simp] theorem setStore_self (k : κ) : s.setStore k (s.store k) = s := by
  simp only [setStore, Function.update_eq_self]

end Store

variable [DecidableEq ι] [DecidableEq κ] (s : State ι κ V α)

theorem setOwner_setCode (t : ι) (p : Code κ V α) (k : κ) (o : Option ι) :
    (s.setCode t p).setOwner k o = (s.setOwner k o).setCode t p :=
  rfl

theorem setStore_setCode (t : ι) (p : Code κ V α) (k : κ) (v : V) :
    (s.setCode t p).setStore k v = (s.setStore k v).setCode t p :=
  rfl

/-- The next instruction of a thread; none if it has ended, waits, or touches a lock it does not
hold. -/
def move (t : ι) : Option (State ι κ V α) :=
  match s.code t with
  | .ret _ => none
  | .lock k held =>
    if s.owner k = none then some ((s.setOwner k (some t)).setCode t held) else none
  | .tryLock k held busy =>
    if s.owner k = none then some ((s.setOwner k (some t)).setCode t held)
    else some (s.setCode t busy)
  | .access k put rest =>
    if s.owner k = some t then
      some ((s.setStore k (put (s.store k))).setCode t (rest (s.store k)))
    else none
  | .drop k rest =>
    if s.owner k = some t then some ((s.setOwner k none).setCode t rest) else none

/-- One event. Only a thread at its end goes on with other code. -/
def step : Event ι κ V α → Option (State ι κ V α)
  | .move t => s.move t
  | .resume t p =>
    match s.code t with
    | .ret _ => some (s.setCode t p)
    | _ => none

section Rules

variable {s} {s' : State ι κ V α} {goes : ι → α → Code κ V α → Prop}

/-- The thread takes a free lock. -/
theorem Orderly.take (ho : s.Orderly) {t : ι} {k : κ} {p : Code κ V α}
    (hguarded : p.Guarded (some k) none) (hfree : s.owner k = none)
    (hnone : ∀ k, s.owner k ≠ some t) : ((s.setOwner k (some t)).setCode t p).Orderly := by
  refine ho.update rfl hguarded (fun k' u hu => ?_) fun k' => ?_
  · show Function.update s.owner k (some t) k' = some u ↔ _
    by_cases hk : k' = k
    · subst hk
      rw [Function.update_self, hfree, Option.some.injEq]
      exact ⟨fun htu => absurd htu.symm hu, nofun⟩
    · rw [Function.update_of_ne hk]
  · show Function.update s.owner k (some t) k' = some t ↔ _
    by_cases hk : k' = k
    · subst hk
      rw [Function.update_self]
      exact ⟨fun _ => rfl, fun _ => rfl⟩
    · rw [Function.update_of_ne hk, Option.some.injEq]
      exact ⟨fun howns => absurd howns (hnone k'), fun heq => absurd heq.symm hk⟩

/-- The thread gives up its lock. -/
theorem Orderly.release (ho : s.Orderly) {t : ι} {k : κ} {p : Code κ V α}
    (hguarded : p.Guarded none none) (hown : ∀ k', s.owner k' = some t ↔ some k = some k') :
    ((s.setOwner k none).setCode t p).Orderly := by
  refine ho.update rfl hguarded (fun k' u hu => ?_) fun k' => ?_
  · show Function.update s.owner k none k' = some u ↔ _
    by_cases hk : k' = k
    · subst hk
      rw [Function.update_self, (hown k').mpr rfl, Option.some.injEq]
      exact ⟨nofun, fun htu => absurd htu.symm hu⟩
    · rw [Function.update_of_ne hk]
  · show Function.update s.owner k none k' = some t ↔ _
    by_cases hk : k' = k
    · subst hk
      rw [Function.update_self]
      exact ⟨nofun, nofun⟩
    · rw [Function.update_of_ne hk, hown k', Option.some.injEq]
      exact ⟨fun heq => absurd heq.symm hk, nofun⟩

/-- **Step**: order is kept. -/
theorem step_orderly (hgoes : ∀ t a p, goes t a p → p.Guarded none none) (ho : s.Orderly)
    {e : Event ι κ V α} (hfollow : s.Follows goes e) (hstep : s.step e = some s') :
    s'.Orderly := by
  cases e with
  | resume t p =>
    obtain ⟨h, hguarded, hown⟩ := ho t
    simp only [step] at hstep
    split at hstep
    next a hcode =>
      simp only [Option.some.injEq] at hstep
      subst hstep
      rw [hcode] at hguarded
      have hnone : h = none := hguarded
      rw [hnone] at hown
      exact ho.update rfl (hgoes t a p (hfollow a hcode)) (fun _ _ _ => Iff.rfl) hown
    next => cases hstep
  | move t =>
    obtain ⟨h, hguarded, hown⟩ := ho t
    simp only [step, move] at hstep
    split at hstep
    next => cases hstep
    next k held hcode =>
      rw [hcode] at hguarded
      obtain ⟨rfl, hheld⟩ := hguarded
      split at hstep
      next hfree =>
        simp only [Option.some.injEq] at hstep
        subst hstep
        exact ho.take hheld hfree fun k' hk' => nomatch (hown k').mp hk'
      next => cases hstep
    next k held busy hcode =>
      rw [hcode] at hguarded
      obtain ⟨rfl, hheld, hbusy⟩ := hguarded
      split at hstep
      next hfree =>
        simp only [Option.some.injEq] at hstep
        subst hstep
        exact ho.take hheld hfree fun k' hk' => nomatch (hown k').mp hk'
      next =>
        simp only [Option.some.injEq] at hstep
        subst hstep
        exact ho.update rfl hbusy (fun _ _ _ => Iff.rfl) hown
    next k put rest hcode =>
      rw [hcode] at hguarded
      split at hstep
      next =>
        simp only [Option.some.injEq] at hstep
        subst hstep
        exact ho.update rfl (hguarded.2 _) (fun _ _ _ => Iff.rfl) hown
      next => cases hstep
    next k rest hcode =>
      rw [hcode] at hguarded
      obtain ⟨rfl, hrest⟩ := hguarded
      split at hstep
      next =>
        simp only [Option.some.injEq] at hstep
        subst hstep
        exact ho.release hrest hown
      next => cases hstep

/-- **Run**: where the threads go on with guarded code only, order is kept. -/
theorem run_orderly (hgoes : ∀ t a p, goes t a p → p.Guarded none none) (ho : s.Orderly)
    (h : Lts.Run step (Follows goes) s s') : s'.Orderly :=
  h.inv (fun hI hfollow hs => step_orderly hgoes hI hfollow hs) ho

/-- **A lock is given up**: whoever holds one can go on, alone, until it is free. -/
theorem Orderly.exists_released (ho : s.Orderly) {t : ι} {k : κ} (hholds : s.owner k = some t) :
    ∃ s', Lts.Run step (Moves t) s s' ∧ s'.owner k = none := by
  obtain ⟨h, hguarded, hown⟩ := ho t
  have hh : h = some k := (hown k).mp hholds
  subst hh
  clear hown ho
  -- by induction on the code the thread has before it
  induction hp : s.code t generalizing s with
  | ret a =>
    rw [hp] at hguarded
    cases hguarded
  | lock | tryLock =>
    rw [hp] at hguarded
    cases hguarded.1
  | access k' put rest ih =>
    rw [hp] at hguarded
    obtain ⟨hk, hrest⟩ := hguarded
    cases hk
    have hstep : s.step (.move t)
        = some ((s.setStore k (put (s.store k))).setCode t (rest (s.store k))) := by
      simp only [step, move, hp, if_pos hholds]
    have hcode : ((s.setStore k (put (s.store k))).setCode t (rest (s.store k))).code t
        = rest (s.store k) := setCode_code ..
    have hone : Lts.Run step (Moves t) s _ := .single rfl hstep
    obtain ⟨s', hrun, hfree⟩ := ih (s.store k)
      (s := (s.setStore k (put (s.store k))).setCode t (rest (s.store k))) hholds
      (by rw [hcode]; exact hrest _) hcode
    exact ⟨s', hone.trans hrun, hfree⟩
  | drop k' rest =>
    rw [hp] at hguarded
    obtain ⟨hk, _⟩ := hguarded
    cases hk
    have hstep : s.step (.move t) = some ((s.setOwner k none).setCode t rest) := by
      simp only [step, move, hp, if_pos hholds]
    exact ⟨_, .single rfl hstep, Function.update_self ..⟩

/-- A free lock is taken at once. -/
theorem step_take {t : ι} {k : κ} {p : Code κ V α} (hcode : (s.code t).Takes k p)
    (hfree : s.owner k = none) :
    s.step (.move t) = some ((s.setOwner k (some t)).setCode t p) := by
  rcases hcode with hcode | ⟨busy, hcode⟩ <;> simp only [step, move, hcode, if_pos hfree]

/-- A `tryLock` on a lock that is taken fails. -/
theorem step_busy {t : ι} {k : κ} {held busy : Code κ V α}
    (hcode : s.code t = .tryLock k held busy) (htaken : s.owner k ≠ none) :
    s.step (.move t) = some (s.setCode t busy) := by
  simp only [step, move, hcode, if_neg htaken]

/-- The rest of a critical section, the lock `k` being held. -/
theorem run_held {t : ι} {k : κ} {f : V → V} {g : V → Code κ V α}
    (hfree : s.owner k = none) :
    Lts.Run step (Moves t)
      ((s.setOwner k (some t)).setCode t (.access k f fun v => .drop k (g v)))
      ((s.setStore k (f (s.store k))).setCode t (g (s.store k))) := by
  have haccess : ((s.setOwner k (some t)).setCode t
      (.access k f fun v => .drop k (g v))).step (.move t)
      = some (((s.setOwner k (some t)).setStore k (f (s.store k))).setCode t
        (.drop k (g (s.store k)))) := by
    simp only [step, move, setCode, setOwner, setStore, Function.update_self, Function.update_idem,
      if_pos]
  have hdrop : (((s.setOwner k (some t)).setStore k (f (s.store k))).setCode t
        (.drop k (g (s.store k)))).step (.move t)
      = some ((s.setStore k (f (s.store k))).setCode t (g (s.store k))) := by
    have hback : Function.update s.owner k none = s.owner := by
      rw [← hfree, Function.update_eq_self]
    simp only [step, move, setCode, setOwner, setStore, Function.update_self, Function.update_idem,
      if_pos, hback]
  exact .tail (.single rfl haccess) rfl hdrop

/-- **A critical section** on a free lock, from the request to the release. -/
theorem run_section {t : ι} {k : κ} {f : V → V} {g : V → Code κ V α}
    (hcode : (s.code t).Takes k (.access k f fun v => .drop k (g v)))
    (hfree : s.owner k = none) :
    Lts.Run step (Moves t) s ((s.setStore k (f (s.store k))).setCode t (g (s.store k))) := by
  have hone : Lts.Run step (Moves t) s _ := .single rfl (step_take hcode hfree)
  exact hone.trans (run_held hfree)

end Rules

end State

end Locks
