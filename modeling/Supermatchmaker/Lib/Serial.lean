import Mathlib.Data.List.Basic
import Mathlib.Logic.Function.Basic
import Supermatchmaker.Lib.Lts

/-!
# Concurrent calls on locked locations

A number of calls run at the same time over a store of locations, each behind a
lock of its own. A call is a deterministic program `prog : κ → Act β V κ` over
its local variables `κ`; between two critical sections anything may happen to
the store. One step is one critical section, or a computation on local variables
only.

Two accesses conflict when they are to the same location and one of them writes.
`serializable` is the theorem such systems are judged by: if some order of the
calls agrees with the order of all conflicting accesses, the run does to store
and calls what the calls do one after another in that order
(`Turns`). Its proof moves each access to its place in the order, past accesses
it does not conflict with (`Act.swap`, `Trace.push`).
-/

namespace Lts

universe u v w

/-- The calls of the list run one after another, each to its end. -/
inductive Turns {σ : Type u} {ε : Type v} {ι : Type w} (step : σ → ε → Option σ)
    (own : ι → σ → ε → Prop) (done : ι → σ → Prop) : σ → List ι → σ → Prop
  | nil (s : σ) : Turns step own done s [] s
  | cons {s t u : σ} {i : ι} {order : List ι} (hrun : Run step (own i) s t) (hdone : done i t)
      (hrest : Turns step own done t order u) : Turns step own done s (i :: order) u

end Lts

namespace Serial

universe u v w x

variable {ι : Type u} {β : Type v} {V : Type w} {κ : Type x}

/-! ## One call -/

/-- What a call does next. -/
inductive Act (β : Type v) (V : Type w) (κ : Type x)
  /-- it has returned -/
  | halt
  | think (k : κ)
  | read (b : β) (f : V → κ)
  | write (b : β) (f : V → V × κ)

/-- What a step touches: a location of the store or none, for reading or for writing. -/
structure Access (ι : Type u) (β : Type v) where
  call : ι
  loc : Option β
  writes : Bool
  deriving DecidableEq

/-- To the same location, and one of them writes. -/
def Access.Conflicts (y z : Access ι β) : Prop :=
  y.loc ≠ none ∧ y.loc = z.loc ∧ (y.writes = true ∨ z.writes = true)

instance [DecidableEq β] (y z : Access ι β) : Decidable (y.Conflicts z) :=
  inferInstanceAs (Decidable (_ ∧ _ ∧ _))

namespace Act

/-- The access of the action. -/
def access (i : ι) : Act β V κ → Access ι β
  | .halt => ⟨i, none, false⟩
  | .think _ => ⟨i, none, false⟩
  | .read b _ => ⟨i, some b, false⟩
  | .write b _ => ⟨i, some b, true⟩

variable [DecidableEq β]

/-- The store and the local variables afterwards. -/
def result (store : β → V) : Act β V κ → Option ((β → V) × κ)
  | .halt => none
  | .think k => some (store, k)
  | .read b f => some (store, f (store b))
  | .write b f => some (Function.update store b (f (store b)).1, (f (store b)).2)

@[simp] theorem result_read (store : β → V) (b : β) (f : V → κ) :
    (read b f).result store = some (store, f (store b)) := rfl

@[simp] theorem result_write (store : β → V) (b : β) (f : V → V × κ) :
    (write b f).result store
      = some (Function.update store b (f (store b)).1, (f (store b)).2) := rfl

/-- **Accesses that do not conflict commute.** -/
theorem swap {a b : Act β V κ} {i j : ι} {store store' store'' : β → V} {k l : κ}
    (ha : a.result store = some (store', k)) (hb : b.result store' = some (store'', l))
    (hfree : ¬ (a.access i).Conflicts (b.access j)) :
    ∃ other, b.result store = some (other, l) ∧ a.result other = some (store'', k) := by
  cases a with
  | halt => cases ha
  | think =>
    cases ha
    exact ⟨store'', hb, rfl⟩
  | read c f =>
    cases ha
    cases b with
    | halt => cases hb
    | think =>
      cases hb
      exact ⟨store, rfl, rfl⟩
    | read =>
      cases hb
      exact ⟨store, rfl, rfl⟩
    | write d g =>
      cases hb
      have hne : c ≠ d := fun heq => hfree ⟨nofun, congrArg some heq, .inr rfl⟩
      refine ⟨Function.update store d (g (store d)).1, rfl, ?_⟩
      rw [result_read, Function.update_of_ne hne]
  | write c f =>
    cases ha
    cases b with
    | halt => cases hb
    | think =>
      cases hb
      exact ⟨store, rfl, rfl⟩
    | read d g =>
      cases hb
      have hne : d ≠ c := fun heq => hfree ⟨nofun, congrArg some heq.symm, .inl rfl⟩
      refine ⟨store, ?_, rfl⟩
      rw [result_read, Function.update_of_ne hne]
    | write d g =>
      cases hb
      have hne : d ≠ c := fun heq => hfree ⟨nofun, congrArg some heq.symm, .inl rfl⟩
      refine ⟨Function.update store d (g (store d)).1, ?_, ?_⟩
      · rw [result_write, Function.update_of_ne hne]
      · rw [result_write, Function.update_of_ne hne.symm, Function.update_of_ne hne,
          Function.update_comm hne]

end Act

/-- A call that runs alone. -/
def solo [DecidableEq β] (prog : κ → Act β V κ) (s : (β → V) × κ) (_ : Unit) :
    Option ((β → V) × κ) :=
  (prog s.2).result s.1

/-! ## Many calls -/

/-- The shared store and the local state of each call. -/
@[ext] structure State (ι : Type u) (β : Type v) (V : Type w) (κ : Type x) where
  store : β → V
  calls : ι → κ

/-- The access call `i` makes next. -/
def accessOf (prog : κ → Act β V κ) (s : State ι β V κ) (i : ι) : Access ι β :=
  (prog (s.calls i)).access i

@[simp] theorem accessOf_call (prog : κ → Act β V κ) (s : State ι β V κ) (i : ι) :
    (accessOf prog s i).call = i := by
  unfold accessOf
  cases prog (s.calls i) <;> rfl

variable [DecidableEq ι] [DecidableEq β]

/-- The next step of call `i`. -/
def step (prog : κ → Act β V κ) (s : State ι β V κ) (i : ι) : Option (State ι β V κ) :=
  ((prog (s.calls i)).result s.store).map fun r => ⟨r.1, Function.update s.calls i r.2⟩

variable {prog : κ → Act β V κ} {s t u : State ι β V κ}

/-- A step of a call changes the store as its action says and no other call. -/
theorem step_eq_some {i : ι} :
    step prog s i = some t ↔ ∃ k, (prog (s.calls i)).result s.store = some (t.store, k) ∧
      t.calls = Function.update s.calls i k := by
  unfold step
  rw [Option.map_eq_some_iff]
  constructor
  · rintro ⟨⟨store, k⟩, hr, rfl⟩
    exact ⟨k, hr, rfl⟩
  · rintro ⟨k, hr, hcalls⟩
    exact ⟨(t.store, k), hr, State.ext rfl hcalls.symm⟩

theorem step_calls_of_ne {i j : ι} (h : step prog s i = some t) (hne : j ≠ i) :
    t.calls j = s.calls j := by
  obtain ⟨k, _, hcalls⟩ := step_eq_some.mp h
  rw [hcalls, Function.update_of_ne hne]

/-- Two steps of different calls without a conflict can be taken the other way
round. -/
theorem step_swap {i j : ι} (hne : i ≠ j) (hi : step prog s i = some t)
    (hj : step prog t j = some u) (hfree : ¬ (accessOf prog s i).Conflicts (accessOf prog t j)) :
    ∃ t', step prog s j = some t' ∧ step prog t' i = some u ∧
      accessOf prog s j = accessOf prog t j ∧ accessOf prog t' i = accessOf prog s i := by
  have hjs := step_calls_of_ne hi hne.symm
  unfold accessOf at hfree
  rw [hjs] at hfree
  obtain ⟨k, hk, hcallsi⟩ := step_eq_some.mp hi
  obtain ⟨l, hl, hcallsj⟩ := step_eq_some.mp hj
  rw [hjs] at hl
  obtain ⟨other, hother, hback⟩ := Act.swap hk hl hfree
  have hsame : Function.update s.calls j l i = s.calls i := Function.update_of_ne hne ..
  refine ⟨⟨other, Function.update s.calls j l⟩, step_eq_some.mpr ⟨l, hother, rfl⟩,
    step_eq_some.mpr ⟨k, ?_, ?_⟩, ?_, ?_⟩
  · show (prog (Function.update s.calls j l i)).result other = _
    rw [hsame]
    exact hback
  · rw [hcallsj, hcallsi]
    exact Function.update_comm hne ..
  · unfold accessOf
    rw [hjs]
  · show (prog (Function.update s.calls j l i)).access i = _
    rw [hsame]
    rfl

/-! ## Traces -/

/-- `t` is reached from `s` by these accesses, in this order. -/
inductive Trace (prog : κ → Act β V κ) : State ι β V κ → List (Access ι β) → State ι β V κ → Prop
  | nil (s : State ι β V κ) : Trace prog s [] s
  | cons {s t u : State ι β V κ} {i : ι} {log : List (Access ι β)} (hs : step prog s i = some t)
      (hrest : Trace prog t log u) : Trace prog s (accessOf prog s i :: log) u

theorem Trace.append {log log' : List (Access ι β)} (h : Trace prog s log t)
    (h' : Trace prog t log' u) : Trace prog s (log ++ log') u := by
  induction h with
  | nil => exact h'
  | cons hs _ ih => exact .cons hs (ih h')

theorem Trace.split {log log' : List (Access ι β)} :
    ∀ {s : State ι β V κ}, Trace prog s (log ++ log') u →
      ∃ t, Trace prog s log t ∧ Trace prog t log' u := by
  induction log with
  | nil => exact fun h => ⟨_, .nil _, h⟩
  | cons y log ih =>
    intro s h
    cases h with
    | cons hs hrest =>
      obtain ⟨t, hlog, hlog'⟩ := ih hrest
      exact ⟨t, .cons hs hlog, hlog'⟩

theorem Trace.cons_inv {y : Access ι β} {log : List (Access ι β)} (h : Trace prog s (y :: log) u) :
    ∃ t, step prog s y.call = some t ∧ accessOf prog s y.call = y ∧ Trace prog t log u := by
  cases h with
  | cons hs hrest =>
    rw [accessOf_call]
    exact ⟨_, hs, rfl, hrest⟩

/-- A call that makes none of the accesses stays where it is. -/
theorem Trace.calls_eq {log : List (Access ι β)} {i : ι} (h : Trace prog s log t)
    (hnone : ∀ y ∈ log, y.call ≠ i) : t.calls i = s.calls i := by
  induction h with
  | nil => rfl
  | cons hs _ ih =>
    have hne := hnone _ List.mem_cons_self
    rw [accessOf_call] at hne
    rw [ih fun y hy => hnone y (List.mem_cons_of_mem _ hy)]
    exact step_calls_of_ne hs hne.symm

/-- **A step is moved to the front** of a trace of other calls it does not conflict
with. -/
theorem Trace.push {log : List (Access ι β)} {i : ι} (h : Trace prog s log t)
    (hs : step prog t i = some u)
    (hfree : ∀ y ∈ log, y.call ≠ i ∧ ¬ y.Conflicts (accessOf prog t i)) :
    Trace prog s (accessOf prog t i :: log) u := by
  induction h with
  | nil => exact .cons hs (.nil _)
  | @cons s r t j log hj hrest ih =>
    obtain ⟨hcall, hnone⟩ := hfree _ List.mem_cons_self
    rw [accessOf_call] at hcall
    have hih := ih hs fun y hy => hfree y (List.mem_cons_of_mem _ hy)
    -- the access is next after that of `j`, and the two are swapped
    have haccess : accessOf prog r i = accessOf prog t i := by
      unfold accessOf
      rw [hrest.calls_eq fun y hy => (hfree y (List.mem_cons_of_mem _ hy)).1]
    rw [← haccess] at hih hnone ⊢
    obtain ⟨r', hi, _, hrest'⟩ := hih.cons_inv
    rw [accessOf_call] at hi
    obtain ⟨s', hi', hj', hsamei, hsamej⟩ := step_swap hcall hj hi hnone
    rw [← hsamei, ← hsamej]
    exact .cons hi' (.cons hj' hrest')

/-! ## Serial order -/

section Order

omit [DecidableEq β]

/-- The accesses of the calls, one call after another. -/
def inTurn (order : List ι) (log : List (Access ι β)) : List (Access ι β) :=
  order.flatMap fun i => log.filter (·.call = i)

theorem inTurn_cons (i : ι) (order : List ι) (log : List (Access ι β)) :
    inTurn (i :: order) log = log.filter (·.call = i) ++ inTurn order log :=
  List.flatMap_cons ..

theorem inTurn_append (order order' : List ι) (log : List (Access ι β)) :
    inTurn (order ++ order') log = inTurn order log ++ inTurn order' log :=
  List.flatMap_append ..

/-- Only calls in the order have turns, and only with accesses of the log. -/
theorem call_mem_of_inTurn {order : List ι} {log : List (Access ι β)} {y : Access ι β}
    (h : y ∈ inTurn order log) : y.call ∈ order ∧ y ∈ log := by
  obtain ⟨i, hi, hy⟩ := List.mem_flatMap.mp h
  rw [List.mem_filter, decide_eq_true_iff] at hy
  rw [hy.2]
  exact ⟨hi, hy.1⟩

/-- An access of another call changes nothing for those in the list. -/
theorem inTurn_snoc_of_notMem {order : List ι} {log : List (Access ι β)} {y : Access ι β}
    (h : y.call ∉ order) : inTurn order (log ++ [y]) = inTurn order log := by
  unfold inTurn
  refine List.flatMap_congr fun i hi => ?_
  have hne : y.call ≠ i := fun heq => h (heq ▸ hi)
  rw [List.filter_append, List.filter_singleton, decide_eq_false hne]
  exact List.append_nil _

/-- One more access goes to the end of its call's. -/
theorem inTurn_snoc {pre post : List ι} {i : ι} {log : List (Access ι β)} {y : Access ι β}
    (hcall : y.call = i) (hpre : i ∉ pre) (hpost : i ∉ post) :
    inTurn (pre ++ i :: post) (log ++ [y])
      = (inTurn pre log ++ log.filter (·.call = i)) ++ y :: inTurn post log := by
  subst hcall
  rw [inTurn_append, inTurn_cons, inTurn_snoc_of_notMem hpre, inTurn_snoc_of_notMem hpost,
    List.filter_append, List.filter_singleton, decide_eq_true rfl, cond_true]
  simp only [List.append_assoc, List.singleton_append]

end Order

/-- The step of call `i` is ordered behind every earlier access it conflicts with. -/
def InOrder (prog : κ → Act β V κ) (order : List ι) (s : State ι β V κ × List (Access ι β))
    (i : ι) : Prop :=
  ∀ y ∈ s.2, y.Conflicts (accessOf prog s.1 i) → order.idxOf y.call ≤ order.idxOf i

/-- What a step adds to the log. -/
def noted (prog : κ → Act β V κ) (s : State ι β V κ) (i : ι) (_ : State ι β V κ) :
    List (Access ι β) :=
  [accessOf prog s i]

/-- **A run is reordered**: along an order that agrees with all conflicts, the accesses
can be made one call after another. -/
theorem trace_inTurn {order : List ι} (hall : ∀ i, i ∈ order) (hnodup : order.Nodup)
    {last : State ι β V κ × List (Access ι β)}
    (h : Lts.Run (Lts.record (step prog) (noted prog)) (InOrder prog order) (s, []) last) :
    Trace prog s (inTurn order last.2) last.1 := by
  induction h with
  | refl =>
    have hnil : inTurn order ([] : List (Access ι β)) = [] :=
      List.flatMap_eq_nil_iff.mpr fun _ _ => rfl
    show Trace prog s (inTurn order []) s
    rw [hnil]
    exact .nil _
  | @tail r next i _ hg hs ih =>
    obtain ⟨hstep, hlog⟩ := Lts.record_eq_some.mp hs
    obtain ⟨pre, post, rfl⟩ := List.append_of_mem (hall i)
    rw [List.nodup_append, List.nodup_cons] at hnodup
    obtain ⟨_, ⟨hpost, _⟩, hpre⟩ := hnodup
    have hnotpre : i ∉ pre := fun hmem => hpre i hmem i List.mem_cons_self rfl
    -- the calls up to `i`, and those after it, which the new access is moved past
    rw [inTurn_append, inTurn_cons, ← List.append_assoc] at ih
    obtain ⟨v, hfront, hback⟩ := ih.split
    have hpush := hback.push hstep fun y hy => by
      obtain ⟨hcall, hmem⟩ := call_mem_of_inTurn hy
      have hne : y.call ≠ i := fun heq => hpost (heq ▸ hcall)
      refine ⟨hne, fun hconflict => ?_⟩
      have hle := hg y hmem hconflict
      have hafter : y.call ∉ pre := fun hin => hpre _ hin _ (List.mem_cons_of_mem _ hcall) rfl
      rw [List.idxOf_append_of_notMem hafter, List.idxOf_append_of_notMem hnotpre,
        List.idxOf_cons_ne _ hne.symm, List.idxOf_cons_self] at hle
      omega
    rw [hlog]
    show Trace prog s (inTurn _ (r.2 ++ [accessOf prog r.1 i])) next.1
    rw [inTurn_snoc (accessOf_call prog r.1 i) hnotpre hpost]
    exact hfront.append hpush

/-- The call has returned. -/
def State.Returned (prog : κ → Act β V κ) (i : ι) (s : State ι β V κ) : Prop :=
  prog (s.calls i) = .halt

/-- A trace of one call is a run of that call alone. -/
theorem Trace.run {log : List (Access ι β)} {i : ι} (h : Trace prog s log t)
    (hown : ∀ y ∈ log, y.call = i) : Lts.Run (step prog) (fun _ j => j = i) s t := by
  induction h with
  | nil => exact .refl
  | @cons s r t j log hs _ ih =>
    have hj := hown _ List.mem_cons_self
    rw [accessOf_call] at hj
    have hone : Lts.Run (step prog) (fun _ j => j = i) s r := .single hj hs
    exact hone.trans (ih fun y hy => hown y (List.mem_cons_of_mem _ hy))

/-- Calls that have all returned have done so one after another. -/
theorem Trace.turns {log : List (Access ι β)} {order : List ι} (hnodup : order.Nodup) :
    ∀ {s : State ι β V κ}, Trace prog s (inTurn order log) t → (∀ i ∈ order, t.Returned prog i) →
      Lts.Turns (step prog) (fun i _ j => j = i) (fun i s => s.Returned prog i) s order t := by
  induction order with
  | nil =>
    intro s h _
    cases h with
    | nil => exact .nil _
  | cons i order ih =>
    intro s h hdone
    obtain ⟨hi, hrest⟩ := List.nodup_cons.mp hnodup
    rw [inTurn_cons] at h
    obtain ⟨r, hown, hothers⟩ := h.split
    -- the later calls leave this one where it has returned
    have hstays : t.calls i = r.calls i := hothers.calls_eq fun y hy heq =>
      hi (heq ▸ (call_mem_of_inTurn hy).1)
    refine .cons (hown.run fun y hy => of_decide_eq_true (List.mem_filter.mp hy).2) ?_
      (ih hrest hothers fun j hj => hdone j (List.mem_cons_of_mem _ hj))
    unfold State.Returned
    rw [← hstays]
    exact hdone i List.mem_cons_self

/-- **Serializability**: a run that agrees with an order of the calls, and after which
all have returned, is those calls one after another. -/
theorem serializable {order : List ι} (hall : ∀ i, i ∈ order) (hnodup : order.Nodup)
    {last : State ι β V κ × List (Access ι β)}
    (h : Lts.Run (Lts.record (step prog) (noted prog)) (InOrder prog order) (s, []) last)
    (hdone : ∀ i, last.1.Returned prog i) :
    Lts.Turns (step prog) (fun i _ j => j = i) (fun i s => s.Returned prog i) s order last.1 :=
  (trace_inTurn hall hnodup h).turns hnodup fun i _ => hdone i

/-! ## A call alone -/

/-- A call without a turn does not move. -/
theorem turns_calls_eq {order : List ι} {i : ι}
    (h : Lts.Turns (step prog) (fun i _ j => j = i) (fun i s => s.Returned prog i) s order t)
    (hi : i ∉ order) : t.calls i = s.calls i := by
  induction h with
  | nil => rfl
  | @cons s r t j order hrun _ _ ih =>
    have hne : i ≠ j := fun heq => hi (heq ▸ List.mem_cons_self)
    have hnot : i ∉ order := fun hmem => hi (List.mem_cons_of_mem _ hmem)
    have hown : r.calls i = s.calls i :=
      hrun.inv (I := fun r => r.calls i = s.calls i)
        (fun hr hj hs => (step_calls_of_ne hs (hj ▸ hne)).trans hr) rfl
    exact (ih hnot).trans hown

/-- What a call does while no other runs depends on the store and on itself. -/
theorem run_solo {i : ι} (h : Lts.Run (step prog) (fun _ j => j = i) s t) :
    Lts.Run (solo prog) Lts.Free (s.store, s.calls i) (t.store, t.calls i) := by
  refine h.map (fun s => (s.store, s.calls i)) (I := fun _ => True) (fun _ _ _ => trivial)
    (fun _ hj hs => ?_) trivial
  subst hj
  obtain ⟨k, hk, hcalls⟩ := step_eq_some.mp hs
  refine .single (e := ()) trivial ?_
  rw [hcalls, Function.update_self]
  exact hk

omit [DecidableEq ι] in
/-- It returns in one way only. -/
theorem solo_unique {a b c : (β → V) × κ} (hb : Lts.Run (solo prog) Lts.Free a b)
    (hc : Lts.Run (solo prog) Lts.Free a c) (hbdone : prog b.2 = .halt)
    (hcdone : prog c.2 = .halt) :
    b = c := by
  have hstop : ∀ {b c : (β → V) × κ}, prog b.2 = .halt →
      Lts.Run (solo prog) Lts.Free b c → b = c := by
    intro b c hdone hrun
    rcases hrun.cases_head with heq | ⟨_, x, _, hs, _⟩
    · exact heq
    · unfold solo at hs
      rw [hdone] at hs
      cases hs
  have hlinear : Lts.Run (solo prog) Lts.Free b c ∨ Lts.Run (solo prog) Lts.Free c b := by
    refine Lts.Run.linear ?_ hb hc
    intro a e e' b b' h h'
    exact Option.some.inj (h.symm.trans h')
  rcases hlinear with hbc | hcb
  · exact hstop hbdone hbc
  · exact (hstop hcdone hcb).symm

end Serial
