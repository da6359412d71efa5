import Supermatchmaker.Lib.Serial
import Supermatchmaker.Matcher.Moves

/-!
# Concurrent harvests

"Eviction is atomic and no other worker can observe or claim a half matched
player", says the README, but `harvest` locks, drains and releases one bucket
after another: other threads see the buckets it has emptied so far. Two threads
whose windows are the same two buckets of five players each take one bucket,
find the other one empty and roll back, though either of them alone would have
returned a group (`eviction_not_atomic`).

A harvest is a call on locked locations in the sense of `Lib.Serial`: `Pc.act`
says which critical section comes next, `Pc.act_cases` what it can do, and
`step_act` that the code does just that. Calls whose conflicting accesses all agree
with one order of the calls have the outcome of the calls run in that order, one after
another (`eviction_atomic`). Then it is not so that all of them fail and one alone would
not have: a call that fails alone leaves the pool as it was (`Restores`).
-/

namespace Supermatchmaker

variable {cfg : Config} {τ : Type}

/-! ## A harvest as a call -/

/-- The end of the drain loop: a group, or everything back. -/
def Pc.harvested (taken : List (Fin cfg.numBuckets × Player τ)) : Pc cfg τ :=
  if taken.length < 10 then .rollback taken.reverse
  else match tryInto (taken.map Prod.snd) with
    | some g => .gate g
    | none => .idle

/-- The three-way peek looks at the front of one more bucket. -/
def Pc.peeked (win : List (Fin cfg.numBuckets)) (b : Fin cfg.numBuckets)
    (todo : List (Fin cfg.numBuckets)) (anchor : Option (Fin cfg.numBuckets × Nat)) :
    List (Player τ) → Pc cfg τ
  | [] => .peek win todo anchor
  | front :: _ =>
    if anchor.all fun a => front.enqueuedAt < a.2 then .peek win todo (some (b, front.enqueuedAt))
    else .peek win todo anchor

/-- The next critical section of a harvest: the peek reads, the drain loop and the
rollback write. -/
def Pc.act : Pc cfg τ → Serial.Act (Fin cfg.numBuckets) (List (Player τ)) (Pc cfg τ)
  | .peek win (b :: todo) anchor => .read b (Pc.peeked win b todo anchor)
  | .peek _ [] none => .think .idle
  | .peek win [] (some (a, _)) => .think (.drain win.length 0 (drainOrder win a) [])
  | .drain windowLen pos todo taken =>
    if taken.length = 10 then .think (Pc.harvested taken)
    else match todo with
      | [] => .think (Pc.harvested taken)
      | b :: rest => .write b fun q =>
        ((popUntilTen b q taken).1, .drain windowLen (pos + 1) rest (popUntilTen b q taken).2)
  | .rollback [] => .think .idle
  | .rollback ((b, p) :: todo) => .write b fun q => (p :: q, .rollback todo)
  | _ => .halt

/-- The thread is inside `harvest` or the rollback it ends with. -/
def Pc.Harvesting : Pc cfg τ → Prop
  | .peek .. | .drain .. | .rollback _ => True
  | .idle | .density .. | .gate _ | .giveBack _ | .commit .. | .defer _ => False

instance (pc : Pc cfg τ) : Decidable pc.Harvesting :=
  match pc with
  | .peek .. | .drain .. | .rollback _ => .isTrue trivial
  | .idle | .density .. | .gate _ | .giveBack _ | .commit .. | .defer _ => .isFalse id

/-- A harvest that has not begun yet, or no harvest. -/
def Pc.AtStart : Pc cfg τ → Prop
  | .peek win todo anchor => todo = win ∧ anchor = none
  | .drain .. | .rollback _ => False
  | .idle | .density .. | .gate _ | .giveBack _ | .commit .. | .defer _ => True

instance (pc : Pc cfg τ) : Decidable pc.AtStart :=
  match pc with
  | .peek win todo anchor => inferInstanceAs (Decidable (todo = win ∧ anchor = none))
  | .drain .. | .rollback _ => .isFalse id
  | .idle | .density .. | .gate _ | .giveBack _ | .commit .. | .defer _ => .isTrue trivial

/-- Only a thread inside `harvest` acts on the buckets. -/
theorem Pc.act_eq_halt {pc : Pc cfg τ} : pc.act = .halt ↔ ¬ pc.Harvesting := by
  cases pc with
  | peek win todo anchor =>
    refine ⟨fun h => ?_, fun h => absurd trivial h⟩
    cases todo with
    | nil => cases anchor <;> cases h
    | cons b todo => cases h
  | drain windowLen pos todo taken =>
    refine ⟨fun h => ?_, fun h => absurd trivial h⟩
    simp only [Pc.act] at h
    split at h
    · cases h
    · cases todo <;> cases h
  | rollback todo =>
    refine ⟨fun h => ?_, fun h => absurd trivial h⟩
    cases todo <;> cases h
  | _ => exact ⟨fun _ => id, fun _ => rfl⟩

/-- **What one critical section of a harvest can do** to the buckets and to the call. -/
inductive Pc.Acts (bs : Buckets cfg τ) : Pc cfg τ → Buckets cfg τ → Pc cfg τ → Prop
  /-- no bucket of the window had a front -/
  | nobody {win : List (Fin cfg.numBuckets)} : Acts bs (.peek win [] none) bs .idle
  | anchored {win : List (Fin cfg.numBuckets)} {a : Fin cfg.numBuckets × Nat} :
      Acts bs (.peek win [] (some a)) bs (.drain win.length 0 (drainOrder win a.1) [])
  /-- the bucket is empty, or its front no older than the anchor -/
  | passes {win todo : List (Fin cfg.numBuckets)} {b : Fin cfg.numBuckets}
      {anchor : Option (Fin cfg.numBuckets × Nat)}
      (hkeep : ∀ x ∈ (bs b).head?, ∃ a ∈ anchor, a.2 ≤ x.enqueuedAt) :
      Acts bs (.peek win (b :: todo) anchor) bs (.peek win todo anchor)
  | older {win todo : List (Fin cfg.numBuckets)} {b : Fin cfg.numBuckets}
      {anchor : Option (Fin cfg.numBuckets × Nat)} {front : Player τ}
      (hfront : front ∈ (bs b).head?) (holder : ∀ a ∈ anchor, front.enqueuedAt < a.2) :
      Acts bs (.peek win (b :: todo) anchor) bs (.peek win todo (some (b, front.enqueuedAt)))
  | ended {windowLen pos : Nat} {todo : List (Fin cfg.numBuckets)}
      {taken : List (Fin cfg.numBuckets × Player τ)} (hend : taken.length = 10 ∨ todo = []) :
      Acts bs (.drain windowLen pos todo taken) bs (Pc.harvested taken)
  | popped {windowLen pos : Nat} {b : Fin cfg.numBuckets} {rest : List (Fin cfg.numBuckets)}
      {taken : List (Fin cfg.numBuckets × Player τ)} (hten : taken.length ≠ 10) :
      Acts bs (.drain windowLen pos (b :: rest) taken)
        (bs.set b (popUntilTen b (bs b) taken).1)
        (.drain windowLen (pos + 1) rest (popUntilTen b (bs b) taken).2)
  | rolledBack : Acts bs (.rollback []) bs .idle
  | putBack {bp : Fin cfg.numBuckets × Player τ} {todo : List (Fin cfg.numBuckets × Player τ)} :
      Acts bs (.rollback (bp :: todo)) (bs.pushFront bp.1 bp.2) (.rollback todo)

/-- Every action of a harvest is one of these. -/
theorem Pc.act_cases {bs bs' : Buckets cfg τ} {pc pc' : Pc cfg τ}
    (h : pc.act.result bs = some (bs', pc')) : pc.Acts bs bs' pc' := by
  cases pc with
  | peek win todo anchor =>
    cases todo with
    | nil =>
      cases anchor with
      | none =>
        cases h
        exact .nobody
      | some a =>
        cases h
        exact .anchored
    | cons b todo =>
      cases h
      unfold Pc.peeked
      split
      next hempty =>
        refine .passes fun x hx => ?_
        rw [hempty] at hx
        cases hx
      next front q hfront =>
        have hhead : (bs b).head? = some front := by rw [hfront]; rfl
        split
        next hall =>
          refine .older hhead fun a ha => ?_
          rw [Option.mem_def.mp ha] at hall
          exact of_decide_eq_true hall
        next hall =>
          refine .passes fun x hx => ?_
          obtain rfl : front = x := Option.some.inj (hhead.symm.trans hx)
          cases anchor with
          | none => exact absurd rfl hall
          | some a => exact ⟨a, rfl, not_lt.mp fun hlt => hall (decide_eq_true hlt)⟩
  | drain windowLen pos todo taken =>
    simp only [Pc.act] at h
    split at h
    next hten =>
      cases h
      exact .ended (Or.inl hten)
    next hten =>
      cases todo with
      | nil =>
        cases h
        exact .ended (Or.inr rfl)
      | cons b rest =>
        cases h
        exact .popped hten
  | rollback todo =>
    cases todo with
    | nil =>
      cases h
      exact .rolledBack
    | cons bp todo =>
      cases h
      exact .putBack
  | _ => cases h

namespace Matcher

/-- What the harvests share and what each has for itself. -/
def pool (m : Matcher cfg τ) :
    Serial.State (Fin cfg.numWorkers) (Fin cfg.numBuckets) (List (Player τ)) (Pc cfg τ) :=
  ⟨m.buckets, m.workers⟩

/-- The matcher with these buckets and these threads. -/
def withPool (m : Matcher cfg τ)
    (s : Serial.State (Fin cfg.numWorkers) (Fin cfg.numBuckets) (List (Player τ)) (Pc cfg τ)) :
    Matcher cfg τ :=
  { m with buckets := s.store, workers := s.calls }

/-- **A step of a harvest** is its next critical section. -/
theorem step_act {m : Matcher cfg τ} {w : Fin cfg.numWorkers} (h : (m.workers w).Harvesting) :
    m.step (.worker w .run) = (Serial.step Pc.act m.pool w).map m.withPool := by
  show m.workerRun w = (((m.workers w).act.result m.buckets).map fun r =>
    (⟨r.1, Function.update m.workers w r.2⟩ : Serial.State ..)).map m.withPool
  unfold workerRun
  cases hpc : m.workers w with
  | peek win todo anchor =>
    cases todo with
    | nil =>
      cases anchor with
      | none => rfl
      | some a => rfl
    | cons b todo =>
      simp only [Pc.act, Serial.Act.result_read, Option.map_some]
      cases m.buckets b with
      | nil => rfl
      | cons front q =>
        simp only [Pc.peeked]
        split <;> rfl
  | drain windowLen pos todo taken =>
    have hend : m.harvested w taken = m.setPc w (Pc.harvested taken) := by
      unfold harvested Pc.harvested
      split
      · rfl
      · cases tryInto (taken.map Prod.snd) <;> rfl
    cases todo with
    | nil =>
      simp only [Pc.act, ite_self, hend]
      rfl
    | cons b rest =>
      simp only [Pc.act]
      split
      · rw [hend]
        rfl
      · rfl
  | rollback todo =>
    cases todo with
    | nil => rfl
    | cons bp todo => rfl
  | _ =>
    rw [hpc] at h
    cases h

end Matcher

/-! ## A harvest that fails alone -/

/-- The loop of `rollback`. -/
def putBack (todo : List (Fin cfg.numBuckets × Player τ)) (bs : Buckets cfg τ) : Buckets cfg τ :=
  todo.foldl (fun bs bp => bs.pushFront bp.1 bp.2) bs

/-- Putting back what was popped last restores the queue. -/
theorem putBack_popped (b : Fin cfg.numBuckets) (bs : Buckets cfg τ) (q : List (Player τ)) :
    ∀ popped : List (Player τ),
      putBack (popped.map (b, ·)).reverse (bs.set b q) = bs.set b (popped ++ q)
  | [] => rfl
  | p :: popped => by
    have ih := putBack_popped b bs q popped
    unfold putBack at ih ⊢
    rw [List.map_cons, List.reverse_cons, List.foldl_append, ih]
    show (bs.set b (popped ++ q)).pushFront b p = _
    unfold Buckets.pushFront Buckets.set
    rw [Function.update_self, Function.update_idem]
    rfl

/-- Wherever the call stands, and nobody else has run since it began, it can still put
the buckets back as they were; when it has returned without a group, it has. -/
def Restores (bs₀ bs : Buckets cfg τ) : Pc cfg τ → Prop
  | .peek .. => bs = bs₀
  | .drain _ _ _ taken => taken.length ≤ 10 ∧ putBack taken.reverse bs = bs₀
  | .rollback todo => putBack todo bs = bs₀
  | .idle => bs = bs₀
  | .gate _ => True
  | .density .. | .giveBack _ | .commit .. | .defer _ => False

/-- A short harvest is about to put back what it took. -/
theorem harvested_restores {bs₀ bs : Buckets cfg τ} {taken : List (Fin cfg.numBuckets × Player τ)}
    (hlen : taken.length ≤ 10) (hback : putBack taken.reverse bs = bs₀) :
    Restores bs₀ bs (Pc.harvested taken) := by
  unfold Pc.harvested
  split
  next => exact hback
  next hge =>
    -- exactly ten were taken: there is a group
    have hten : (taken.map Prod.snd).length = 10 := by
      rw [List.length_map]
      omega
    obtain ⟨g, hg, _⟩ := tryInto_eq_some hten
    rw [hg]
    trivial

/-- **Step**. -/
theorem solo_restores {bs₀ : Buckets cfg τ} {s t : Buckets cfg τ × Pc cfg τ} {e : Unit}
    (hR : Restores bs₀ s.1 s.2) (h : Serial.solo Pc.act s e = some t) : Restores bs₀ t.1 t.2 := by
  obtain ⟨bs, pc⟩ := s
  obtain ⟨bs', pc'⟩ := t
  cases Pc.act_cases h with
  | nobody => exact hR
  | anchored => exact ⟨Nat.zero_le _, hR⟩
  | passes | older => exact hR
  | ended => exact harvested_restores hR.1 hR.2
  | @popped windowLen pos b rest taken =>
    obtain ⟨hlen, hback⟩ := hR
    obtain ⟨popped, hq, htaken, hten⟩ := popUntilTen_spec b (bs b) taken
    refine ⟨hten hlen, ?_⟩
    show putBack (popUntilTen b (bs b) taken).2.reverse
      (bs.set b (popUntilTen b (bs b) taken).1) = bs₀
    rw [htaken, List.reverse_append]
    unfold putBack
    rw [List.foldl_append]
    show putBack taken.reverse (putBack _ _) = bs₀
    rw [putBack_popped, ← hq]
    unfold Buckets.set
    rw [Function.update_eq_self]
    exact hback
  | rolledBack => exact hR
  | putBack => exact hR

/-- A harvest that runs alone returns a group or leaves the pool as it was. -/
theorem solo_returns {s t : Buckets cfg τ × Pc cfg τ} (hstart : s.2.AtStart)
    (h : Lts.Run (Serial.solo Pc.act) Lts.Free s t) (hdone : ¬ t.2.Harvesting) :
    t.1 = s.1 ∨ s.2.Harvesting ∧ ∃ g, t.2 = .gate g := by
  by_cases hcall : s.2.Harvesting
  · have hbegin : Restores s.1 s.1 s.2 := by
      cases hpc : s.2 with
      | peek => rfl
      | drain | rollback =>
        rw [hpc] at hstart
        cases hstart
      | _ =>
        rw [hpc] at hcall
        cases hcall
    have hend : Restores s.1 t.1 t.2 :=
      h.inv (I := fun t => Restores s.1 t.1 t.2) (fun hR _ hs => solo_restores hR hs) hbegin
    cases hpc : t.2 with
    | gate g => exact .inr ⟨hcall, g, rfl⟩
    | idle =>
      rw [hpc] at hend
      exact .inl hend
    | peek | drain | rollback =>
      rw [hpc] at hdone
      exact absurd trivial hdone
    | _ =>
      rw [hpc] at hend
      cases hend
  · rcases h.cases_head with rfl | ⟨_, u, _, hs, _⟩
    · exact .inl rfl
    · unfold Serial.solo at hs
      rw [Pc.act_eq_halt.mpr hcall] at hs
      cases hs

/-- Calls that all fail, one after another, each fail on the pool they started with. -/
theorem failed_turns {s t : Serial.State (Fin cfg.numWorkers) (Fin cfg.numBuckets) (List (Player τ))
      (Pc cfg τ)} {order : List (Fin cfg.numWorkers)}
    (h : Lts.Turns (Serial.step Pc.act) (fun i _ j => j = i)
      (fun i s => s.Returned Pc.act i) s order t)
    (hnodup : order.Nodup) (hstart : ∀ i ∈ order, (s.calls i).AtStart)
    (hfail : ∀ i ∈ order, (s.calls i).Harvesting → ∀ g, t.calls i ≠ .gate g) :
    ∀ i ∈ order, ∃ bs, Lts.Run (Serial.solo Pc.act) Lts.Free (s.store, s.calls i)
      (bs, t.calls i) := by
  induction h with
  | nil => nofun
  | @cons s r t j order hrun hdone hrest ih =>
    obtain ⟨hj, hnodup'⟩ := List.nodup_cons.mp hnodup
    have hsolo := Serial.run_solo hrun
    have hstays : t.calls j = r.calls j := Serial.turns_calls_eq hrest hj
    have hothers : ∀ i ∈ order, r.calls i = s.calls i := by
      intro i hi
      have hne : i ≠ j := fun heq => hj (heq ▸ hi)
      exact hrun.inv (I := fun r => r.calls i = s.calls i)
        (fun hr hown hs => (Serial.step_calls_of_ne hs (hown ▸ hne)).trans hr) rfl
    -- the first call leaves the pool as it was
    have hsame : r.store = s.store := by
      rcases solo_returns (hstart j List.mem_cons_self) hsolo (Pc.act_eq_halt.mp hdone) with
        hsame | ⟨hcall, g, hg⟩
      · exact hsame
      · exact absurd (hstays.trans hg) (hfail j List.mem_cons_self hcall g)
    have hlater := ih hnodup'
      (fun i hi => by rw [hothers i hi]; exact hstart i (List.mem_cons_of_mem _ hi))
      (fun i hi hcall => hfail i (List.mem_cons_of_mem _ hi) (by rw [← hothers i hi]; exact hcall))
    intro i hi
    rcases List.mem_cons.mp hi with rfl | hi
    · exact ⟨r.store, by rw [hstays]; exact hsolo⟩
    · obtain ⟨bs, hbs⟩ := hlater i hi
      rw [hsame, hothers i hi] at hbs
      exact ⟨bs, hbs⟩

/-! ## Atomicity -/

namespace Matcher

/-- Thread `w` goes on with its harvest. -/
def Own (w : Fin cfg.numWorkers) (m : Matcher cfg τ) : MatcherEvent cfg τ → Prop
  | .worker w' .run => w' = w ∧ (m.workers w).Harvesting
  | _ => False

/-- A step of a harvest of some thread, or its `try_lock` on a border bucket fails. -/
def HarvestOnly (m : Matcher cfg τ) : MatcherEvent cfg τ → Prop
  | .worker w .run | .worker w .busy => (m.workers w).Harvesting
  | _ => False

/-- The thread is not inside `harvest`. -/
def Returned (w : Fin cfg.numWorkers) (m : Matcher cfg τ) : Prop := ¬ (m.workers w).Harvesting

/-- What is asked of the outcome `m'` of the harvests begun in `m`: each thread has
what it has, and each bucket holds what it holds, in its order, after these
harvests one by one; and if one of them would have found a group on its own, not
all have failed. -/
structure Serializable (m m' : Matcher cfg τ) : Prop where
  inTurn : ∃ order : List (Fin cfg.numWorkers), order.Perm (List.finRange cfg.numWorkers) ∧
    Lts.Turns step Own Returned m order m'
  progress : ∀ w u g, Lts.Run step (Own w) m u → (m.workers w).Harvesting → u.workers w = .gate g →
    ∃ w' g', (m.workers w').Harvesting ∧ m'.workers w' = .gate g'

/-- The critical section that the step of a harvest enters. -/
def accesses (m : Matcher cfg τ) : MatcherEvent cfg τ → Matcher cfg τ →
    List (Serial.Access (Fin cfg.numWorkers) (Fin cfg.numBuckets))
  | .worker w .run, _ => [Serial.accessOf Pc.act m.pool w]
  | _, _ => []

/-- A step of a harvest that comes, in the order of the harvests, behind all earlier
ones it is in conflict with: which looked at, or changed, the bucket it changes
now, or changed the bucket it looks at. No `try_lock` fails. -/
def InOrder (order : List (Fin cfg.numWorkers))
    (s : Matcher cfg τ × List (Serial.Access (Fin cfg.numWorkers) (Fin cfg.numBuckets))) :
    MatcherEvent cfg τ → Prop
  | .worker w .run => (s.1.workers w).Harvesting ∧ Serial.InOrder Pc.act order (s.1.pool, s.2) w
  | _ => False

instance (w : Fin cfg.numWorkers) (m : Matcher cfg τ) (e : MatcherEvent cfg τ) :
    Decidable (m.Own w e) :=
  match e with
  | .worker w' .run => inferInstanceAs (Decidable (w' = w ∧ (m.workers w).Harvesting))
  | .worker _ .busy | .worker _ (.cmd _) | .worker _ (.reply _) | .enqueue .. | .counted | .retry _
  | .tick _ => .isFalse id

instance (w : Fin cfg.numWorkers) (m : Matcher cfg τ) : Decidable (m.Returned w) :=
  inferInstanceAs (Decidable (¬ _))

instance (m : Matcher cfg τ) (e : MatcherEvent cfg τ) : Decidable (m.HarvestOnly e) :=
  match e with
  | .worker w .run | .worker w .busy => inferInstanceAs (Decidable (m.workers w).Harvesting)
  | .worker _ (.cmd _) | .worker _ (.reply _) | .enqueue .. | .counted | .retry _ | .tick _ =>
    .isFalse id

instance (order : List (Fin cfg.numWorkers))
    (s : Matcher cfg τ × List (Serial.Access (Fin cfg.numWorkers) (Fin cfg.numBuckets)))
    (e : MatcherEvent cfg τ) : Decidable (InOrder order s e) :=
  match e with
  | .worker w .run =>
    have : Decidable (Serial.InOrder Pc.act order (s.1.pool, s.2) w) := List.decidableBAll _ s.2
    inferInstanceAs (Decidable (_ ∧ _))
  | .worker _ .busy | .worker _ (.cmd _) | .worker _ (.reply _) | .enqueue .. | .counted | .retry _
  | .tick _ => .isFalse id

/-- What a step of a harvest does to the pool, and that it does nothing else. -/
theorem step_pool {m m' : Matcher cfg τ} {w : Fin cfg.numWorkers} (hw : (m.workers w).Harvesting)
    (h : m.step (.worker w .run) = some m') :
    Serial.step Pc.act m.pool w = some m'.pool ∧ m' = m.withPool m'.pool := by
  rw [step_act hw, Option.map_eq_some_iff] at h
  obtain ⟨s, hs, rfl⟩ := h
  exact ⟨hs, rfl⟩

/-- A run of the harvests is a run of the calls. -/
theorem run_pool {m₀ : Matcher cfg τ} {order : List (Fin cfg.numWorkers)}
    {s : Matcher cfg τ × List (Serial.Access (Fin cfg.numWorkers) (Fin cfg.numBuckets))}
    (h : Lts.Run (Lts.record step accesses) (InOrder order) (m₀, []) s) :
    Lts.Run (Lts.record (Serial.step Pc.act) (Serial.noted Pc.act)) (Serial.InOrder Pc.act order)
      (m₀.pool, []) (s.1.pool, s.2) ∧ s.1 = m₀.withPool s.1.pool := by
  induction h with
  | refl => exact ⟨.refl, rfl⟩
  | @tail t u e _ hg hs ih =>
    obtain ⟨hstep, hlog⟩ := Lts.record_eq_some.mp hs
    unfold InOrder at hg
    split at hg
    next w =>
      obtain ⟨hcalls, hframe⟩ := step_pool hg.1 hstep
      refine ⟨.tail ih.1 hg.2 (Lts.record_eq_some.mpr ⟨hcalls, hlog⟩), ?_⟩
      rw [ih.2] at hframe
      exact hframe
    next => cases hg

/-- A run of one call is a run of that harvest. -/
theorem run_withPool (m : Matcher cfg τ) {w : Fin cfg.numWorkers}
    {s t : Serial.State (Fin cfg.numWorkers) (Fin cfg.numBuckets) (List (Player τ)) (Pc cfg τ)}
    (h : Lts.Run (Serial.step Pc.act) (fun _ j => j = w) s t) :
    Lts.Run step (Own w) (m.withPool s) (m.withPool t) := by
  refine h.map m.withPool (I := fun _ => True) (fun _ _ _ => trivial)
    (fun {a j b} _ hj hs => ?_) trivial
  subst hj
  have hw : ((m.withPool a).workers j).Harvesting := by
    by_contra hnot
    obtain ⟨_, hk, _⟩ := Serial.step_eq_some.mp hs
    rw [show (a.calls j).act = .halt from Pc.act_eq_halt.mpr hnot] at hk
    cases hk
  refine .single (e := .worker j .run) ⟨rfl, hw⟩ ?_
  rw [step_act hw]
  show (Serial.step Pc.act a j).map _ = _
  rw [hs]
  rfl

/-- Turns over the buckets are turns of the matcher. -/
theorem turns_withPool (m : Matcher cfg τ) {order : List (Fin cfg.numWorkers)}
    {s t : Serial.State (Fin cfg.numWorkers) (Fin cfg.numBuckets) (List (Player τ)) (Pc cfg τ)}
    (h : Lts.Turns (Serial.step Pc.act) (fun i _ j => j = i)
      (fun i s => s.Returned Pc.act i) s order t) :
    Lts.Turns step Own Returned (m.withPool s) order (m.withPool t) := by
  induction h with
  | nil => exact .nil _
  | cons hrun hdone _ ih => exact .cons (run_withPool m hrun) (Pc.act_eq_halt.mp hdone) ih

/-- A lone harvest is a run of its call. -/
theorem own_solo {m u : Matcher cfg τ} {w : Fin cfg.numWorkers} (h : Lts.Run step (Own w) m u) :
    Lts.Run (Serial.solo Pc.act) Lts.Free (m.buckets, m.workers w) (u.buckets, u.workers w) := by
  have hcall : Lts.Run (Serial.step Pc.act) (fun _ j => j = w) m.pool u.pool := by
    refine h.map pool (I := fun _ => True) (fun _ _ _ => trivial)
      (fun {a e b} _ hg hs => ?_) trivial
    unfold Own at hg
    split at hg
    next w' =>
      obtain ⟨rfl, hw⟩ := hg
      exact .single rfl (step_pool hw hs).1
    next => cases hg
  exact Serial.run_solo hcall

end Matcher

/-- **Atomic eviction**: harvests that touch the buckets in keeping with some order of
the threads have the outcome of running one after another in that order. -/
theorem eviction_atomic {m₀ : Matcher cfg τ} (hstart : ∀ w, (m₀.workers w).AtStart)
    {order : List (Fin cfg.numWorkers)} (horder : order.Perm (List.finRange cfg.numWorkers))
    {s : Matcher cfg τ × List (Serial.Access (Fin cfg.numWorkers) (Fin cfg.numBuckets))}
    (h : Lts.Run (Lts.record Matcher.step Matcher.accesses) (Matcher.InOrder order) (m₀, []) s)
    (hdone : ∀ w, s.1.Returned w) : m₀.Serializable s.1 := by
  have hall : ∀ w, w ∈ order := fun w => horder.mem_iff.mpr (List.mem_finRange w)
  have hnodup : order.Nodup := horder.nodup_iff.mpr (List.nodup_finRange _)
  obtain ⟨hcalls, hframe⟩ := Matcher.run_pool h
  have hturns := Serial.serializable hall hnodup hcalls fun w => Pc.act_eq_halt.mpr (hdone w)
  refine ⟨⟨order, horder, ?_⟩, fun w u g hlone hw hgate => ?_⟩
  · rw [hframe]
    exact Matcher.turns_withPool m₀ hturns
  · by_contra hnone
    have hfail : ∀ i ∈ order, (m₀.pool.calls i).Harvesting → ∀ g, s.1.pool.calls i ≠ .gate g :=
      fun i _ hi g hg => hnone ⟨i, g, hi, hg⟩
    -- the lone harvest and the one in its turn started with the same pool
    obtain ⟨bs, hturn⟩ := failed_turns hturns hnodup (fun i _ => hstart i) hfail w (hall w)
    have hret : (u.workers w).act = .halt := by
      rw [hgate]
      rfl
    have hsame := Serial.solo_unique (Matcher.own_solo hlone) hturn hret
      (Pc.act_eq_halt.mpr (hdone w))
    have hgate' : s.1.workers w = .gate g := (congrArg Prod.snd hsame).symm.trans hgate
    exact hnone ⟨w, g, hw, hgate'⟩

theorem forall_pair {P : Fin Config.pair.numWorkers → Prop} :
    (∀ w, P w) ↔ P firstThread ∧ P secondThread :=
  Fin.forall_fin_two

/-- `n` players in each of the two buckets, and both threads about to harvest. -/
def bothCalled (n : Nat) : List (MatcherEvent Config.pair Nat) :=
  (List.range n).map (fun i => .enqueue (Int64.ofNat i) 50 i)
    ++ (List.range n).map (fun i => .enqueue (Int64.ofNat (i + n)) 150 (i + n))
    ++ List.replicate 4 (.worker firstThread .run) ++ List.replicate 4 (.worker secondThread .run)

/-- The second thread looks, takes its ten players and returns while the first one
has its ten in hand. -/
theorem eviction_atomic_pair :
    ∃ m₀ m : Matcher Config.pair Nat, (m.workers firstThread).held.length = 10 ∧
      (m.workers secondThread).held.length = 10 ∧ m₀.Serializable m := by
  have hexec : (Lts.exec Matcher.step (fun _ _ => true) (Matcher.init Config.pair Nat 0)
      (bothCalled 10)).any (fun m₀ =>
        decide ((m₀.workers firstThread).AtStart ∧ (m₀.workers secondThread).AtStart) &&
        (Lts.exec (Lts.record Matcher.step Matcher.accesses)
          (fun s e => Matcher.InOrder [firstThread, secondThread] s e) (m₀, [])
          (List.replicate 4 (.worker firstThread .run)
            ++ List.replicate 5 (.worker secondThread .run)
            ++ [.worker firstThread .run])).any (fun s =>
          decide ((s.1.workers firstThread).held.length = 10 ∧
            (s.1.workers secondThread).held.length = 10 ∧ s.1.Returned firstThread ∧
            s.1.Returned secondThread))) = true := by
    decide +kernel
  obtain ⟨m₀, _, hboth⟩ := Lts.exists_run_of_exec hexec
  rw [Bool.and_eq_true] at hboth
  obtain ⟨s, hrun, hdone⟩ := Lts.exists_run_of_exec hboth.2
  obtain ⟨hfirst, hsecond, hret⟩ := of_decide_eq_true hdone
  have hstart : ∀ w, (m₀.workers w).AtStart := forall_pair.mpr (of_decide_eq_true hboth.1)
  have hdone : ∀ w, s.1.Returned w := forall_pair.mpr hret
  have horder : [firstThread, secondThread].Perm (List.finRange Config.pair.numWorkers) := by decide
  exact ⟨m₀, s.1, hfirst, hsecond, eviction_atomic hstart horder
    (hrun.mono of_decide_eq_true) hdone⟩

/-- Five players in each bucket: each thread takes one bucket, finds the other one
empty and rolls back. The first one alone would have returned a group. -/
theorem eviction_not_atomic :
    ¬ ∀ (cfg : Config) (m₀ m : Matcher cfg Nat),
      Lts.Run Matcher.step Lts.Free (Matcher.init cfg Nat 0) m₀ → (∀ w, (m₀.workers w).AtStart) →
      Lts.Run Matcher.step Matcher.HarvestOnly m₀ m → (∀ w, m.Returned w) → m₀.Serializable m := by
  intro hclaim
  have hexec : (Lts.exec Matcher.step (fun _ _ => true) (Matcher.init Config.pair Nat 0)
      (bothCalled 5)).any (fun m₀ =>
        decide ((m₀.workers firstThread).AtStart ∧ (m₀.workers secondThread).AtStart) &&
        ((Lts.exec Matcher.step (fun m e => m.HarvestOnly e) m₀
          (List.replicate 4 (.worker firstThread .run)
            ++ List.replicate 5 (.worker secondThread .run)
            ++ List.replicate 8 (.worker firstThread .run)
            ++ List.replicate 7 (.worker secondThread .run))).any (fun m =>
          (m.workers firstThread).isIdle && (m.workers secondThread).isIdle) &&
        (Lts.exec Matcher.step (fun m e => m.Own firstThread e) m₀
          (List.replicate 6 (.worker firstThread .run))).any (fun u =>
          decide (m₀.workers firstThread).Harvesting &&
            (u.workers firstThread).gated.isSome))) = true := by
    decide +kernel
  obtain ⟨m₀, hrun₀, hruns⟩ := Lts.exists_run_of_exec hexec
  simp only [Bool.and_eq_true, decide_eq_true_eq] at hruns
  obtain ⟨hatstart, hboth, hlone⟩ := hruns
  obtain ⟨m, hrun, hidle⟩ := Lts.exists_run_of_exec hboth
  obtain ⟨u, hown, hgate⟩ := Lts.exists_run_of_exec hlone
  rw [Bool.and_eq_true] at hidle
  have hidle : ∀ w, m.workers w = .idle :=
    forall_pair.mpr ⟨Pc.eq_idle hidle.1, Pc.eq_idle hidle.2⟩
  have hret : ∀ w, m.Returned w := fun w => by
    unfold Matcher.Returned
    rw [hidle w]
    exact id
  have hser := hclaim Config.pair m₀ m hrun₀.free (forall_pair.mpr hatstart)
    (hrun.mono of_decide_eq_true) hret
  rw [Bool.and_eq_true, decide_eq_true_iff] at hgate
  obtain ⟨hcall, hgroup⟩ := hgate
  obtain ⟨g, hg⟩ := Option.isSome_iff_exists.mp hgroup
  obtain ⟨w, g', _, hw⟩ :=
    hser.progress firstThread u g (hown.mono of_decide_eq_true) hcall (Pc.eq_gate hg)
  -- both have returned without a group
  rw [hidle w] at hw
  cases hw

end Supermatchmaker
