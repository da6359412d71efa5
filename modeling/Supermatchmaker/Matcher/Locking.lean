import Supermatchmaker.Lib.Locks
import Supermatchmaker.Matcher.Eviction

/-!
# Bucket locks

The rest of the model runs each critical section as one step. Here is the code
with its locks: every function of `matcher.rs` that locks a bucket, with the
lifetime of every guard, in the terms of `Lib.Locks`.

Mirroring notes:
- `lock().unwrap().len()` and the pushes of `enqueue`, `rollback` and
  `return_group` hold the guard for one statement; the peek and `snapshot_players`
  hold it for one iteration, and so does the drain loop, whether the guard came
  from `lock` or from `try_lock`. Each of these is a block (`withLock`, `inScope`).
- The `Err` arm of `try_lock` rolls back and returns inside the `match`, where the
  only other guard would be the one in the error of a poisoned lock; no critical
  section panics, so there is none.
- What happens between two such functions takes no bucket lock: `Goes` lets a
  match thread go on there as `Matcher.workerStep` does, whatever the rest of the
  memory holds, lets the ingestion thread place any player, and lets the
  snapshotter copy the pool at any time.

`run_locked` connects the two: a run of the matcher is a run of this code, each step of
a match thread one critical section or none (`act_section`).
-/

namespace Supermatchmaker

open Locks (Code)

variable {cfg : Config} {τ : Type}

/-- Code over the buckets, each behind its own lock. -/
abbrev BucketCode (cfg : Config) (τ : Type) := Code (Fin cfg.numBuckets) (List (Player τ))

namespace Locked

/-! ## The functions that lock buckets -/

/-- `push_front` through the guard. -/
def pushFront (b : Fin cfg.numBuckets) (p : Player τ) : BucketCode cfg τ Unit :=
  .access b (fun q => p :: q) fun _ => .ret ()

/-- `Pool::enqueue`. -/
def enqueue (p : Player τ) : BucketCode cfg τ Unit :=
  .withLock (bucketIndex cfg p.rating)
    (.access (bucketIndex cfg p.rating) (fun q => q ++ [p]) fun _ => .ret ())

/-- `Pool::snapshot_players`, with the buckets still to be copied. -/
def snapshotPlayers : List (Fin cfg.numBuckets) → List (Player τ) →
    BucketCode cfg τ (List (Player τ))
  | [], out => .ret out
  | b :: todo, out =>
    (Code.withLock b (.read b fun q => out ++ q)).bind fun out => snapshotPlayers todo out

/-- The density check of `run_worker`, with the buckets still to be counted. -/
def lengths : List (Fin cfg.numBuckets) → Nat → BucketCode cfg τ Nat
  | [], approx => .ret approx
  | b :: todo, approx =>
    (Code.withLock b (.read b List.length)).bind fun len => lengths todo (approx + len)

/-- The anchor after a look at bucket `b`. -/
def older (b : Fin cfg.numBuckets) (anchor : Option (Fin cfg.numBuckets × Nat)) :
    List (Player τ) → Option (Fin cfg.numBuckets × Nat)
  | [] => anchor
  | front :: _ =>
    if anchor.all fun a => front.enqueuedAt < a.2 then some (b, front.enqueuedAt) else anchor

/-- The three-way peek of `harvest`. -/
def peek : List (Fin cfg.numBuckets) → Option (Fin cfg.numBuckets × Nat) →
    BucketCode cfg τ (Option (Fin cfg.numBuckets × Nat))
  | [], anchor => .ret anchor
  | b :: todo, anchor =>
    (Code.withLock b (.read b (older b anchor))).bind fun anchor => peek todo anchor

/-- `rollback`, over the reversed list. -/
def rollback : List (Fin cfg.numBuckets × Player τ) → BucketCode cfg τ Unit
  | [] => .ret ()
  | (b, p) :: todo => (Code.withLock b (pushFront b p)).bind fun _ => rollback todo

/-- `while taken.len() < 10 { match guard.pop_front() .. }`. -/
def popLoop (b : Fin cfg.numBuckets) (taken : List (Fin cfg.numBuckets × Player τ)) :
    BucketCode cfg τ (List (Fin cfg.numBuckets × Player τ)) :=
  .access b (fun q => (popUntilTen b q taken).1) fun q => .ret (popUntilTen b q taken).2

/-- The drain loop of `harvest`; `none` when a border bucket was busy and everything is
back. -/
def drain (windowLen : Nat) : Nat → List (Fin cfg.numBuckets) →
    List (Fin cfg.numBuckets × Player τ) →
    BucketCode cfg τ (Option (List (Fin cfg.numBuckets × Player τ)))
  | _, [], taken => .ret (some taken)
  | pos, b :: todo, taken =>
    if taken.length = 10 then .ret (some taken)
    else if windowLen ≤ pos then
      .tryLock b
        (((popLoop b taken).inScope b).bind fun taken => drain windowLen (pos + 1) todo taken)
        ((rollback taken.reverse).bind fun _ => .ret none)
    else (Code.withLock b (popLoop b taken)).bind fun taken =>
      drain windowLen (pos + 1) todo taken

/-- `harvest` behind its drain loop. -/
def afterDrain : Option (List (Fin cfg.numBuckets × Player τ)) →
    BucketCode cfg τ (Option (MatchGroup τ))
  | none => .ret none
  | some taken =>
    if taken.length < 10 then (rollback taken.reverse).bind fun _ => .ret none
    else .ret (tryInto (taken.map Prod.snd))

/-- `harvest` behind the peek. -/
def afterPeek (win : List (Fin cfg.numBuckets)) :
    Option (Fin cfg.numBuckets × Nat) → BucketCode cfg τ (Option (MatchGroup τ))
  | none => .ret none
  | some (a, _) => (drain win.length 0 (drainOrder win a) []).bind afterDrain

/-- `harvest`. -/
def harvest (win : List (Fin cfg.numBuckets)) : BucketCode cfg τ (Option (MatchGroup τ)) :=
  (peek win none).bind (afterPeek win)

/-- `return_group`, over the reversed list. -/
def returnGroup : List (Player τ) → BucketCode cfg τ Unit
  | [] => .ret ()
  | p :: todo =>
    (Code.withLock (bucketIndex cfg p.rating) (pushFront (bucketIndex cfg p.rating) p)).bind
      fun _ => returnGroup todo

/-- `let Some(group) = harvest(..) else { continue }`. -/
def outcome : Option (MatchGroup τ) → BucketCode cfg τ (Pc cfg τ)
  | none => .ret .idle
  | some g => .ret (.gate g)

/-- `run_worker` behind its density check. -/
def afterDensity (win : List (Fin cfg.numBuckets)) (approx : Nat) :
    BucketCode cfg τ (Pc cfg τ) :=
  if approx < 10 then .ret .idle else (harvest win).bind outcome

/-- What a match thread that stands at `pc` has before it, up to the next point at
which it holds nothing and wants no bucket. -/
def resume : Pc cfg τ → BucketCode cfg τ (Pc cfg τ)
  | .density win todo approx => (lengths todo approx).bind (afterDensity win)
  | .peek win todo anchor => ((peek todo anchor).bind (afterPeek win)).bind outcome
  | .drain windowLen pos todo taken =>
    ((drain windowLen pos todo taken).bind afterDrain).bind outcome
  | .rollback todo => (rollback todo).bind fun _ => .ret .idle
  | .giveBack todo => (returnGroup todo).bind fun _ => .ret .idle
  | pc => .ret pc

/-! ## The guards -/

theorem pushFront_guarded (b : Fin cfg.numBuckets) (p : Player τ) :
    (pushFront b p).Guarded (some b) (some b) :=
  ⟨rfl, fun _ => rfl⟩

theorem popLoop_guarded (b : Fin cfg.numBuckets) (taken : List (Fin cfg.numBuckets × Player τ)) :
    (popLoop b taken).Guarded (some b) (some b) :=
  ⟨rfl, fun _ => rfl⟩

theorem enqueue_guarded (p : Player τ) : (enqueue p : BucketCode cfg τ Unit).Guarded none none :=
  Code.withLock_guarded ⟨rfl, fun _ => rfl⟩

theorem snapshotPlayers_guarded (todo : List (Fin cfg.numBuckets)) :
    ∀ out : List (Player τ), (snapshotPlayers todo out).Guarded none none := by
  induction todo with
  | nil => exact fun _ => rfl
  | cons b todo ih => exact fun _ => (Code.withLock_guarded (Code.read_guarded b _)).bind ih

theorem lengths_guarded (todo : List (Fin cfg.numBuckets)) :
    ∀ approx, (lengths todo approx : BucketCode cfg τ Nat).Guarded none none := by
  induction todo with
  | nil => exact fun _ => rfl
  | cons b todo ih =>
    exact fun approx => (Code.withLock_guarded (Code.read_guarded b _)).bind fun len => ih _

theorem peek_guarded (todo : List (Fin cfg.numBuckets)) :
    ∀ anchor, (peek todo anchor : BucketCode cfg τ _).Guarded none none := by
  induction todo with
  | nil => exact fun _ => rfl
  | cons b todo ih => exact fun _ => (Code.withLock_guarded (Code.read_guarded b _)).bind ih

theorem rollback_guarded (todo : List (Fin cfg.numBuckets × Player τ)) :
    (rollback todo).Guarded none none := by
  induction todo with
  | nil => rfl
  | cons bp todo ih =>
    exact (Code.withLock_guarded (pushFront_guarded bp.1 bp.2)).bind fun _ => ih

theorem returnGroup_guarded (todo : List (Player τ)) :
    (returnGroup todo : BucketCode cfg τ Unit).Guarded none none := by
  induction todo with
  | nil => rfl
  | cons p todo ih => exact (Code.withLock_guarded (pushFront_guarded _ p)).bind fun _ => ih

/-- One iteration holds one guard, from `lock` or from `try_lock`; and the rollback of a
`try_lock` that failed holds none. -/
theorem drain_guarded (windowLen : Nat) (todo : List (Fin cfg.numBuckets)) :
    ∀ (pos : Nat) (taken : List (Fin cfg.numBuckets × Player τ)),
      (drain windowLen pos todo taken).Guarded none none := by
  induction todo with
  | nil => exact fun _ _ => rfl
  | cons b todo ih =>
    intro pos taken
    have hbody := Code.inScope_guarded (popLoop_guarded b taken)
    unfold drain
    split
    · rfl
    · split
      · exact ⟨rfl, hbody.bind fun taken' => ih _ taken',
          (rollback_guarded taken.reverse).bind fun _ => rfl⟩
      · exact (Code.withLock_guarded (popLoop_guarded b taken)).bind fun taken' => ih _ taken'

theorem afterDrain_guarded (result : Option (List (Fin cfg.numBuckets × Player τ))) :
    (afterDrain result).Guarded none none := by
  cases result with
  | none => rfl
  | some taken =>
    simp only [afterDrain]
    split
    · exact (rollback_guarded taken.reverse).bind fun _ => rfl
    · rfl

theorem afterPeek_guarded (win : List (Fin cfg.numBuckets))
    (anchor : Option (Fin cfg.numBuckets × Nat)) :
    (afterPeek win anchor : BucketCode cfg τ _).Guarded none none := by
  cases anchor with
  | none => rfl
  | some a => exact (drain_guarded win.length _ 0 []).bind afterDrain_guarded

theorem outcome_guarded (result : Option (MatchGroup τ)) :
    (outcome result : BucketCode cfg τ _).Guarded none none := by
  cases result <;> rfl

theorem afterDensity_guarded (win : List (Fin cfg.numBuckets)) (approx : Nat) :
    (afterDensity win approx : BucketCode cfg τ _).Guarded none none := by
  unfold afterDensity
  split
  · rfl
  · exact ((peek_guarded win none).bind (afterPeek_guarded win)).bind outcome_guarded

/-- **No function asks for a bucket while it holds one**, wherever a thread stands. -/
theorem resume_guarded (pc : Pc cfg τ) : (resume pc).Guarded none none := by
  cases pc with
  | density win todo approx => exact (lengths_guarded todo approx).bind (afterDensity_guarded win)
  | peek win todo anchor =>
    exact ((peek_guarded todo anchor).bind (afterPeek_guarded win)).bind outcome_guarded
  | drain windowLen pos todo taken =>
    exact ((drain_guarded windowLen todo pos taken).bind afterDrain_guarded).bind outcome_guarded
  | rollback todo => exact (rollback_guarded todo).bind fun _ => rfl
  | giveBack todo => exact (returnGroup_guarded todo).bind fun _ => rfl
  | idle | gate | commit | defer => rfl

end Locked

/-! ## The threads -/

/-- Who locks buckets. -/
inductive Thread (cfg : Config)
  | worker (w : Fin cfg.numWorkers)
  | ingestion
  | snapshotter
  deriving DecidableEq

/-- Where a thread is that wants no bucket. -/
inductive Pause (cfg : Config) (τ : Type)
  | worker (pc : Pc cfg τ)
  | ingestion
  | snapshotter

namespace Locked

/-- What a match thread runs from where it stands. -/
def worker (pc : Pc cfg τ) : BucketCode cfg τ (Pause cfg τ) :=
  (resume pc).bind fun pc => .ret (.worker pc)

/-- What the ingestion thread runs to place a player. -/
def ingestion (p : Player τ) : BucketCode cfg τ (Pause cfg τ) :=
  (enqueue p).bind fun _ => .ret .ingestion

/-- `snapshot_players`, with the buckets still to be copied. -/
def snapshotter (todo : List (Fin cfg.numBuckets)) (out : List (Player τ)) :
    BucketCode cfg τ (Pause cfg τ) :=
  (snapshotPlayers todo out).bind fun _ => .ret .snapshotter

/-- What a thread may do next when it wants no bucket. -/
inductive Goes : Thread cfg → Pause cfg τ → BucketCode cfg τ (Pause cfg τ) → Prop
  | worker {m m' : Matcher cfg τ} {w : Fin cfg.numWorkers} {e : WorkerEvent}
      (h : m.workerStep w e = some m') :
      Goes (.worker w) (.worker (m.workers w)) (Locked.worker (m'.workers w))
  | ingestion (p : Player τ) : Goes .ingestion .ingestion (Locked.ingestion p)
  | snapshotter : Goes .snapshotter .snapshotter (Locked.snapshotter (List.finRange _) [])

/-- Whatever a thread goes on with is guarded. -/
theorem Goes.guarded {t : Thread cfg} {a : Pause cfg τ} {p : BucketCode cfg τ (Pause cfg τ)}
    (h : Goes t a p) : p.Guarded none none := by
  cases h with
  | worker _ => exact (resume_guarded _).bind fun _ => rfl
  | ingestion p => exact (enqueue_guarded p).bind fun _ => rfl
  | snapshotter => exact (snapshotPlayers_guarded _ []).bind fun _ => rfl

/-- The buckets, their locks and the code of each thread. -/
abbrev LockState (cfg : Config) (τ : Type) :=
  Locks.State (Thread cfg) (Fin cfg.numBuckets) (List (Player τ)) (Pause cfg τ)

/-- Every lock is free, the match threads stand where `pcs` says. -/
def threads (bs : Buckets cfg τ) (pcs : Fin cfg.numWorkers → Pc cfg τ) : LockState cfg τ where
  store := bs
  owner := fun _ => none
  code
    | .worker w => worker (pcs w)
    | .ingestion => .ret .ingestion
    | .snapshotter => .ret .snapshotter

/-- Nobody holds a lock, and every thread is in guarded code. -/
theorem threads_orderly (bs : Buckets cfg τ) (pcs : Fin cfg.numWorkers → Pc cfg τ) :
    (threads bs pcs).Orderly := by
  intro t
  refine ⟨none, ?_, fun k => ⟨nofun, nofun⟩⟩
  cases t with
  | worker w => exact (resume_guarded (pcs w)).bind fun _ => rfl
  | ingestion | snapshotter => rfl

end Locked

/-- **No deadlock on bucket locks.** Whatever the configuration, the pool and the
interleaving: a thread that asks for a bucket's lock, with `lock` or `try_lock`,
holds no bucket's lock; the wait-for graph has no cycle; and whoever holds a lock
gives it up after a number of own steps, nobody being able to stop it. -/
theorem bucket_locks_acyclic {s : Locked.LockState cfg τ} {bs : Buckets cfg τ}
    (hrun : Lts.Run Locks.State.step (Locks.State.Follows Locked.Goes)
      (Locked.threads bs fun _ => .idle) s) :
    (∀ t b, (s.code t).requests = some b → ∀ c, s.owner c ≠ some t) ∧
    (∀ t, ¬ Relation.TransGen s.WaitsFor t t) ∧
    ∀ b t, s.owner b = some t →
      ∃ s', Lts.Run Locks.State.step (Locks.State.Moves t) s s' ∧ s'.owner b = none := by
  have ho : s.Orderly :=
    Locks.State.run_orderly (fun _ _ _ hgoes => hgoes.guarded) (Locked.threads_orderly bs _) hrun
  exact ⟨fun t b hask c => ho.not_holding hask c, ho.acyclic, fun b t => ho.exists_released⟩

/-! ## Steps and critical sections -/

namespace Locked

/-- A step of a match thread from `pc` to `pc'` in terms of its code: nothing that its
code tells apart, one critical section, a `try_lock` that fails, or something between
two functions that lock buckets. -/
inductive Section (bs : Buckets cfg τ) (pc : Pc cfg τ) (bs' : Buckets cfg τ) (pc' : Pc cfg τ) :
    Prop
  | silent (hb : bs' = bs) (h : worker pc' = worker pc)
  | locked {b : Fin cfg.numBuckets} {f : List (Player τ) → List (Player τ)}
      {g : List (Player τ) → Pc cfg τ}
      (h : (worker pc).Takes b (.access b f fun q => .drop b (worker (g q))))
      (hb : bs' = bs.set b (f (bs b))) (hpc : pc' = g (bs b))
  | busy {b : Fin cfg.numBuckets} {held : BucketCode cfg τ (Pause cfg τ)}
      (h : worker pc = .tryLock b held (worker pc')) (hb : bs' = bs)
  | pause (h : worker pc = .ret (.worker pc)) (hb : bs' = bs)

/-- A bucket of the drain order is locked, popped and released. -/
theorem worker_drain {windowLen pos : Nat} {b : Fin cfg.numBuckets}
    {todo : List (Fin cfg.numBuckets)} {taken : List (Fin cfg.numBuckets × Player τ)}
    (hfew : taken.length ≠ 10) :
    (worker (.drain windowLen pos (b :: todo) taken)).Takes b
      (.access b (fun q => (popUntilTen b q taken).1) fun q =>
        .drop b (worker (.drain windowLen (pos + 1) todo (popUntilTen b q taken).2))) := by
  show ((((drain windowLen pos (b :: todo) taken).bind afterDrain).bind outcome).bind _).Takes _ _
  rw [drain, if_neg hfew]
  split
  · exact Or.inr ⟨_, rfl⟩
  · exact Or.inl rfl

/-- A border bucket that is locked by another thread ends in a rollback. -/
theorem worker_border {windowLen pos : Nat} (b : Fin cfg.numBuckets)
    (todo : List (Fin cfg.numBuckets)) {taken : List (Fin cfg.numBuckets × Player τ)}
    (hfew : taken.length ≠ 10) (hborder : windowLen ≤ pos) :
    ∃ held, worker (.drain windowLen pos (b :: todo) taken)
      = .tryLock b held (worker (.rollback taken.reverse)) := by
  have hback : worker (.rollback taken.reverse)
      = ((((rollback taken.reverse).bind fun _ => .ret none).bind afterDrain).bind outcome).bind
        fun pc => .ret (.worker pc) := by
    simp only [Code.bind_assoc, Code.ret_bind]
    exact Code.bind_assoc _
  rw [hback]
  show ∃ held, (((drain windowLen pos (b :: todo) taken).bind afterDrain).bind outcome).bind _ = _
  rw [drain, if_neg hfew, if_pos hborder]
  exact ⟨_, rfl⟩

/-- The drain loop is over. -/
theorem worker_harvested {windowLen pos : Nat} {todo : List (Fin cfg.numBuckets)}
    {taken : List (Fin cfg.numBuckets × Player τ)} (hend : taken.length = 10 ∨ todo = []) :
    worker (Pc.harvested taken) = worker (.drain windowLen pos todo taken) := by
  have hdrain : drain windowLen pos todo taken = .ret (some taken) := by
    cases todo with
    | nil => rfl
    | cons b todo =>
      rw [drain, if_pos (hend.resolve_right (List.cons_ne_nil b todo))]
  have hworker : worker (.drain windowLen pos todo taken)
      = ((afterDrain (some taken)).bind outcome).bind fun pc => .ret (.worker pc) := by
    show (((drain windowLen pos todo taken).bind afterDrain).bind outcome).bind _ = _
    rw [hdrain]
    rfl
  rw [hworker]
  unfold Pc.harvested
  simp only [afterDrain]
  split
  · simp only [Code.bind_assoc, Code.ret_bind]
    exact Code.bind_assoc _
  · cases tryInto (taken.map Prod.snd) <;> rfl

/-- **A step of a harvest** is one critical section of its code, or nothing. -/
theorem act_section {bs bs' : Buckets cfg τ} {pc pc' : Pc cfg τ}
    (h : pc.act.result bs = some (bs', pc')) : Section bs pc bs' pc' := by
  cases pc with
  | peek win todo anchor =>
    cases todo with
    | nil => cases anchor <;> cases h <;> exact .silent rfl rfl
    | cons b todo =>
      cases h
      have hnext : ∀ q : List (Player τ), worker (Pc.peeked win b todo anchor q)
          = worker (.peek win todo (older b anchor q)) := by
        intro q
        unfold Pc.peeked older
        cases q with
        | nil => rfl
        | cons front q =>
          simp only
          split <;> rfl
      refine .locked (b := b) (f := id) (g := Pc.peeked win b todo anchor) (Or.inl ?_)
        (Function.update_eq_self b bs).symm rfl
      simp only [hnext]
      rfl
  | drain windowLen pos todo taken =>
    simp only [Pc.act] at h
    split at h
    next hten =>
      cases h
      exact .silent rfl (worker_harvested (Or.inl hten))
    next hfew =>
      cases todo with
      | nil =>
        cases h
        exact .silent rfl (worker_harvested (Or.inr rfl))
      | cons b rest =>
        cases h
        exact .locked (g := fun q => .drain windowLen (pos + 1) rest (popUntilTen b q taken).2)
          (worker_drain hfew) rfl rfl
  | rollback todo =>
    cases todo with
    | nil =>
      cases h
      exact .silent rfl rfl
    | cons bp todo =>
      cases h
      exact .locked (g := fun _ => .rollback todo) (Or.inl rfl) rfl rfl
  | _ => cases h

/-- **A step of the loop** is one critical section of its code, or nothing. -/
theorem workerRun_section {m m' : Matcher cfg τ} {w : Fin cfg.numWorkers}
    (h : m.workerRun w = some m') :
    Section m.buckets (m.workers w) m'.buckets (m'.workers w) := by
  by_cases hcall : (m.workers w).Harvesting
  · have hstep : m.step (.worker w .run) = some m' := h
    rw [Matcher.step_act hcall] at hstep
    obtain ⟨s, hs, rfl⟩ := Option.map_eq_some_iff.mp hstep
    obtain ⟨pc', hresult, hcalls⟩ := Serial.step_eq_some.mp hs
    show Section m.buckets _ s.store (s.calls w)
    rw [hcalls, Function.update_self]
    exact act_section hresult
  · unfold Matcher.workerRun at h
    cases hpc : m.workers w with
    | idle =>
      simp only [hpc, Option.some.injEq] at h
      subst h
      exact .pause rfl rfl
    | density win todo approx =>
      cases todo with
      | nil =>
        simp only [hpc, Option.some.injEq] at h
        subst h
        refine .silent rfl ?_
        show worker (Function.update m.workers w _ w) = (afterDensity win approx).bind _
        rw [Function.update_self]
        unfold afterDensity
        split <;> rfl
      | cons b todo =>
        simp only [hpc, Option.some.injEq] at h
        subst h
        refine .locked (f := id) (g := fun q => .density win todo (approx + q.length))
          (Or.inl rfl) (Function.update_eq_self b m.buckets).symm ?_
        exact Function.update_self ..
    | gate g =>
      simp only [hpc, Option.some.injEq] at h
      subst h
      refine .pause rfl ?_
      simp only [Matcher.gateStep]
      split <;> rfl
    | giveBack todo =>
      cases todo with
      | nil =>
        simp only [hpc, Option.some.injEq] at h
        subst h
        refine .silent rfl ?_
        show worker (Function.update m.workers w _ w) = _
        rw [Function.update_self]
        rfl
      | cons p todo =>
        simp only [hpc, Option.some.injEq] at h
        subst h
        exact .locked (g := fun _ => .giveBack todo) (Or.inl rfl) rfl (Function.update_self ..)
    | commit => simp only [hpc, reduceCtorEq] at h
    | defer f =>
      simp only [hpc, Option.some.injEq] at h
      subst h
      exact .pause rfl rfl
    | peek | drain | rollback =>
      rw [hpc] at hcall
      exact absurd trivial hcall

/-- **A step of a match thread** in terms of its code. -/
theorem workerStep_section {m m' : Matcher cfg τ} {w : Fin cfg.numWorkers} {e : WorkerEvent}
    (h : m.workerStep w e = some m') :
    Section m.buckets (m.workers w) m'.buckets (m'.workers w) := by
  cases e with
  | run => exact workerRun_section h
  | busy =>
    simp only [Matcher.workerStep] at h
    split at h
    next windowLen pos b todo taken hpc =>
      split at h
      next hborder =>
        simp only [Option.some.injEq] at h
        subst h
        obtain ⟨held, hcode⟩ := worker_border b todo hborder.1 hborder.2
        rw [hpc]
        show Section _ _ m.buckets (Function.update m.workers w _ w)
        rw [Function.update_self]
        exact .busy hcode rfl
      next => cases h
    next => cases h
  | cmd ok =>
    simp only [Matcher.workerStep] at h
    split at h
    next hpc =>
      simp only [Option.some.injEq] at h
      subst h
      rw [hpc]
      exact .pause rfl rfl
    next => cases h
  | reply ok =>
    simp only [Matcher.workerStep] at h
    split at h
    next hpc =>
      rw [hpc]
      split at h
      · split at h <;> simp only [Option.some.injEq, reduceCtorEq] at h
        subst h
        exact .pause rfl rfl
      · split at h <;> simp only [Option.some.injEq] at h <;> subst h <;> exact .pause rfl rfl
    next => cases h

/-- The threads after thread `w` has moved. -/
theorem threads_update (bs : Buckets cfg τ) (pcs : Fin cfg.numWorkers → Pc cfg τ)
    (w : Fin cfg.numWorkers) (pc : Pc cfg τ) :
    (threads bs pcs).setCode (.worker w) (worker pc) = threads bs (Function.update pcs w pc) := by
  have hcode : Function.update (threads bs pcs).code (.worker w) (worker pc)
      = (threads bs (Function.update pcs w pc)).code := by
    funext t
    cases t with
    | worker u =>
      show _ = worker (Function.update pcs w pc u)
      by_cases hu : u = w
      · rw [hu, Function.update_self, Function.update_self]
      · have hne : (.worker u : Thread cfg) ≠ .worker w := fun heq => hu (Thread.worker.inj heq)
        rw [Function.update_of_ne hu, Function.update_of_ne hne]
        rfl
    | ingestion | snapshotter =>
      rw [Function.update_of_ne (fun heq => by cases heq)]
      rfl
  unfold Locks.State.setCode
  rw [hcode]
  rfl

/-- The snapshotter copies some buckets. -/
theorem run_copies (todo rest : List (Fin cfg.numBuckets)) :
    ∀ (out : List (Player τ)) {s : LockState cfg τ}, (∀ b, s.owner b = none) →
      s.code .snapshotter = snapshotter (todo ++ rest) out →
      ∃ out', Lts.Run Locks.State.step (Locks.State.Moves .snapshotter) s
        (s.setCode .snapshotter (snapshotter rest out')) := by
  induction todo with
  | nil =>
    intro out s hfree hcode
    have hcode : s.code .snapshotter = snapshotter rest out := hcode
    refine ⟨out, ?_⟩
    rw [s.setCode_self hcode]
    exact .refl
  | cons b todo ih =>
    intro out s hfree hcode
    have hone := Locks.State.run_section (s := s) (t := .snapshotter) (k := b) (f := id)
      (g := fun q => snapshotter (todo ++ rest) (out ++ q)) (Or.inl hcode) (hfree b)
    rw [id_eq, s.setStore_self] at hone
    obtain ⟨out', hrun⟩ := ih (out ++ s.store b)
      (s := s.setCode .snapshotter (snapshotter (todo ++ rest) (out ++ s.store b))) hfree
      (Locks.State.setCode_code ..)
    rw [Locks.State.setCode_setCode] at hrun
    exact ⟨out', hone.trans hrun⟩

/-- **A border bucket can be locked by someone else**: the snapshotter holds it while the
match thread tries. -/
theorem run_busy {bs : Buckets cfg τ} {pcs : Fin cfg.numWorkers → Pc cfg τ}
    {w : Fin cfg.numWorkers} {b : Fin cfg.numBuckets} {held : BucketCode cfg τ (Pause cfg τ)}
    {pc : Pc cfg τ} (h : worker (pcs w) = .tryLock b held (worker pc)) :
    Lts.Run Locks.State.step (Locks.State.Follows Goes) (threads bs pcs)
      (threads bs (Function.update pcs w pc)) := by
  have hne : (.worker w : Thread cfg) ≠ .snapshotter := nofun
  obtain ⟨before, after, hsplit⟩ := List.append_of_mem (List.mem_finRange b)
  have hbegin : Lts.Run Locks.State.step (Locks.State.Follows Goes) (threads bs pcs)
      ((threads bs pcs).setCode .snapshotter (snapshotter (List.finRange _) [])) := by
    refine .single (e := .resume .snapshotter (snapshotter (List.finRange _) [])) ?_ rfl
    intro a ha
    cases ha
    exact .snapshotter
  rw [hsplit] at hbegin
  -- the snapshotter gets to the bucket and locks it
  obtain ⟨out, hbefore⟩ := run_copies before (b :: after) []
    (s := (threads bs pcs).setCode .snapshotter (snapshotter (before ++ b :: after) []))
    (fun _ => rfl) (Locks.State.setCode_code ..)
  rw [Locks.State.setCode_setCode] at hbefore
  have htake := Locks.State.step_take
    (s := (threads bs pcs).setCode .snapshotter (snapshotter (b :: after) out)) (t := .snapshotter)
    (k := b) (p := .access b id fun q => .drop b (snapshotter after (out ++ q)))
    (Or.inl (Locks.State.setCode_code ..)) rfl
  rw [Locks.State.setOwner_setCode, Locks.State.setCode_setCode] at htake
  -- the match thread finds it locked
  have hfail := Locks.State.step_busy (t := .worker w)
    (s := ((threads bs pcs).setOwner b (some .snapshotter)).setCode .snapshotter
      (.access b id fun q => .drop b (snapshotter after (out ++ q))))
    ((Locks.State.setCode_code_of_ne _ hne _).trans h)
    (by
      show Function.update (fun _ => none) b (some Thread.snapshotter) b ≠ none
      rw [Function.update_self]
      exact nofun)
  have hmoved : ((threads bs pcs).setOwner b (some .snapshotter)).setCode (.worker w) (worker pc)
      = (threads bs (Function.update pcs w pc)).setOwner b (some .snapshotter) := by
    rw [← threads_update]
    rfl
  rw [Locks.State.setCode_comm _ hne.symm, hmoved] at hfail
  have hheld := Locks.State.run_held (s := threads bs (Function.update pcs w pc))
    (t := .snapshotter) (k := b) (f := id) (g := fun q => snapshotter after (out ++ q)) rfl
  rw [id_eq, Locks.State.setStore_self] at hheld
  -- the snapshotter goes on to the end
  obtain ⟨out', hafter⟩ := run_copies after [] (out ++ bs b)
    (s := (threads bs (Function.update pcs w pc)).setCode .snapshotter
      (snapshotter after (out ++ bs b))) (fun _ => rfl) (by
        rw [List.append_nil]
        exact Locks.State.setCode_code ..)
  have hend : (threads bs (Function.update pcs w pc)).setCode .snapshotter (snapshotter [] out')
      = threads bs (Function.update pcs w pc) := Locks.State.setCode_self _ rfl
  rw [Locks.State.setCode_setCode, hend] at hafter
  have hlocked := (hbegin.trans (hbefore.mono Locks.State.follows_of_moves)).tail
    (Locks.State.follows_of_moves (t := .snapshotter) rfl) htake
  exact (hlocked.tail (Locks.State.follows_of_moves (t := .worker w) rfl) hfail).trans
    ((hheld.trans hafter).mono Locks.State.follows_of_moves)

/-- **A step of a match thread is a run of its code.** -/
theorem run_section {m m' : Matcher cfg τ} {w : Fin cfg.numWorkers} {e : WorkerEvent}
    (h : m.workerStep w e = some m') :
    Lts.Run Locks.State.step (Locks.State.Follows Goes) (threads m.buckets m.workers)
      (threads m'.buckets m'.workers) := by
  obtain ⟨pc, hworkers⟩ := (workerStep_frame h).workers
  have hsection := workerStep_section h
  have hpc : m'.workers w = pc := by rw [hworkers, Function.update_self]
  rw [hpc] at hsection
  rw [hworkers]
  cases hsection with
  | silent hb hcode =>
    have hsame := (threads m.buckets m.workers).setCode_self (t := .worker w)
      (p := worker (m.workers w)) rfl
    rw [hb, ← threads_update, hcode, hsame]
    exact .refl
  | locked hcode hb hnext =>
    have hrun := Locks.State.run_section (s := threads m.buckets m.workers) (t := .worker w)
      hcode rfl
    rw [hb, hnext, ← threads_update]
    exact hrun.mono Locks.State.follows_of_moves
  | busy hcode hb =>
    rw [hb]
    exact run_busy hcode
  | pause hcode hb =>
    rw [hb, ← threads_update, ← hpc]
    refine .single (e := .resume (.worker w) (worker (m'.workers w))) ?_ ?_
    · intro a ha
      have ha : worker (m.workers w) = .ret a := ha
      rw [hcode] at ha
      cases ha
      exact .worker h
    · show Locks.State.step _ _ = _
      simp only [Locks.State.step]
      split
      · rfl
      next hnot => exact absurd hcode (hnot _)

/-- An arrival is a run of the ingestion thread's code. -/
theorem run_enqueue (bs : Buckets cfg τ) (pcs : Fin cfg.numWorkers → Pc cfg τ) (p : Player τ) :
    Lts.Run Locks.State.step (Locks.State.Follows Goes) (threads bs pcs)
      (threads (bs.enqueue p) pcs) := by
  have hbegin : Lts.Run Locks.State.step (Locks.State.Follows Goes) (threads bs pcs)
      ((threads bs pcs).setCode .ingestion (ingestion p)) := by
    refine .single (e := .resume .ingestion (ingestion p)) ?_ rfl
    intro a ha
    cases ha
    exact .ingestion p
  have hplace := Locks.State.run_section (s := (threads bs pcs).setCode .ingestion (ingestion p))
    (t := .ingestion) (k := bucketIndex cfg p.rating) (f := fun q => q ++ [p])
    (g := fun _ => .ret .ingestion) (Or.inl (Locks.State.setCode_code ..)) rfl
  have hend : ((threads bs pcs).setStore (bucketIndex cfg p.rating)
      (bs (bucketIndex cfg p.rating) ++ [p])).setCode .ingestion (.ret .ingestion)
      = threads (bs.enqueue p) pcs := Locks.State.setCode_self _ rfl
  rw [Locks.State.setStore_setCode, Locks.State.setCode_setCode] at hplace
  rw [← hend]
  exact hbegin.trans (hplace.mono Locks.State.follows_of_moves)

end Locked

/-- **The matcher's runs are runs of this code.** -/
theorem run_locked {m m' : Matcher cfg τ} (h : Lts.Run Matcher.step Lts.Free m m') :
    Lts.Run Locks.State.step (Locks.State.Follows Locked.Goes)
      (Locked.threads m.buckets m.workers) (Locked.threads m'.buckets m'.workers) := by
  refine h.map (I := fun _ => True) (fun m => Locked.threads m.buckets m.workers)
    (fun _ _ _ => trivial) (fun {a e b} _ _ hs => ?_) trivial
  cases e with
  | enqueue id rating origin =>
    cases hs
    exact Locked.run_enqueue a.buckets a.workers _
  | counted | tick =>
    cases hs
    exact .refl
  | worker w e => exact Locked.run_section hs
  | retry e =>
    have hframe := retryStep_frame hs
    rw [hframe.buckets, hframe.workers]
    exact .refl

/-- The bucket whose length the thread asks for next. -/
def Pc.counts : Pc cfg τ → Option (Fin cfg.numBuckets)
  | .density _ (b :: _) _ => some b
  | _ => none

theorem Pc.eq_density {pc : Pc cfg τ} {b : Fin cfg.numBuckets} (h : pc.counts = some b) :
    ∃ win todo approx, pc = .density win (b :: todo) approx := by
  cases pc with
  | density win todo approx =>
    cases todo with
    | nil => cases h
    | cons c todo =>
      cases h
      exact ⟨win, todo, approx, rfl⟩
  | _ => cases h

/-- Two threads begin with the same window; one waits for the other, and that is all. -/
theorem bucket_locks_acyclic_pair : ∃ s : Locked.LockState Config.pair Nat,
    s.WaitsFor (.worker secondThread) (.worker firstThread) ∧
    ∀ t, ¬ Relation.TransGen s.WaitsFor t t := by
  have hexec : (Lts.exec Matcher.step (fun _ _ => true) (Matcher.init Config.pair Nat 0)
      [.worker firstThread .run, .worker secondThread .run]).any (fun m =>
        (m.workers firstThread).counts.any fun b =>
          (m.workers secondThread).counts.any fun c => b = c) = true := by
    decide +kernel
  obtain ⟨m, hrun, hm⟩ := Lts.exists_run_of_exec hexec
  obtain ⟨b, hfirst, hm⟩ := (Option.any_eq_true ..).mp hm
  obtain ⟨c, hsecond, hm⟩ := (Option.any_eq_true ..).mp hm
  obtain rfl : b = c := of_decide_eq_true hm
  obtain ⟨win, todo, approx, hfirst⟩ := Pc.eq_density hfirst
  obtain ⟨win', todo', approx', hsecond⟩ := Pc.eq_density hsecond
  have hcode : ((Locked.threads m.buckets m.workers).code (.worker firstThread)).Takes b
      (.access b id fun q =>
        .drop b (Locked.worker (.density win todo (approx + q.length)))) := by
    show (Locked.worker (m.workers firstThread)).Takes b _
    rw [hfirst]
    exact Or.inl rfl
  have hne : (.worker secondThread : Thread Config.pair) ≠ .worker firstThread := by decide
  have htake := Locks.State.step_take (s := Locked.threads m.buckets m.workers) hcode rfl
  have hreached := (run_locked hrun.free).tail
    (Locks.State.follows_of_moves (t := .worker firstThread) rfl) htake
  refine ⟨_, ⟨b, ?_, Function.update_self ..⟩, (bucket_locks_acyclic hreached).2.1⟩
  rw [Locks.State.setCode_code_of_ne _ hne]
  show (Locked.worker (m.workers secondThread)).awaits = some b
  rw [hsecond]
  rfl

end Supermatchmaker
