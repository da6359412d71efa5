import Supermatchmaker.Matcher.Split

/-!
# Match threads and the retry thread

`run_worker`, `harvest`, `rollback`, `return_group` and `run_retry_worker` from
`matcher.rs`, over the memory the threads of one process share.

A thread is a program counter (`Pc`, `RetryPc`) that carries the thread's local
variables. One step runs it from one scheduling point to the next, and there is
a scheduling point at every access to shared memory: each bucket-lock critical
section, each access to the retry queue, each Redis command of a commit is a
step of its own, and anything may happen between two of them. A lock is thus
never held between steps; a `try_lock` that finds its bucket locked is the event
`busy`, possible at every border bucket.

Mirroring notes:
- `Pc.drain` is the loop over `drain_order`, `todo` the rest of it and `pos` the
  position of its head; `Pc.rollback` and `Pc.giveBack` are the loops of
  `rollback` and `return_group`, over the reversed lists.
- `density` sums the lengths of the window and of its borders in one list,
  bucket by bucket as the source does.
- The wait of the gate is read once per step (the source reads the clock for
  each of the ten players).
- `commit_match` sends its commands in one pipeline. Redis runs them one by one
  and other clients in between; `cmd ok` is one of them executed (`ok`) or not
  (refused, or the connection is gone). The caller sees `Ok` only when all were
  executed, and may see `Err` even then (`reply false`). Commands not executed by then
  never are, though Redis may still run what it has received by the time.
- `thread::sleep` is no step: the clock moves by `tick`.

The ghosts `enqueued`, `formed` and `drawn` record what happened since the
process started: the calls of `enqueue`, the groups accepted, the match ids
taken.
-/

namespace Supermatchmaker

/-- The payload of `mm:status:{user_id}`. -/
inductive Status
  | queued
  | matched (matchId : UInt64) (teamA teamB : List Int64)
  deriving DecidableEq, Repr

/-- An accepted group. `group` and `ordinal` (how many ids the process had drawn
before) are ghosts. -/
structure Formed (τ : Type) where
  result : MatchResult
  group : MatchGroup τ
  ordinal : Nat
  deriving DecidableEq, Repr

-- named, for the membership tests of all modules
instance {τ : Type} [DecidableEq τ] : LawfulBEq (Formed τ) := inferInstance

/-- One command of the commit pipeline. -/
inductive Command (τ : Type)
  | setStatus (user : Int64) (payload : Status)
  | xaddSync (m : Formed τ)
  deriving DecidableEq

/-- `commit_match`: ten `SET` and one `XADD`. -/
def commitMatch {τ : Type} (m : Formed τ) : List (Command τ) :=
  let payload := Status.matched m.result.matchId (m.result.teamA.map Prod.fst)
    (m.result.teamB.map Prod.fst)
  (m.result.teamA ++ m.result.teamB).map (fun (uid, _) => .setStatus uid payload)
    ++ [.xaddSync m]

/-- `PendingCommit`. -/
structure PendingCommit (τ : Type) where
  result : Formed τ
  attempts : Nat
  deriving DecidableEq

/-- The counters of `metrics.rs` that the modelled threads touch. -/
structure Metrics where
  playersEnqueued : UInt64
  waiting : UInt64
  matchesFormed : UInt64
  totalQueueMicros : UInt64
  spreadSum : UInt64
  commitDeferred : UInt64
  commitRetryAttempts : UInt64
  commitRetrySuccess : UInt64
  deriving DecidableEq, Repr

/-- `Metrics::default()`: all counters at 0. -/
def Metrics.zero : Metrics := ⟨0, 0, 0, 0, 0, 0, 0, 0⟩

section Definitions

variable (cfg : Config) (τ : Type)

/-- Where a match thread stands. -/
inductive Pc
  /-- top of the loop -/
  | idle
  /-- density check: buckets still to be counted -/
  | density (window todo : List (Fin cfg.numBuckets)) (approx : Nat)
  /-- three-way peek: buckets still to be looked at, `anchor_bucket` and `oldest` -/
  | peek (window todo : List (Fin cfg.numBuckets)) (anchor : Option (Fin cfg.numBuckets × Nat))
  | drain (windowLen pos : Nat) (todo : List (Fin cfg.numBuckets))
      (taken : List (Fin cfg.numBuckets × Player τ))
  | rollback (todo : List (Fin cfg.numBuckets × Player τ))
  /-- `harvest` returned a group -/
  | gate (group : MatchGroup τ)
  | giveBack (todo : List (Player τ))
  /-- `attempt`-th inline `commit_match`; `clean` while no command failed -/
  | commit (m : Formed τ) (attempt : Nat) (todo : List (Command τ)) (clean : Bool)
  /-- both inline attempts failed: about to push to the retry queue -/
  | defer (m : Formed τ)

/-- Where the retry thread stands. -/
inductive RetryPc
  | idle
  | commit (p : PendingCommit τ) (todo : List (Command τ)) (clean : Bool)
  /-- backing off, about to requeue -/
  | backoff (p : PendingCommit τ)

/-- The memory of one process: `Pool`, the shared counters, the retry queue and
the threads' program counters. -/
structure Matcher where
  buckets : Buckets cfg τ
  workers : Fin cfg.numWorkers → Pc cfg τ
  ticket : UInt64
  nextMatchId : UInt64
  metrics : Metrics
  retryQ : List (PendingCommit τ)
  retry : RetryPc τ
  now : Nat
  /-- ghost -/
  enqueued : List (Player τ)
  /-- ghost -/
  formed : List (Formed τ)
  /-- ghost -/
  drawn : Nat

end Definitions

variable {cfg : Config} {τ : Type}

/-- Startup: `Pool::new`, `next_match_id` at 1, no commit pending. -/
def Matcher.init (cfg : Config) (τ : Type) (now : Nat) : Matcher cfg τ where
  buckets := fun _ => []
  workers := fun _ => .idle
  ticket := 0
  nextMatchId := 1
  metrics := .zero
  retryQ := []
  retry := .idle
  now := now
  enqueued := []
  formed := []
  drawn := 0

/-! ## Windows -/

/-- `(0..stride).map(|k| (start + k) % total)`. -/
def window (cfg : Config) (start : Nat) : List (Fin cfg.numBuckets) :=
  (List.range cfg.stride).map fun k =>
    ⟨(start + k) % cfg.numBuckets, Nat.mod_lt _ cfg.numBuckets_pos⟩

/-- The one or two buckets past `edge` that exist. -/
def borders (cfg : Config) (edge : Nat) : List (Fin cfg.numBuckets) :=
  [edge + 1, edge + 2].filterMap fun b =>
    if h : b < cfg.numBuckets then some ⟨b, h⟩ else none

/-- `window.iter().max().unwrap_or(0)`. -/
def edge (window : List (Fin cfg.numBuckets)) : Nat :=
  window.foldl (fun m b => max m b.val) 0

/-- Anchor first, then the rest of the window in ascending order, then the
borders of its last bucket. -/
def drainOrder (window : List (Fin cfg.numBuckets)) (anchor : Fin cfg.numBuckets) :
    List (Fin cfg.numBuckets) :=
  let windowSorted := window.insertionSort (· ≤ ·)
  anchor :: windowSorted.filter (· ≠ anchor)
    ++ (windowSorted.getLast?.map fun b => borders cfg b.val).getD []

/-- `while taken.len() < 10 { match guard.pop_front() .. }` under one lock:
what is left of the queue, and `taken`. -/
def popUntilTen {β : Type} (bi : β) :
    List (Player τ) → List (β × Player τ) → List (Player τ) × List (β × Player τ)
  | [], taken => ([], taken)
  | p :: q, taken =>
    if taken.length < 10 then popUntilTen bi q (taken ++ [(bi, p)]) else (p :: q, taken)

/-! ## Where a match thread is -/

/-- The thread is at the top of its loop. -/
def Pc.isIdle : Pc cfg τ → Bool
  | .idle => true
  | _ => false

/-- The group at the gate. -/
def Pc.gated : Pc cfg τ → Option (MatchGroup τ)
  | .gate g => some g
  | _ => none

theorem Pc.eq_idle {pc : Pc cfg τ} (h : pc.isIdle = true) : pc = .idle := by
  cases pc with
  | idle => rfl
  | _ => cases h

theorem Pc.eq_gate {pc : Pc cfg τ} {g : MatchGroup τ} (h : pc.gated = some g) : pc = .gate g := by
  cases pc with
  | gate g' => exact congrArg Pc.gate (Option.some.inj h)
  | _ => cases h

/-! ## One step of a match thread -/

/-- What the scheduler decides for a match thread. -/
inductive WorkerEvent
  /-- run to the next scheduling point -/
  | run
  /-- the `try_lock` on a border bucket fails -/
  | busy
  /-- Redis executes the next command of the pipeline, or not -/
  | cmd (ok : Bool)
  /-- `commit_match` returns -/
  | reply (ok : Bool)
  deriving DecidableEq, Repr

namespace Matcher

variable (m : Matcher cfg τ)

/-- One thread moves on. -/
def setPc (w : Fin cfg.numWorkers) (pc : Pc cfg τ) : Matcher cfg τ :=
  { m with workers := Function.update m.workers w pc }

/-- One bucket gets a new queue. -/
def setBucket (b : Fin cfg.numBuckets) (q : List (Player τ)) : Matcher cfg τ :=
  { m with buckets := m.buckets.set b q }

/-- Claim the next window: `ticket.fetch_add(stride) % total`. -/
def takeTicket (w : Fin cfg.numWorkers) : Matcher cfg τ :=
  let win := window cfg (m.ticket.toNat % cfg.numBuckets)
  { m with ticket := m.ticket + UInt64.ofNat cfg.stride }.setPc w
    (.density win (win ++ borders cfg (edge win)) 0)

/-- The drain loop is over: a group, or everything back. -/
def harvested (w : Fin cfg.numWorkers) (taken : List (Fin cfg.numBuckets × Player τ)) :
    Matcher cfg τ :=
  if taken.length < 10 then m.setPc w (.rollback taken.reverse)
  else match tryInto (taken.map Prod.snd) with
    | some g => m.setPc w (.gate g)
    | none => m.setPc w .idle

/-- The longest wait of the group's members. -/
def anchorWait (g : MatchGroup τ) : Nat :=
  (g.toList.map fun p => m.now - p.enqueuedAt).foldl max 0

/-- Phase 2: draw an id, split, and pass the tolerance gate or not. -/
def gateStep (w : Fin cfg.numWorkers) (g : MatchGroup τ) : Matcher cfg τ :=
  let tMax := maxTeamGap (m.anchorWait g)
  let (result, gap) := optimizeSplit g m.nextMatchId
  let m' := { m with nextMatchId := m.nextMatchId + 1, drawn := m.drawn + 1 }
  if gap ≤ tMax then
    let f : Formed τ := ⟨result, g, m.drawn⟩
    let waitSum := (g.toList.map fun p =>
      UInt64.ofNat ((m.now - p.enqueuedAt) / 1000)).foldl (· + ·) 0
    { m' with
      formed := m.formed ++ [f]
      metrics := { m.metrics with
        matchesFormed := m.metrics.matchesFormed + 1
        totalQueueMicros := m.metrics.totalQueueMicros + waitSum
        spreadSum := m.metrics.spreadSum + gap.toUInt64
        waiting := m.metrics.waiting - 10 } }.setPc w (.commit f 1 (commitMatch f) true)
  else m'.setPc w (.giveBack g.toList.reverse)

/-- From one scheduling point of the loop to the next. -/
def workerRun (w : Fin cfg.numWorkers) : Option (Matcher cfg τ) :=
  match m.workers w with
  | .idle => some (m.takeTicket w)
  | .density win (b :: todo) approx =>
    some (m.setPc w (.density win todo (approx + (m.buckets b).length)))
  | .density win [] approx =>
    some (m.setPc w (if approx < 10 then .idle else .peek win win none))
  | .peek win (b :: todo) anchor =>
    match m.buckets b with
    | [] => some (m.setPc w (.peek win todo anchor))
    | front :: _ =>
      -- the first front seen, then every strictly older one
      if anchor.all fun a => front.enqueuedAt < a.2 then
        some (m.setPc w (.peek win todo (some (b, front.enqueuedAt))))
      else some (m.setPc w (.peek win todo anchor))
  | .peek _ [] none => some (m.setPc w .idle)
  | .peek win [] (some (a, _)) => some (m.setPc w (.drain win.length 0 (drainOrder win a) []))
  | .drain windowLen pos todo taken =>
    if taken.length = 10 then some (m.harvested w taken)
    else match todo with
      | [] => some (m.harvested w taken)
      | b :: rest =>
        let (q, taken') := popUntilTen b (m.buckets b) taken
        some ((m.setBucket b q).setPc w (.drain windowLen (pos + 1) rest taken'))
  | .rollback [] => some (m.setPc w .idle)
  | .rollback ((b, p) :: todo) =>
    some ((m.setBucket b (p :: m.buckets b)).setPc w (.rollback todo))
  | .gate g => some (m.gateStep w g)
  | .giveBack [] => some (m.setPc w .idle)
  | .giveBack (p :: todo) =>
    let idx := bucketIndex cfg p.rating
    some ((m.setBucket idx (p :: m.buckets idx)).setPc w (.giveBack todo))
  | .commit .. => none
  | .defer f =>
    some ({ m with
      retryQ := m.retryQ ++ [(⟨f, 2⟩ : PendingCommit τ)]
      metrics := { m.metrics with commitDeferred := m.metrics.commitDeferred + 1 } }.setPc w .idle)

/-- One step of a match thread, or none if it is not at a point where this can happen. -/
def workerStep (w : Fin cfg.numWorkers) : WorkerEvent → Option (Matcher cfg τ)
  | .run => m.workerRun w
  | .busy =>
    match m.workers w with
    | .drain windowLen pos (_ :: _) taken =>
      if taken.length ≠ 10 ∧ windowLen ≤ pos then some (m.setPc w (.rollback taken.reverse))
      else none
    | _ => none
  | .cmd ok =>
    match m.workers w with
    | .commit f attempt (_ :: todo) clean => some (m.setPc w (.commit f attempt todo (clean && ok)))
    | _ => none
  | .reply ok =>
    match m.workers w with
    | .commit f attempt todo clean =>
      if ok then if todo = [] ∧ clean then some (m.setPc w .idle) else none
      else if attempt < 2 then some (m.setPc w (.commit f (attempt + 1) (commitMatch f) true))
      else some (m.setPc w (.defer f))
    | _ => none

/-! ## One step of the retry thread -/

/-- The retry thread between two commits: take the oldest, or put the one that failed back. -/
def retryRun : Option (Matcher cfg τ) :=
  match m.retry with
  | .idle =>
    match m.retryQ with
    | [] => some m
    | p :: rest => some { m with retryQ := rest, retry := .commit p (commitMatch p.result) true }
  | .commit .. => none
  | .backoff p => some { m with retryQ := m.retryQ ++ [p], retry := .idle }

/-- One step of the retry thread. -/
def retryStep : WorkerEvent → Option (Matcher cfg τ)
  | .run => m.retryRun
  | .busy => none
  | .cmd ok =>
    match m.retry with
    | .commit p (_ :: todo) clean => some { m with retry := .commit p todo (clean && ok) }
    | _ => none
  | .reply ok =>
    match m.retry with
    | .commit p todo clean =>
      if ok then
        if todo = [] ∧ clean then
          some { m with
            retry := .idle
            metrics := { m.metrics with
              commitRetrySuccess := m.metrics.commitRetrySuccess + 1 } }
        else none
      else some { m with
        retry := .backoff ⟨p.result, p.attempts + 1⟩
        metrics := { m.metrics with
          commitRetryAttempts := m.metrics.commitRetryAttempts + 1 } }
    | _ => none

/-- `Pool::enqueue` by the ingestion thread (or by `restore_players`). -/
def enqueue (id : Int64) (rating : UInt32) (origin : τ) : Matcher cfg τ :=
  let p : Player τ := ⟨id, rating, m.now, m.enqueued.length, origin⟩
  { m with buckets := m.buckets.enqueue p, enqueued := m.enqueued ++ [p] }

end Matcher

/-- What can happen to the memory of a process. -/
inductive MatcherEvent (cfg : Config) (τ : Type)
  | enqueue (id : Int64) (rating : UInt32) (origin : τ)
  /-- the ingestion thread's `fetch_add` after an `enqueue` -/
  | counted
  | worker (w : Fin cfg.numWorkers) (e : WorkerEvent)
  | retry (e : WorkerEvent)
  | tick (nanos : Nat)

namespace Matcher

variable (m : Matcher cfg τ)

/-- `players_enqueued` and `waiting` go up by `n`. -/
def count (n : UInt64) : Matcher cfg τ :=
  { m with metrics := { m.metrics with
      playersEnqueued := m.metrics.playersEnqueued + n
      waiting := m.metrics.waiting + n } }

/-- One step of one of the threads, or time passes. -/
def step : MatcherEvent cfg τ → Option (Matcher cfg τ)
  | .enqueue id rating origin => some (m.enqueue id rating origin)
  | .counted => some (m.count 1)
  | .worker w e => m.workerStep w e
  | .retry e => m.retryStep e
  | .tick nanos => some { m with now := m.now + nanos }

end Matcher

end Supermatchmaker
