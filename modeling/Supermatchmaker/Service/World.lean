import Supermatchmaker.Ingest.Loop
import Supermatchmaker.Matcher.Worker
import Supermatchmaker.Sync.Poller

/-!
# The service

`main.rs` put together: the threads of one process (ingestion, match threads,
retry thread, snapshotter, poller), the HTTP calls in progress, and what
outlives the process (Redis, Postgres, the snapshot directory). One step is one
step of one of them, so a run is an interleaving, over any number of process
lifetimes: `restart` is the death of the process at any point followed by the
boot of the next.

Mirroring notes:
- `request user` is a `POST /queue/{id}` that passed the bearer check; the call
  then takes one step for each command it sends.
- The two status writers and the sync stream are the targets of `commit_match`;
  each of its commands takes effect when it is executed, not when the caller
  learns about it. After `Err` the rest of the pipeline is not executed any more,
  though Redis may still run commands that have reached it.
- A snapshot is written to a temporary file and renamed, and file names sort by
  time: the directory is a list of snapshots, the newest first, and `prune` is
  `take`.
- `restore_players` runs before any thread is spawned, hence inside `restart`.
- Of a snapshot's players only `(id, rating)` is written; the rest of an entry
  is a ghost, as are `known` and `mark`.

The other ghosts: `past` are the matches of earlier processes, `ended` the
ordinals of this process's matches that `end_match` has ended, `published` the
matches in the order of their `XADD`, `statusLog` every write of a status key.
-/

namespace Supermatchmaker

/-- Where a `POST /queue/{id}` stands. -/
inductive CallPc
  /-- about to look the rating up in the cache -/
  | cache
  /-- cache miss: about to ask Postgres -/
  | database
  /-- about to (re)cache the player -/
  | store (rating : Int32)
  /-- about to append the ingest event -/
  | publish (rating : Int32)
  /-- about to set the status; `origin` is the id of its event -/
  | queued (origin : Nat)
  /-- answered -/
  | done
  deriving DecidableEq, Repr

/-- A `POST /queue/{id}` in progress. -/
structure Call where
  user : Int64
  pc : CallPc
  deriving DecidableEq, Repr

/-- A snapshot, with its ghosts. -/
structure Snapshot where
  lastStreamId : Cursor
  players : List (Player Nat)
  /-- ghost: the matches published, or formed by the process, when the capture began -/
  known : List (Formed Nat)
  /-- ghost: how many matches had been published then -/
  mark : Nat

/-- The players of one more bucket. -/
def Snapshot.add (snap : Snapshot) (q : List (Player Nat)) : Snapshot :=
  { snap with players := snap.players ++ q }

/-- Where the snapshotter stands. -/
inductive SnapPc
  | sleeping
  /-- in `snapshot_players`, about to copy bucket `next` -/
  | copying (next : Nat) (snap : Snapshot)
  /-- the capture is finished, about to write the file -/
  | writing (snap : Snapshot)
  /-- about to trim the ingest stream -/
  | trimming

/-- A write to `mm:status:{user}`. -/
inductive StatusWrite
  /-- by the call whose event is `origin` -/
  | queued (user : Int64) (origin : Nat)
  /-- by the commit of `m` -/
  | matched (user : Int64) (m : Formed Nat)
  /-- the TTL ran out -/
  | expired (user : Int64)
  deriving DecidableEq

/-- What the pool's fate depends on: the memory of the process, the ingest stream
and the snapshots. -/
structure Core (cfg : Config) where
  mem : Matcher cfg Nat
  ingest : Ingest
  snap : SnapPc
  /-- the snapshot directory, newest first -/
  disk : List Snapshot
  /-- ghost -/
  past : List (Formed Nat)
  /-- ghost -/
  ended : List Nat
  /-- ghost -/
  published : List (Formed Nat)

/-- The whole service: the core, the calls in progress, the two caches and the write-behind. -/
structure World (cfg : Config) extends Core cfg where
  calls : List Call
  status : Int64 → Option Status
  playerCache : Int64 → Option Int32
  writer : Writer
  /-- ghost -/
  statusLog : List StatusWrite

variable {cfg : Config}

/-- The first boot: empty Redis, empty database, no snapshot. -/
def World.init (cfg : Config) : World cfg where
  mem := Matcher.init cfg Nat 0
  ingest := Ingest.start .empty none
  snap := .sleeping
  disk := []
  past := []
  ended := []
  published := []
  calls := []
  status := fun _ => none
  playerCache := fun _ => none
  writer := Writer.init
  statusLog := []

/-! ## The ingestion thread and the pool -/

/-- What a step of the ingestion thread does to the pool. -/
def Matcher.apply (m : Matcher cfg Nat) : PoolCall → Matcher cfg Nat
  | .none => m
  | .enqueue (origin, ev) => m.enqueue ev.id ev.poolRating origin
  | .counted => m.count 1

/-- `restore_players`. -/
def restorePlayers (m : Matcher cfg Nat) (players : List (Player Nat)) : Matcher cfg Nat :=
  players.foldl (fun m p => m.enqueue p.id p.rating p.origin) m

/-! ## The commands of a commit -/

/-- The match a thread is committing and the command it is about to send. -/
def Pc.command : Pc cfg Nat → Option (Formed Nat × Command Nat)
  | .commit f _ (c :: _) _ => some (f, c)
  | _ => none

/-- The command the retry thread sends next, and whose. -/
def RetryPc.command : RetryPc Nat → Option (Formed Nat × Command Nat)
  | .commit p (c :: _) _ => some (p.result, c)
  | _ => none

/-! ## Steps -/

/-- A step of the snapshotter. -/
inductive SnapStep
  | run
  /-- `write_snapshot` returns -/
  | written (ok : Bool)
  /-- `trim_ingest`: the entries up to an id are removed -/
  | trimmed (upTo : Nat)
  deriving DecidableEq, Repr

/-- A step of one of the threads or calls, of a client, of Redis or of time, or the death of the
process. -/
inductive WorldEvent (cfg : Config)
  | signup (rating : Int32)
  | request (user : Int64)
  /-- the next step of a call, and how its command went -/
  | call (c : Nat) (link : Link)
  | ingest (e : IngestStep)
  | worker (w : Fin cfg.numWorkers) (e : WorkerEvent)
  | retry (e : WorkerEvent)
  | snapshot (e : SnapStep)
  | poller (e : PollerStep)
  | endMatch (matchId : Int64) (pg : Pg)
  | expireStatus (user : Int64)
  | expirePlayer (user : Int64)
  | tick (nanos : Nat)
  | restart

namespace World

variable (s : World cfg)

/-- One call moves on. -/
def setCall (c : Nat) (call : Call) : World cfg := { s with calls := s.calls.set c call }

/-- One status key is written, or expires. -/
def setStatus (user : Int64) (value : Option Status) (write : StatusWrite) : World cfg :=
  { s with
    status := Function.update s.status user value
    statusLog := s.statusLog ++ [write] }

/-- One command of `enter_queue`. -/
def callStep (c : Nat) (link : Link) : Option (World cfg) :=
  match s.calls[c]? with
  | some ⟨user, .cache⟩ =>
    match if link = .up then s.playerCache user else none with
    | some rating => some (s.setCall c ⟨user, .store rating⟩)
    | none => some (s.setCall c ⟨user, .database⟩)
  | some ⟨user, .database⟩ =>
    match if link = .up then ratingOf s.writer.db user else none with
    | some rating => some (s.setCall c ⟨user, .store rating⟩)
    | none => some (s.setCall c ⟨user, .done⟩)
  | some ⟨user, .store rating⟩ =>
    let cached := if link = .down then s.playerCache
      else Function.update s.playerCache user (some rating)
    some ({ s with playerCache := cached }.setCall c ⟨user, .publish rating⟩)
  | some ⟨user, .publish rating⟩ =>
    if link = .down then some (s.setCall c ⟨user, .done⟩)
    else
      -- a lost answer is an error for the caller, though the event is on the stream
      let pc := if link = .up then .queued (s.ingest.stream.lastId + 1) else .done
      some ({ s with ingest := s.ingest.xadd (some ⟨user, rating⟩) }.setCall c ⟨user, pc⟩)
  | some ⟨user, .queued origin⟩ =>
    if link = .down then some (s.setCall c ⟨user, .done⟩)
    else some ((s.setStatus user (some .queued) (.queued user origin)).setCall c ⟨user, .done⟩)
  | some ⟨_, .done⟩ => none
  | none => none

/-- Redis executes a command of a commit pipeline. -/
def execute : Option (Formed Nat × Command Nat) → World cfg
  | none => s
  | some (f, .setStatus user payload) => s.setStatus user (some payload) (.matched user f)
  | some (_, .xaddSync f) =>
    { s with
      writer := { s.writer with stream := s.writer.stream.append (some f.result) }
      published := s.published ++ [f] }

/-- The command that takes effect in a step of a thread with this command next. -/
def effective (e : WorkerEvent) (c : Option (Formed Nat × Command Nat)) :
    Option (Formed Nat × Command Nat) :=
  if e = .cmd true then c else none

/-- A capture starts by reading the cursor. -/
def captureStart : Snapshot :=
  ⟨s.ingest.cursor, [], s.published ++ s.mem.formed, s.published.length⟩

/-- One step of the snapshotter: the cursor first, then the buckets one by one. -/
def snapStep : SnapStep → Option (World cfg)
  | .run =>
    match s.snap with
    | .sleeping =>
      some { s with snap := .copying 0 s.captureStart }
    | .copying next snap =>
      if h : next < cfg.numBuckets then
        some { s with snap := .copying (next + 1) (snap.add (s.mem.buckets ⟨next, h⟩)) }
      else some { s with snap := .writing snap }
    | _ => none
  | .written ok =>
    match s.snap with
    | .writing snap =>
      some { s with
        disk := if ok then (snap :: s.disk).take cfg.snapshotsKept else s.disk
        snap := .trimming }
    | _ => none
  | .trimmed upTo =>
    match s.snap with
    | .trimming => some { s with ingest := s.ingest.trim upTo, snap := .sleeping }
    | _ => none

/-- The players and the cursor the next process boots with. -/
def recovered : List (Player Nat) × Cursor :=
  match s.disk with
  | [] => ([], none)
  | snap :: _ => (snap.players, snap.lastStreamId)

/-- The process dies and the next one boots: restore the newest snapshot, set the
cursor to its offset, start the threads. -/
def restart : World cfg :=
  { s with
    mem := (restorePlayers (Matcher.init cfg Nat s.mem.now) s.recovered.1).count
      (UInt64.ofNat s.recovered.1.length)
    ingest := Ingest.start s.ingest.stream s.recovered.2
    snap := .sleeping
    past := s.past ++ s.mem.formed
    ended := []
    calls := []
    writer := { s.writer with pc := .off } }

/-- The ordinals of this process's matches with the id, if `end_match` succeeds. -/
def newlyEnded (matchId : Int64) (pg : Pg) : List Nat :=
  match endMatch matchId s.writer.db with
  | .ok _ =>
    if pg = .down then []
    else (s.mem.formed.filter fun f => f.result.matchId.toInt64 = matchId).map Formed.ordinal
  | .error _ => []

/-- One event. A command of a commit that is executed reaches Redis in the same step. -/
def step : WorldEvent cfg → Option (World cfg)
  | .signup rating =>
    some { s with writer := { s.writer with db := (Pg.up.run (createUser rating) s.writer.db).2 } }
  | .request user => some { s with calls := s.calls ++ [⟨user, .cache⟩] }
  | .call c link => s.callStep c link
  | .ingest e =>
    (s.ingest.threadStep e).map fun (ingest, call) =>
      { s with ingest := ingest, mem := s.mem.apply call }
  | .worker w e =>
    (s.mem.step (.worker w e)).map fun mem =>
      { s.execute (effective e (s.mem.workers w).command) with mem := mem }
  | .retry e =>
    (s.mem.step (.retry e)).map fun mem =>
      { s.execute (effective e s.mem.retry.command) with mem := mem }
  | .snapshot e => s.snapStep e
  | .poller e => (s.writer.pollerStep e).map fun writer => { s with writer := writer }
  | .endMatch matchId pg =>
    some { s with
      writer := { s.writer with db := (pg.run (Supermatchmaker.endMatch matchId) s.writer.db).2 }
      ended := s.ended ++ s.newlyEnded matchId pg }
  | .expireStatus user => some (s.setStatus user none (.expired user))
  | .expirePlayer user => some { s with playerCache := Function.update s.playerCache user none }
  | .tick nanos => some { s with mem := { s.mem with now := s.mem.now + nanos } }
  | .restart => some s.restart

end World

/-! ## Scripts

The events of the concrete runs, on the smallest service. -/

/-- Call `i`, of `user`, up to its `XADD`; the rating comes from Postgres. -/
def queueCall (i : Nat) (user : Int64) : List (WorldEvent cfg) :=
  [.request user, .call i .down, .call i .up, .call i .up, .call i .up]

/-- Ten users sign up, ten calls publish, and the ingestion thread, which was
reading, places the ten events and moves its cursor. -/
def tenArrive (who : Nat → Int64) : List (WorldEvent cfg) :=
  List.replicate 10 (.signup 1500) ++ .ingest .run ::
    (List.range 10).flatMap (fun i => queueCall i (who i)) ++ .ingest (.reply true) ::
      List.replicate 21 (.ingest .run)

/-- The match thread goes once round its loop, up to the commit. -/
def formMatch : List (WorldEvent Config.small) := List.replicate 8 (.worker smallThread .run)

/-- The eleven commands of its commit are executed. -/
def sendCommit : List (WorldEvent Config.small) :=
  List.replicate 11 (.worker smallThread (.cmd true))

end Supermatchmaker
