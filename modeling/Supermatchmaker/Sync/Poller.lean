import Supermatchmaker.Db.Tables
import Supermatchmaker.Lib.Log
import Supermatchmaker.Matcher.Split

/-!
# The sync stream and the write-behind poller

`read_sync_batch`, `read_pending`, `ack_sync` and `ensure_sync_group` from
`queue.rs`, `flush_batch` and the poller thread of `main.rs`, over the Redis
stream `match:sync:stream`, its consumer group and the database.

Mirroring notes:
- A payload that `parse_stream_reply` skips is `none` in the stream; it is
  delivered like any other entry and stays pending.
- A call to Redis is `up` (executed, answered), `down` (not executed) or `lost`
  (executed, the answer is lost). The two readers turn every failure into an
  empty batch, as the code does, and so does a group that does not exist.
- `flushBatch` is the function of the source; the thread runs it in two steps,
  the insert and the acknowledgement, so that a crash can fall between them
  (`flush_two_steps`).
- There is one consumer, `db-writer-1`, so the group's pending list is its own.
-/

namespace Supermatchmaker

/-- A claimed stream entry: its id and the decoded match. -/
abbrev SyncEntry := Nat × MatchResult

/-- `(m.match_id as i64, m.spread as i32, team_a, team_b)`. -/
def MatchResult.item (m : MatchResult) : BatchItem :=
  ⟨m.matchId.toInt64, m.spread.toInt32, m.teamA, m.teamB⟩

/-- How a call to Redis went. -/
inductive Link
  | up
  | down
  | lost
  deriving DecidableEq, Repr

/-- The sync stream's consumer group. -/
abbrev SyncGroup := Consumer (Option MatchResult)

/-- What `flush_batch` hands to `insert_match_batch`. -/
def batchOf (entries : List SyncEntry) : List BatchItem := entries.map fun e => e.2.item

/-- `XACK` of the entries of a batch. -/
def ackSync (link : Link) (entries : List SyncEntry) (g : SyncGroup) : SyncGroup :=
  if link = .down then g else g.ack (entries.map Prod.fst)

/-- `flush_batch`: one transaction for the whole batch, then the acknowledgement;
on an error the entries are left un-ACKed. -/
def flushBatch (pg : Pg) (link : Link) (entries : List SyncEntry) (db : Db) (g : SyncGroup) :
    Db × SyncGroup :=
  if entries = [] then (db, g)
  else
    match pg.run (insertMatchBatch (batchOf entries)) db with
    | (.ok (), db') => (db', ackSync link entries g)
    | (.error _, db') => (db', g)

/-! ## The poller thread -/

/-- Where the poller stands. -/
inductive PollerPc
  /-- not running, or `main` is still before `ensure_sync_group` -/
  | off
  /-- about to make the recovery pass -/
  | recover
  /-- in `flush_batch`, before the transaction -/
  | insert (batch : List SyncEntry)
  /-- in `flush_batch`, before `XACK` -/
  | ack (batch : List SyncEntry)
  /-- top of the loop -/
  | loop
  deriving DecidableEq

/-- The sync stream, its consumer group, the poller and the database. -/
structure Writer where
  stream : Log (Option MatchResult)
  group : Option SyncGroup
  pc : PollerPc
  db : Db
  matchesCommitted : UInt64

/-- A step of the poller: each of its calls, and how it went. -/
inductive PollerStep
  /-- `ensure_sync_group`, then the thread is spawned -/
  | ensure (link : Link)
  /-- `XREADGROUP`, of the pending entries or of new ones -/
  | read (link : Link)
  | insert (pg : Pg)
  | ack (link : Link)
  deriving DecidableEq, Repr

namespace Writer

/-- A stream nobody has written to and an empty database. -/
def init : Writer := ⟨.empty, none, .off, .empty, 0⟩

variable (s : Writer)

/-- `flush_batch` returns at once when there is nothing to do. -/
def startFlush (batch : List SyncEntry) : Writer :=
  { s with pc := if batch = [] then .loop else .insert batch }

/-- Redis hands out the next 50 new entries. -/
def deliver (link : Link) : Writer :=
  if link = .down then s else { s with group := s.group.map (·.deliver s.stream 50) }

theorem deliver_down : s.deliver .down = s := if_pos rfl

theorem deliver_eq {link : Link} (hlink : link ≠ .down) :
    s.deliver link = { s with group := s.group.map (·.deliver s.stream 50) } := if_neg hlink

/-- What the caller of a reader gets. -/
def received (link : Link) (es : List (Nat × Option MatchResult)) : List SyncEntry :=
  if link = .up then Log.decoded es else []

/-- One step of the poller, or none if it is not at that call. -/
def pollerStep : PollerStep → Option Writer
  | .ensure link =>
    match s.pc with
    | .off =>
      -- `BUSYGROUP` and every other error are ignored
      let created := if link = .down then s.group else s.group.or (some (.create s.stream))
      some { s with group := created, pc := .recover }
    | _ => none
  | .read link =>
    match s.pc with
    | .recover =>
      some (s.startFlush (received link ((s.group.map (·.redeliver 500)).getD [])))
    | .loop =>
      some ((s.deliver link).startFlush
        (received link ((s.group.map (·.undelivered s.stream 50)).getD [])))
    | _ => none
  | .insert pg =>
    match s.pc with
    | .insert batch =>
      match pg.run (insertMatchBatch (batchOf batch)) s.db with
      | (.ok (), db) => some { s with db := db, pc := .ack batch }
      | (.error _, db) => some { s with db := db, pc := .loop }
    | _ => none
  | .ack link =>
    match s.pc with
    | .ack batch =>
      some { s with
        group := s.group.map (ackSync link batch)
        pc := .loop
        matchesCommitted := s.matchesCommitted + UInt64.ofNat batch.length }
    | _ => none

/-- What can happen to the stream, the poller and the database. -/
inductive Event
  | xadd (payload : Option MatchResult)
  | poller (e : PollerStep)
  /-- the process dies -/
  | crash
  | createUser (rating : Int32)
  | endMatch (matchId : Int64) (pg : Pg)
  deriving DecidableEq

/-- One event of the write-behind on its own. -/
def step : Event → Option Writer
  | .xadd payload => some { s with stream := s.stream.append payload }
  | .poller e => s.pollerStep e
  | .crash => some { s with pc := .off }
  | .createUser rating =>
    some { s with db := (Pg.up.run (Supermatchmaker.createUser rating) s.db).2 }
  | .endMatch matchId pg => some { s with db := (pg.run (Supermatchmaker.endMatch matchId) s.db).2 }

/-- The two steps of the thread are `flush_batch`: after the first it is over,
with the tables and the group `flush_batch` leaves, or it is after the second. -/
theorem flush_two_steps {s : Writer} {batch : List SyncEntry} {g : SyncGroup}
    (hpc : s.pc = .insert batch) (hne : batch ≠ []) (hg : s.group = some g)
    (pg : Pg) (link : Link) :
    ∃ t u, s.pollerStep (.insert pg) = some t ∧ (t = u ∨ t.pollerStep (.ack link) = some u) ∧
      u.pc = .loop ∧ u.db = (flushBatch pg link batch s.db g).1 ∧
      u.group = some (flushBatch pg link batch s.db g).2 := by
  unfold flushBatch
  rw [if_neg hne]
  unfold pollerStep
  simp only [hpc]
  split
  next db hok =>
    refine ⟨_, _, rfl, Or.inr rfl, rfl, rfl, ?_⟩
    show s.group.map (ackSync link batch) = _
    rw [hg]
    rfl
  next err db herr => exact ⟨_, _, rfl, Or.inl rfl, rfl, rfl, hg⟩

end Writer

end Supermatchmaker
