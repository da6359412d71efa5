import Mathlib
import Supermatchmaker.Lib.Table

/-!
# The Postgres side

The three tables `bootstrap` creates, and `create_user`, `insert_match_batch`
and `end_match` from `db.rs`, each as what its transaction does to the tables.

Mirroring notes:
- Columns no modelled statement reads or writes are left out (`users.name`, the
  timestamps, the surrogate keys of `match_players`).
- `matches_played INT` is a `Nat`: it starts at 0 and is only ever incremented,
  and the increment past `2 ^ 31 - 1` is the error `outOfRange`, as in Postgres.
- The foreign key `match_players.match_id` never refuses a row: the matches of
  the batch are inserted first, in the same transaction.
- A statement fails as a whole, and a failed statement aborts the transaction,
  so the order in which Postgres finds the violating row does not matter.
- `Pg` is what the client sees of a call: the server answered, or the pool or the
  connection failed before anything was applied (`down`), or the transaction was
  committed and the answer was lost (`lost`).
-/

namespace Supermatchmaker

/-- `match_players.team`: `"A"` or `"B"`. -/
inductive Team
  | A
  | B
  deriving DecidableEq, Repr

/-- `matches.status`: `"active"` or `"ended"`. -/
inductive MatchStatus
  | active
  | ended
  deriving DecidableEq, Repr

/-- A row of `users`. -/
structure UserRow where
  id : Int64
  rating : Int32
  inMatch : Bool
  matchesPlayed : Nat
  deriving DecidableEq, Repr

/-- A row of `matches`. -/
structure MatchRow where
  id : Int64
  spread : Int32
  status : MatchStatus
  deriving DecidableEq, Repr

/-- A row of `match_players`. -/
structure PlayerRow where
  matchId : Int64
  userId : Int64
  team : Team
  rating : Int32
  active : Bool
  deriving DecidableEq, Repr

/-- The tables. -/
structure Db where
  users : List UserRow
  /-- the table `matches` -/
  matchRows : List MatchRow
  matchPlayers : List PlayerRow
  /-- the sequence behind `users.id` -/
  nextUserId : Nat
  deriving DecidableEq, Repr

/-- The tables after `bootstrap` on an empty database. -/
def Db.empty : Db := ⟨[], [], [], 1⟩

/-- Why a call fails. -/
inductive DbError
  | notFound
  | uniqueViolation
  | outOfRange
  | unavailable
  deriving DecidableEq, Repr

/-- How a call goes. -/
inductive Pg
  | up
  | down
  | lost
  deriving DecidableEq, Repr

/-- What a call leaves behind and what it returns, given how it went. -/
def Pg.run (pg : Pg) (tx : Db → Except DbError Db) (db : Db) : Except DbError Unit × Db :=
  match pg with
  | .up => Table.transaction tx db
  | .down => (.error .unavailable, db)
  | .lost => (.error .unavailable, (Table.transaction tx db).2)

/-! ## `create_user` -/

/-- `create_user`: the row gets the next id of the sequence. -/
def createUser (rating : Int32) (db : Db) : Except DbError Db :=
  if db.nextUserId < 2 ^ 63 then
    .ok { db with
      users := db.users ++ [⟨Int64.ofNat db.nextUserId, rating, false, 0⟩]
      nextUserId := db.nextUserId + 1 }
  else .error .outOfRange

/-- `rating_of`. -/
def ratingOf (db : Db) (userId : Int64) : Option Int32 :=
  (db.users.find? fun u => u.id = userId).map UserRow.rating

/-! ## `insert_match_batch` -/

/-- One item of the batch: `(match_id, spread, team_a, team_b)`. -/
structure BatchItem where
  matchId : Int64
  spread : Int32
  teamA : List (Int64 × Int32)
  teamB : List (Int64 × Int32)
  deriving DecidableEq, Repr

namespace BatchItem

variable (e : BatchItem)

/-- `NewMatch`. -/
def matchRow : MatchRow := ⟨e.matchId, e.spread, .active⟩

/-- `NewMatchPlayer` of a team member; `active` is always `true` on insertion. -/
def playerRow (active : Bool) (team : Team) (player : Int64 × Int32) : PlayerRow :=
  ⟨e.matchId, player.1, team, player.2, active⟩

/-- The rows of both teams, A first. -/
def playerRows (active : Bool) : List PlayerRow :=
  e.teamA.map (e.playerRow active .A) ++ e.teamB.map (e.playerRow active .B)

/-- The users of the match, in row order. -/
def users : List Int64 := (e.teamA ++ e.teamB).map Prod.fst

end BatchItem

/-- The largest `INT`. -/
def int4Max : Nat := 2147483647

/-- `INSERT INTO matches .. ON CONFLICT (id) DO NOTHING`. -/
def insertMatches (rows : List MatchRow) (db : Db) : Db :=
  { db with matchRows := Table.insertNew MatchRow.id rows db.matchRows }

/-- `INSERT INTO match_players ..`, under the index `uniq_active_player`. -/
def insertPlayers (rows : List PlayerRow) (db : Db) : Except DbError Db :=
  if Table.UniqueOn PlayerRow.active PlayerRow.userId (db.matchPlayers ++ rows) then
    .ok { db with matchPlayers := db.matchPlayers ++ rows }
  else .error .uniqueViolation

/-- `UPDATE users SET in_match = true, matches_played = matches_played + 1
WHERE id = ANY(ids)`. -/
def flagPlayers (ids : List Int64) (db : Db) : Except DbError Db :=
  if ∀ u ∈ db.users, u.id ∈ ids → u.matchesPlayed < int4Max then
    .ok { db with
      users := Table.updateWhere (fun u => u.id ∈ ids)
        (fun u => { u with inMatch := true, matchesPlayed := u.matchesPlayed + 1 }) db.users }
  else .error .outOfRange

/-- `insert_match_batch`: the three statements of one transaction; an empty batch does nothing. -/
def insertMatchBatch (batch : List BatchItem) (db : Db) : Except DbError Db :=
  if batch = [] then .ok db
  else do
    let db ← insertPlayers (batch.flatMap (·.playerRows true))
      (insertMatches (batch.map (·.matchRow)) db)
    flagPlayers (batch.flatMap (·.users)) db

/-! ## `end_match` -/

/-- `end_match`: an error unless the match is there and active. -/
def endMatch (matchId : Int64) (db : Db) : Except DbError Db :=
  let hit := fun m : MatchRow => m.id = matchId ∧ m.status = .active
  if Table.affected (fun m => hit m) db.matchRows = 0 then .error .notFound
  else .ok { db with
    matchRows := Table.updateWhere (fun m => hit m) (fun m => { m with status := .ended })
      db.matchRows
    matchPlayers := Table.updateWhere (fun r => r.matchId = matchId)
      (fun r => { r with active := false }) db.matchPlayers }

/-! ## What `insert_match_batch` does, in one lemma -/

theorem BatchItem.playerRows_users (e : BatchItem) (active : Bool) :
    (e.playerRows active).map PlayerRow.userId = e.users := by
  unfold BatchItem.playerRows BatchItem.users
  rw [List.map_append, List.map_map, List.map_map, List.map_append]
  rfl

theorem BatchItem.active_of_mem {e : BatchItem} {active : Bool} {r : PlayerRow}
    (h : r ∈ e.playerRows active) : r.active = active ∧ r.matchId = e.matchId := by
  rcases List.mem_append.mp h with h | h
  · obtain ⟨p, _, rfl⟩ := List.mem_map.mp h
    exact ⟨rfl, rfl⟩
  · obtain ⟨p, _, rfl⟩ := List.mem_map.mp h
    exact ⟨rfl, rfl⟩

/-- The users of a batch, in row order. -/
def batchUsers (batch : List BatchItem) : List Int64 := batch.flatMap (·.users)

/-- The condition under which the database takes a batch: every active player
row, old and new, has a user of its own, and no counter overflows. -/
structure Accepted (db : Db) (batch : List BatchItem) : Prop where
  unique : Table.UniqueOn PlayerRow.active PlayerRow.userId
    (db.matchPlayers ++ batch.flatMap (·.playerRows true))
  counters : ∀ u ∈ db.users, u.id ∈ batchUsers batch → u.matchesPlayed < int4Max

instance (db : Db) (batch : List BatchItem) : Decidable (Accepted db batch) :=
  decidable_of_iff
    (Table.UniqueOn PlayerRow.active PlayerRow.userId
        (db.matchPlayers ++ batch.flatMap (·.playerRows true)) ∧
      ∀ u ∈ db.users, u.id ∈ batchUsers batch → u.matchesPlayed < int4Max)
    ⟨fun h => ⟨h.1, h.2⟩, fun h => ⟨h.1, h.2⟩⟩

/-- The tables after a batch was taken. -/
def stored (db : Db) (batch : List BatchItem) : Db :=
  { db with
    matchRows := Table.insertNew MatchRow.id (batch.map (·.matchRow)) db.matchRows
    matchPlayers := db.matchPlayers ++ batch.flatMap (·.playerRows true)
    users := Table.updateWhere (fun u => u.id ∈ batchUsers batch)
      (fun u => { u with inMatch := true, matchesPlayed := u.matchesPlayed + 1 }) db.users }

/-- **`insert_match_batch`**: an accepted batch is stored, any other non-empty
batch is an error. -/
theorem insertMatchBatch_ok {db : Db} {batch : List BatchItem} (hne : batch ≠ []) :
    (Accepted db batch → insertMatchBatch batch db = .ok (stored db batch)) ∧
    (¬ Accepted db batch → ∃ err, insertMatchBatch batch db = .error err) := by
  unfold insertMatchBatch
  rw [if_neg hne]
  by_cases hu : Table.UniqueOn PlayerRow.active PlayerRow.userId
      (db.matchPlayers ++ batch.flatMap (·.playerRows true))
  · have hins : insertPlayers (batch.flatMap (·.playerRows true))
        (insertMatches (batch.map (·.matchRow)) db)
        = .ok { insertMatches (batch.map (·.matchRow)) db with
            matchPlayers := db.matchPlayers ++ batch.flatMap (·.playerRows true) } := by
      unfold insertPlayers
      exact if_pos hu
    rw [hins]
    by_cases hc : ∀ u ∈ db.users, u.id ∈ batchUsers batch → u.matchesPlayed < int4Max
    · refine ⟨fun _ => ?_, fun hn => absurd ⟨hu, hc⟩ hn⟩
      show flagPlayers _ _ = _
      unfold flagPlayers
      exact if_pos hc
    · refine ⟨fun ha => absurd ha.counters hc, fun _ => ⟨.outOfRange, ?_⟩⟩
      show flagPlayers _ _ = _
      unfold flagPlayers
      exact if_neg hc
  · refine ⟨fun ha => absurd ha.unique hu, fun _ => ⟨.uniqueViolation, ?_⟩⟩
    have hins : insertPlayers (batch.flatMap (·.playerRows true))
        (insertMatches (batch.map (·.matchRow)) db) = .error .uniqueViolation := by
      unfold insertPlayers
      exact if_neg hu
    rw [hins]
    rfl

/-- Reading the result backwards. -/
theorem eq_of_insertMatchBatch {db db' : Db} {batch : List BatchItem}
    (h : insertMatchBatch batch db = .ok db') :
    (batch = [] ∧ db' = db) ∨ (batch ≠ [] ∧ Accepted db batch ∧ db' = stored db batch) := by
  by_cases hne : batch = []
  · left
    rw [insertMatchBatch, if_pos hne] at h
    exact ⟨hne, (Except.ok.inj h).symm⟩
  · right
    by_cases ha : Accepted db batch
    · rw [(insertMatchBatch_ok hne).1 ha] at h
      exact ⟨hne, ha, (Except.ok.inj h).symm⟩
    · obtain ⟨err, herr⟩ := (insertMatchBatch_ok hne).2 ha
      rw [herr] at h
      cases h

end Supermatchmaker
