import Supermatchmaker.Db.Redelivery

/-!
# What a call does to the tables

Every call either leaves the tables alone or does what its transaction says
(`Db.Outcome`), and each outcome comes with the condition under which it is the
one. The invariants of the tables are proved by cases on it and never look at
the code.

`Clean` is the condition under which a batch is taken, read off the matches
themselves. That it is what the database checks (`accepted_iff_clean`) needs the
state to satisfy the index already, which every reachable state does
(`run_indexed`).
-/

namespace Supermatchmaker

/-! ## `end_match`, row by row -/

/-- There is a match with this id and it is active. -/
def Db.Running (db : Db) (matchId : Int64) : Prop :=
  ∃ m ∈ db.matchRows, m.id = matchId ∧ m.status = .active

instance (db : Db) (matchId : Int64) : Decidable (db.Running matchId) :=
  List.decidableBEx _ db.matchRows

/-- The match is not stored as ended. -/
def Db.Unended (db : Db) (e : BatchItem) : Prop :=
  ∀ row ∈ db.matchRows, row.id = e.matchId → row.status = .active

instance (db : Db) (e : BatchItem) : Decidable (db.Unended e) := List.decidableBAll _ db.matchRows

/-- What `end_match` does to a row of each table. -/
def endRow (matchId : Int64) (row : MatchRow) : MatchRow :=
  if row.id = matchId then { row with status := .ended } else row

/-- What `end_match` does to a row of `match_players`. -/
def leaveRow (matchId : Int64) (r : PlayerRow) : PlayerRow :=
  if r.matchId = matchId then { r with active := false } else r

@[simp] theorem endRow_id (matchId : Int64) (row : MatchRow) :
    (endRow matchId row).id = row.id := by
  unfold endRow
  split <;> rfl

@[simp] theorem endRow_active (matchId : Int64) (row : MatchRow) :
    { endRow matchId row with status := .active } = { row with status := .active } := by
  unfold endRow
  split <;> rfl

@[simp] theorem leaveRow_matchId (matchId : Int64) (r : PlayerRow) :
    (leaveRow matchId r).matchId = r.matchId := by
  unfold leaveRow
  split <;> rfl

/-- The tables after a match was ended. -/
def Db.ended (matchId : Int64) (db : Db) : Db :=
  { db with
    matchRows := db.matchRows.map (endRow matchId)
    matchPlayers := db.matchPlayers.map (leaveRow matchId) }

/-- **`end_match`**: a running match is ended, any other id is an error. -/
theorem endMatch_eq (matchId : Int64) (db : Db) :
    endMatch matchId db
      = if db.Running matchId then .ok (db.ended matchId) else .error .notFound := by
  have hhit : Table.affected (fun m : MatchRow => decide (m.id = matchId ∧ m.status = .active))
      db.matchRows = 0 ↔ ¬ db.Running matchId := by
    unfold Table.affected
    rw [List.length_eq_zero_iff, List.filter_eq_nil_iff]
    constructor
    · rintro h ⟨m, hm, hrun⟩
      exact h m hm (decide_eq_true hrun)
    · intro h m hm hrun
      exact h ⟨m, hm, of_decide_eq_true hrun⟩
  unfold endMatch
  by_cases hrun : db.Running matchId
  · rw [if_pos hrun, if_neg fun h => hhit.mp h hrun]
    unfold Db.ended Table.updateWhere
    congr 2
    · refine List.map_congr_left fun row _ => ?_
      -- a row that is ended already is written as it was
      obtain ⟨id, spread, status⟩ := row
      unfold endRow
      by_cases hid : id = matchId
      · cases status <;> simp [hid]
      · simp [hid]
    · refine List.map_congr_left fun r _ => ?_
      unfold leaveRow
      by_cases hid : r.matchId = matchId <;> simp [hid]
  · rw [if_neg hrun]
    exact if_pos (hhit.mpr hrun)

theorem endMatch_tables {db db' : Db} {matchId : Int64} (h : endMatch matchId db = .ok db') :
    db'.matchRows = db.matchRows.map (endRow matchId) ∧
      db'.matchPlayers = db.matchPlayers.map (leaveRow matchId) := by
  rw [endMatch_eq] at h
  split at h
  · rw [← Except.ok.inj h]
    exact ⟨rfl, rfl⟩
  · cases h

/-! ## The outcomes -/

/-- The tables after a signup. -/
def Db.signedUp (rating : Int32) (db : Db) : Db :=
  { db with
    users := db.users ++ [⟨Int64.ofNat db.nextUserId, rating, false, 0⟩]
    nextUserId := db.nextUserId + 1 }

/-- What a call did, and why. -/
inductive Db.Outcome (db : Db) : DbEvent → Db → Prop
  | signedUp {rating : Int32} {pg : Pg} (hpg : pg ≠ .down) (hid : db.nextUserId < 2 ^ 63) :
    Outcome db (.createUser rating pg) (db.signedUp rating)
  | notSignedUp {rating : Int32} {pg : Pg} (h : pg = .down ∨ ¬ db.nextUserId < 2 ^ 63) :
    Outcome db (.createUser rating pg) db
  | stored {batch : List BatchItem} {pg : Pg} (hpg : pg ≠ .down) (hne : batch ≠ [])
      (ha : Accepted db batch) : Outcome db (.insertMatchBatch batch pg) (stored db batch)
  | refused {batch : List BatchItem} {pg : Pg}
      (h : pg = .down ∨ batch = [] ∨ ¬ Accepted db batch) :
    Outcome db (.insertMatchBatch batch pg) db
  | ended {matchId : Int64} {pg : Pg} (hpg : pg ≠ .down) (hrun : db.Running matchId) :
    Outcome db (.endMatch matchId pg) (db.ended matchId)
  | notEnded {matchId : Int64} {pg : Pg} (h : pg = .down ∨ ¬ db.Running matchId) :
    Outcome db (.endMatch matchId pg) db

/-- A call that reached the server leaves what its transaction leaves. -/
theorem Pg.run_ok {tx : Db → Except DbError Db} {db db' : Db} {pg : Pg} (hpg : pg ≠ .down)
    (htx : tx db = .ok db') : (pg.run tx db).2 = db' := by
  cases pg with
  | up => simp only [Pg.run, Table.transaction, htx]
  | down => exact absurd rfl hpg
  | lost => simp only [Pg.run, Table.transaction, htx]

theorem Pg.run_error {tx : Db → Except DbError Db} {db : Db} {err : DbError} (pg : Pg)
    (htx : tx db = .error err) : (pg.run tx db).2 = db := by
  cases pg <;> simp only [Pg.run, Table.transaction, htx]

/-- **Every call** has one of the outcomes. -/
theorem step_outcome {db db' : Db} {e : DbEvent} (h : db.step e = some db') : db.Outcome e db' := by
  cases e with
  | createUser rating pg =>
    simp only [Db.step, Option.some.injEq] at h
    subst h
    by_cases hpg : pg = .down
    · rw [hpg]
      exact .notSignedUp (Or.inl rfl)
    by_cases hid : db.nextUserId < 2 ^ 63
    · have htx : createUser rating db = .ok (db.signedUp rating) := if_pos hid
      rw [Pg.run_ok hpg htx]
      exact .signedUp hpg hid
    · rw [Pg.run_error pg (if_neg hid)]
      exact .notSignedUp (Or.inr hid)
  | insertMatchBatch batch pg =>
    simp only [Db.step, Option.some.injEq] at h
    subst h
    by_cases hpg : pg = .down
    · rw [hpg]
      exact .refused (Or.inl rfl)
    by_cases hne : batch = []
    · have htx : insertMatchBatch batch db = .ok db := if_pos hne
      rw [Pg.run_ok hpg htx]
      exact .refused (Or.inr (Or.inl hne))
    by_cases ha : Accepted db batch
    · rw [Pg.run_ok hpg ((insertMatchBatch_ok hne).1 ha)]
      exact .stored hpg hne ha
    · obtain ⟨err, herr⟩ := (insertMatchBatch_ok hne).2 ha
      rw [Pg.run_error pg herr]
      exact .refused (Or.inr (Or.inr ha))
  | endMatch matchId pg =>
    simp only [Db.step, Option.some.injEq] at h
    subst h
    by_cases hpg : pg = .down
    · rw [hpg]
      exact .notEnded (Or.inl rfl)
    have heq := endMatch_eq matchId db
    by_cases hrun : db.Running matchId
    · rw [if_pos hrun] at heq
      rw [Pg.run_ok hpg heq]
      exact .ended hpg hrun
    · rw [if_neg hrun] at heq
      rw [Pg.run_error pg heq]
      exact .notEnded (Or.inr hrun)

/-! ## The index in every reachable state -/

/-- `uniq_active_player` holds. -/
def Db.Indexed (db : Db) : Prop :=
  Table.UniqueOn PlayerRow.active PlayerRow.userId db.matchPlayers

instance (db : Db) : Decidable db.Indexed := inferInstanceAs (Decidable (Table.UniqueOn ..))

/-- The index is checked when rows come in. -/
theorem insertMatchBatch_indexed {db db' : Db} {batch : List BatchItem} (hdb : db.Indexed)
    (h : insertMatchBatch batch db = .ok db') : db'.Indexed := by
  rcases eq_of_insertMatchBatch h with ⟨_, rfl⟩ | ⟨_, ha, rfl⟩
  · exact hdb
  · exact ha.unique

theorem endMatch_indexed {db db' : Db} {matchId : Int64} (hdb : db.Indexed)
    (h : endMatch matchId db = .ok db') : db'.Indexed := by
  unfold endMatch at h
  simp only at h
  split at h
  · cases h
  · rw [← Except.ok.inj h]
    exact Table.UniqueOn.updateWhere hdb (fun _ h => by cases h) (fun _ => rfl)

theorem createUser_indexed {db db' : Db} {rating : Int32} (hdb : db.Indexed)
    (h : createUser rating db = .ok db') : db'.Indexed := by
  unfold createUser at h
  split at h
  · rw [← Except.ok.inj h]
    exact hdb
  · cases h

/-- What a successful transaction preserves, a call preserves however it goes. -/
theorem Pg.run_preserves {P : Db → Prop} {tx : Db → Except DbError Db} {db : Db} (hdb : P db)
    (htx : ∀ db', tx db = .ok db' → P db') (pg : Pg) : P (pg.run tx db).2 := by
  have htrans : P (Table.transaction tx db).2 := by
    unfold Table.transaction
    split
    next db' hok => exact htx db' hok
    next => exact hdb
  cases pg with
  | up => exact htrans
  | down => exact hdb
  | lost => exact htrans

/-- **Step**: the index holds. -/
theorem step_indexed {db db' : Db} {e : DbEvent} (hdb : db.Indexed) (h : db.step e = some db') :
    db'.Indexed := by
  cases step_outcome h with
  | signedUp | notSignedUp | refused | notEnded => exact hdb
  | stored _ _ ha => exact ha.unique
  | ended _ hrun => exact endMatch_indexed hdb ((endMatch_eq _ db).trans (if_pos hrun))

/-- It holds in every reachable database. -/
theorem run_indexed {db : Db} (h : Lts.Run Db.step Lts.Free Db.empty db) : db.Indexed :=
  h.inv (fun hdb _ hs => step_indexed hdb hs) List.nodup_nil

/-! ## Clean batches -/

/-- No user is in both matches. -/
def BatchItem.Apart (e e' : BatchItem) : Prop := ∀ u ∈ e.users, u ∉ e'.users

instance (e e' : BatchItem) : Decidable (e.Apart e') := List.decidableBAll _ e.users

/-- No match of the batch has a reason to be refused. -/
structure Clean (db : Db) (batch : List BatchItem) : Prop where
  /-- the players of each match are distinct -/
  distinct : ∀ e ∈ batch, e.users.Nodup
  /-- none of them has an active row -/
  free : ∀ e ∈ batch, ∀ r ∈ db.matchPlayers, r.active → r.userId ∉ e.users
  /-- none of them is in another match of the batch -/
  apart : batch.Pairwise BatchItem.Apart
  counters : ∀ u ∈ db.users, u.id ∈ batchUsers batch → u.matchesPlayed < int4Max

instance (db : Db) (batch : List BatchItem) : Decidable (Clean db batch) :=
  decidable_of_iff
    ((∀ e ∈ batch, e.users.Nodup) ∧
      (∀ e ∈ batch, ∀ r ∈ db.matchPlayers, r.active → r.userId ∉ e.users) ∧
      batch.Pairwise BatchItem.Apart ∧
      ∀ u ∈ db.users, u.id ∈ batchUsers batch → u.matchesPlayed < int4Max)
    ⟨fun h => ⟨h.1, h.2.1, h.2.2.1, h.2.2.2⟩, fun h => ⟨h.1, h.2, h.3, h.4⟩⟩

theorem batch_rows_active {batch : List BatchItem} :
    ∀ r ∈ batch.flatMap (·.playerRows true), r.active := by
  intro r hr
  obtain ⟨e, _, hre⟩ := List.mem_flatMap.mp hr
  exact (BatchItem.active_of_mem hre).1

theorem batch_rows_users (batch : List BatchItem) :
    (batch.flatMap (·.playerRows true)).map PlayerRow.userId = batchUsers batch := by
  unfold batchUsers
  rw [List.map_flatMap]
  exact List.flatMap_congr fun e _ => e.playerRows_users true

/-- The database takes exactly the clean batches. -/
theorem accepted_iff_clean {db : Db} {batch : List BatchItem} (hdb : db.Indexed) :
    Accepted db batch ↔ Clean db batch := by
  have hunique : Table.UniqueOn PlayerRow.active PlayerRow.userId
      (db.matchPlayers ++ batch.flatMap (·.playerRows true)) ↔
      (batchUsers batch).Nodup ∧ ∀ r ∈ db.matchPlayers, r.active → r.userId ∉ batchUsers batch := by
    rw [Table.uniqueOn_append batch_rows_active, batch_rows_users]
    constructor
    · rintro ⟨_, hnodup, hfree⟩
      refine ⟨hnodup, fun r hr ha hmem => ?_⟩
      rw [← batch_rows_users] at hmem
      obtain ⟨r', hr', huser⟩ := List.mem_map.mp hmem
      exact hfree r' hr' r hr ha huser.symm
    · rintro ⟨hnodup, hfree⟩
      refine ⟨hdb, hnodup, fun r' hr' r hr ha huser => hfree r hr ha ?_⟩
      rw [huser, ← batch_rows_users]
      exact List.mem_map_of_mem hr'
  have hnodup : (batchUsers batch).Nodup ↔ (∀ e ∈ batch, e.users.Nodup) ∧
      batch.Pairwise BatchItem.Apart := by
    unfold batchUsers
    rw [List.nodup_flatMap]
    rfl
  constructor
  · intro ha
    obtain ⟨hn, hfree⟩ := hunique.mp ha.unique
    obtain ⟨hdistinct, hapart⟩ := hnodup.mp hn
    refine ⟨hdistinct, fun e he r hr hact hmem => ?_, hapart, ha.counters⟩
    exact hfree r hr hact (List.mem_flatMap.mpr ⟨e, he, hmem⟩)
  · intro hc
    refine ⟨hunique.mpr ⟨hnodup.mpr ⟨hc.distinct, hc.apart⟩, fun r hr hact hmem => ?_⟩, hc.counters⟩
    obtain ⟨e, he, hu⟩ := List.mem_flatMap.mp hmem
    exact hc.free e he r hr hact hu

end Supermatchmaker
