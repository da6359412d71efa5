import Supermatchmaker.Db.Statements
import Supermatchmaker.Sync.Poller

/-!
# One batch, one transaction

`flush_batch` hands its whole batch to one transaction and makes one decision
about the acknowledgement. `flushBatch_all_or_nothing` says what follows: a batch
whose matches are all `Clean` is stored and acknowledged match by match, and one
refused match keeps every other match of its batch out
(`poison_isolation_fails`).
-/

namespace Supermatchmaker

/-! ## The whole batch or nothing -/

/-- The match is in the tables, with all its player rows. -/
def Persisted (db : Db) (e : BatchItem) : Prop :=
  db.has e ∧ ∀ r ∈ e.playerRows true, r ∈ db.matchPlayers

instance (db : Db) (e : BatchItem) : Decidable (Persisted db e) :=
  inferInstanceAs (Decidable (_ ∧ _))

/-- No entry of the group with this id is pending. -/
def Acknowledged (g : SyncGroup) (id : Nat) : Prop := ∀ p ∈ g.pending, p.1 ≠ id

instance (g : SyncGroup) (id : Nat) : Decidable (Acknowledged g id) :=
  inferInstanceAs (Decidable (∀ p ∈ g.pending, p.1 ≠ id))

theorem persisted_stored {db : Db} {batch : List BatchItem} {e : BatchItem} (he : e ∈ batch) :
    Persisted (stored db batch) e := by
  refine ⟨?_, fun r hr => ?_⟩
  · have hrow : e.matchRow ∈ batch.map (·.matchRow) := List.mem_map_of_mem he
    show MatchRow.id e.matchRow ∈ (Table.insertNew MatchRow.id _ _).map MatchRow.id
    exact Table.key_mem_insertNew _ hrow
  · exact List.mem_append_right _ (List.mem_flatMap.mpr ⟨e, he, hr⟩)

theorem acknowledged_ackSync {link : Link} (hlink : link ≠ .down) {entries : List SyncEntry}
    {e : SyncEntry} (he : e ∈ entries) (g : SyncGroup) :
    Acknowledged (ackSync link entries g) e.1 := by
  intro p hp heq
  unfold ackSync at hp
  rw [if_neg hlink, Consumer.mem_pending_ack] at hp
  exact hp.2 (heq ▸ List.mem_map_of_mem he)

/-- **All or nothing.** With Postgres answering, a clean batch is stored match by
match, a match that was not stored before under its own row, and each entry is
acknowledged when `XACK` is executed; any other batch leaves the tables and the
pending list exactly as they were. -/
theorem flushBatch_all_or_nothing {db : Db} (hdb : db.Indexed) (entries : List SyncEntry)
    (g : SyncGroup) (link : Link) :
    (Clean db (batchOf entries) → ∀ e ∈ entries,
      Persisted (flushBatch .up link entries db g).1 e.2.item ∧
      (¬ db.has e.2.item → (∀ e' ∈ entries, e'.2.item.matchId = e.2.item.matchId → e' = e) →
        e.2.item.matchRow ∈ (flushBatch .up link entries db g).1.matchRows) ∧
      (link ≠ .down → Acknowledged (flushBatch .up link entries db g).2 e.1)) ∧
    (¬ Clean db (batchOf entries) → ∀ pg, flushBatch pg link entries db g = (db, g)) := by
  rw [← accepted_iff_clean hdb]
  constructor
  · intro ha e he
    have hne : entries ≠ [] := List.ne_nil_of_mem he
    have hmem : e.2.item ∈ batchOf entries := List.mem_map_of_mem (f := fun e => e.2.item) he
    have hflush : flushBatch .up link entries db g
        = (stored db (batchOf entries), ackSync link entries g) := by
      unfold flushBatch
      rw [if_neg hne]
      simp only [Pg.run, Table.transaction, (insertMatchBatch_ok (List.ne_nil_of_mem hmem)).1 ha]
    rw [hflush]
    refine ⟨persisted_stored hmem, fun hnew huniq => ?_,
      fun hlink => acknowledged_ackSync hlink he g⟩
    refine Table.mem_insertNew_of_fresh _ (List.mem_map_of_mem hmem) hnew fun row hrow hid => ?_
    obtain ⟨item, hitem, rfl⟩ := List.mem_map.mp hrow
    obtain ⟨e', he', rfl⟩ := List.mem_map.mp hitem
    rw [huniq e' he' hid]
  · intro hna pg
    unfold flushBatch
    split
    · rfl
    next hne =>
      have hbatch : batchOf entries ≠ [] := fun h => hne (List.map_eq_nil_iff.mp h)
      obtain ⟨err, herr⟩ := (insertMatchBatch_ok hbatch).2 hna
      cases pg <;> simp only [Pg.run, Table.transaction, herr]

/-! ## What isolation would be -/

/-- Whatever else is in the batch, a match that gives no reason to be refused is
stored and acknowledged. -/
def Isolates (db : Db) (entries : List SyncEntry) (g : SyncGroup) : Prop :=
  ∀ l₁ e l₂, entries = l₁ ++ e :: l₂ →
    ¬ db.has e.2.item → e.2.item.users.Nodup →
    (∀ r ∈ db.matchPlayers, r.active → r.userId ∉ e.2.item.users) →
    (∀ e' ∈ l₁ ++ l₂, e.2.item.Apart e'.2.item) →
    Persisted (flushBatch .up .up entries db g).1 e.2.item ∧
      Acknowledged (flushBatch .up .up entries db g).2 e.1

/-- The users 11 to 20. -/
def resultTwo : MatchResult :=
  ⟨2, [(11, 0), (12, 0), (13, 0), (14, 0), (15, 0)],
    [(16, 0), (17, 0), (18, 0), (19, 0), (20, 0)], 0⟩

/-- The users 21 to 30. -/
def resultThree : MatchResult :=
  ⟨3, [(21, 0), (22, 0), (23, 0), (24, 0), (25, 0)],
    [(26, 0), (27, 0), (28, 0), (29, 0), (30, 0)], 0⟩

/-- The users 21 to 29 with user 1, who plays in `matchOne`. -/
def resultRival : MatchResult :=
  ⟨3, [(1, 0), (22, 0), (23, 0), (24, 0), (25, 0)],
    [(26, 0), (27, 0), (28, 0), (29, 0), (21, 0)], 0⟩

/-- Two entries of one read, and the group they are pending in. -/
def twoRead : List SyncEntry := [(2, resultTwo), (3, resultThree)]

/-- The group they are pending in. -/
def twoPending : SyncGroup := ⟨3, [(2, some resultTwo), (3, some resultThree)]⟩

/-- Both are stored and acknowledged, next to a match that is active. -/
theorem flushBatch_all_or_nothing_two :
    (∀ e ∈ twoRead, Persisted (flushBatch .up .up twoRead matchOneStored twoPending).1 e.2.item) ∧
    ∀ e ∈ twoRead, Acknowledged (flushBatch .up .up twoRead matchOneStored twoPending).2 e.1 := by
  have hdb : matchOneStored.Indexed := by decide +kernel
  have hclean : Clean matchOneStored (batchOf twoRead) := by decide +kernel
  have hflush := (flushBatch_all_or_nothing hdb twoRead twoPending .up).1 hclean
  exact ⟨fun e he => (hflush e he).1, fun e he => (hflush e he).2.2 (by decide)⟩

/-- A match with a player who has an active match already keeps a fresh match of its batch
from being stored. -/
theorem poison_isolation_fails :
    ¬ ∀ db, Lts.Run Db.step Lts.Free Db.empty db → ∀ entries g, Isolates db entries g := by
  intro hclaim
  have hexec : (Lts.exec Db.step (fun _ _ => true) Db.empty
      (List.replicate 10 (.createUser 0 .up) ++ [.insertMatchBatch [matchOne] .up])).any
      (fun db => db = matchOneStored) = true := by decide +kernel
  obtain ⟨db, hrun, hdb⟩ := Lts.exists_run_of_exec hexec
  rw [of_decide_eq_true hdb] at hrun
  have hfresh := hclaim matchOneStored hrun.free [(3, resultRival), (2, resultTwo)] ⟨3, []⟩
    [(3, resultRival)] (2, resultTwo) [] rfl (by decide +kernel) (by decide +kernel)
    (by decide +kernel) (by decide +kernel)
  revert hfresh
  decide +kernel

end Supermatchmaker
