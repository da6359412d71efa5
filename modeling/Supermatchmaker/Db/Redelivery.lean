import Supermatchmaker.Db.Tables
import Supermatchmaker.Lib.Lts

/-!
# Redelivered matches

The sync stream delivers at least once, and the comments of `insert_match_batch`
say that a redelivered match is absorbed ("skip any whose id was already
stored"). Only the first of its three statements does that: the player rows are
inserted again and the users are flagged and counted again.

`redelivery_not_absorbed` settles it for every state and every batch: as soon as
one match of the batch is stored already, or occurs twice, the call either fails
or leaves ten surplus player rows. Which of the two depends on the players:
`not_accepted_of_active` (one of them still has an active row: the unique index
refuses the batch), and otherwise the rows are appended once more.
-/

namespace Supermatchmaker

/-! ## Reachable tables -/

/-- The calls that write the tables, with how each of them went. -/
inductive DbEvent
  | createUser (rating : Int32) (pg : Pg)
  | insertMatchBatch (batch : List BatchItem) (pg : Pg)
  | endMatch (matchId : Int64) (pg : Pg)

/-- One call; whatever it returns, there is a next state. -/
def Db.step (db : Db) : DbEvent → Option Db
  | .createUser rating pg => some (pg.run (createUser rating) db).2
  | .insertMatchBatch batch pg => some (pg.run (insertMatchBatch batch) db).2
  | .endMatch matchId pg => some (pg.run (endMatch matchId) db).2

/-! ## What absorbing a redelivery would be -/

/-- Five players on each side, as `optimize_split` makes them. -/
def BatchItem.Full (e : BatchItem) : Prop := e.teamA.length = 5 ∧ e.teamB.length = 5

instance (e : BatchItem) : Decidable e.Full := inferInstanceAs (Decidable (_ ∧ _))

/-- The id of the match is in `matches`. -/
def Db.has (db : Db) (e : BatchItem) : Prop := e.matchId ∈ db.matchRows.map MatchRow.id

instance (db : Db) (e : BatchItem) : Decidable (db.has e) := inferInstanceAs (Decidable (_ ∈ _))

/-- Some match of the batch was inserted earlier, or is in it twice. -/
def Redelivers (db : Db) (batch : List BatchItem) : Prop :=
  (∃ e ∈ batch, db.has e) ∨ ¬ batch.Nodup

/-- The matches of the batch that are not stored yet, once each. -/
def distinctNew (db : Db) (batch : List BatchItem) : List BatchItem :=
  (batch.filter fun e => ¬ db.has e).dedup

/-- The call returns `Ok` and leaves the tables as if each distinct match had
been inserted once. -/
def Absorbs (db : Db) (batch : List BatchItem) : Prop :=
  ∃ db', insertMatchBatch batch db = .ok db' ∧ insertMatchBatch (distinctNew db batch) db = .ok db'

/-! ## Counting the player rows -/

theorem BatchItem.length_playerRows {e : BatchItem} (h : e.Full) (active : Bool) :
    (e.playerRows active).length = 10 := by
  unfold BatchItem.playerRows
  rw [List.length_append, List.length_map, List.length_map, h.1, h.2]

theorem length_flatMap_playerRows :
    ∀ (batch : List BatchItem), (∀ e ∈ batch, e.Full) →
      (batch.flatMap (·.playerRows true)).length = 10 * batch.length
  | [], _ => rfl
  | e :: batch, h => by
    have hrest := length_flatMap_playerRows batch fun x hx => h x (List.mem_cons_of_mem _ hx)
    have he := BatchItem.length_playerRows (h e List.mem_cons_self) true
    rw [List.flatMap_cons, List.length_append, List.length_cons, hrest, he]
    omega

/-- A successful call appends ten player rows for each item of the batch,
whatever was stored before. -/
theorem length_matchPlayers {db db' : Db} {batch : List BatchItem} (hfull : ∀ e ∈ batch, e.Full)
    (h : insertMatchBatch batch db = .ok db') :
    db'.matchPlayers.length = db.matchPlayers.length + 10 * batch.length := by
  rcases eq_of_insertMatchBatch h with ⟨rfl, rfl⟩ | ⟨_, _, rfl⟩
  · simp
  · show (db.matchPlayers ++ batch.flatMap (·.playerRows true)).length = _
    rw [List.length_append, length_flatMap_playerRows batch hfull]

/-- A redelivered batch has fewer new matches than it has items. -/
theorem length_distinctNew_lt {db : Db} {batch : List BatchItem} (h : Redelivers db batch) :
    (distinctNew db batch).length < batch.length := by
  have hdedup := (List.dedup_sublist (batch.filter fun e => ¬ db.has e)).length_le
  have hfilter := List.length_filter_le (fun e => decide (¬ db.has e)) batch
  rcases Nat.lt_or_ge (distinctNew db batch).length batch.length with hlt | hge
  · exact hlt
  · exfalso
    unfold distinctNew at hge
    -- nothing was filtered out and nothing was a duplicate
    have hall : batch.filter (fun e => ¬ db.has e) = batch :=
      List.filter_sublist.eq_of_length (by omega)
    rw [hall] at hge
    have hnodup : batch.dedup = batch := (List.dedup_sublist batch).eq_of_length_le hge
    rcases h with ⟨e, he, hhas⟩ | hdup
    · rw [← hall] at he
      have := (List.mem_filter.mp he).2
      exact absurd hhas (of_decide_eq_true this)
    · exact hdup (hnodup ▸ List.nodup_dedup batch)

/-! ## The result -/

/-- A batch with a user who still has an active row is refused. -/
theorem not_accepted_of_active {db : Db} {batch : List BatchItem} {r : PlayerRow}
    (hr : r ∈ db.matchPlayers) (ha : r.active) (hu : r.userId ∈ batchUsers batch) :
    ¬ Accepted db batch := by
  intro hacc
  obtain ⟨e, he, hue⟩ := List.mem_flatMap.mp hu
  rw [← e.playerRows_users true] at hue
  obtain ⟨r', hr', huser⟩ := List.mem_map.mp hue
  have hnew : ∀ x ∈ batch.flatMap (·.playerRows true), x.active := by
    intro x hx
    obtain ⟨e', _, hxe⟩ := List.mem_flatMap.mp hx
    exact (BatchItem.active_of_mem hxe).1
  have hdisj := ((Table.uniqueOn_append hnew).mp hacc.unique).2.2
  exact hdisj r' (List.mem_flatMap.mpr ⟨e, he, hr'⟩) r hr ha huser.symm

/-- **Redelivery is never absorbed.** -/
theorem redelivery_not_absorbed {db : Db} {batch : List BatchItem} (hfull : ∀ e ∈ batch, e.Full)
    (hr : Redelivers db batch) : ¬ Absorbs db batch := by
  rintro ⟨db', hbatch, hnew⟩
  have hsub : ∀ e ∈ distinctNew db batch, e.Full := fun e he =>
    hfull e (List.mem_of_mem_filter (List.mem_dedup.mp he))
  have h₁ := length_matchPlayers hfull hbatch
  have h₂ := length_matchPlayers hsub hnew
  have hlt := length_distinctNew_lt hr
  omega

/-- A match of the users 1 to 10. -/
def matchOne : BatchItem :=
  ⟨1, 0, [(1, 0), (2, 0), (3, 0), (4, 0), (5, 0)], [(6, 0), (7, 0), (8, 0), (9, 0), (10, 0)]⟩

/-- The tables after ten signups and the first delivery of that match. -/
def matchOneStored : Db :=
  (insertMatchBatch [matchOne] ((List.range 10).foldl (fun db _ =>
    (Pg.up.run (createUser 0) db).2) Db.empty)).toOption.getD Db.empty

/-- Delivered again while active (refused) and after it was ended (stored twice). -/
theorem redelivery_not_absorbed_matchOne :
    ¬ Absorbs matchOneStored [matchOne] ∧
    ¬ Absorbs (Pg.up.run (endMatch 1) matchOneStored).2 [matchOne] :=
  ⟨redelivery_not_absorbed (by decide) (Or.inl ⟨matchOne, by decide, by decide +kernel⟩),
    redelivery_not_absorbed (by decide) (Or.inl ⟨matchOne, by decide, by decide +kernel⟩)⟩

/-- It fails at a reachable state: ten signups, one match delivered, the
same match delivered again. -/
theorem redelivery_absorbed_fails :
    ¬ ∀ db, Lts.Run Db.step Lts.Free Db.empty db → ∀ batch : List BatchItem,
      (∀ e ∈ batch, e.Full) → Redelivers db batch → Absorbs db batch := by
  intro hclaim
  have hexec : (Lts.exec Db.step (fun _ _ => true) Db.empty
      (List.replicate 10 (.createUser 0 .up) ++ [.insertMatchBatch [matchOne] .up])).any
      (fun db => db.has matchOne) = true := by decide +kernel
  obtain ⟨db, hrun, hhas⟩ := Lts.exists_run_of_exec hexec
  have hred : Redelivers db [matchOne] := Or.inl ⟨matchOne, by decide, of_decide_eq_true hhas⟩
  obtain ⟨db', hbatch, hnew⟩ := hclaim db hrun.free [matchOne] (by decide) hred
  have h₁ := length_matchPlayers (by decide) hbatch
  have hempty : distinctNew db [matchOne] = [] :=
    List.eq_nil_of_length_eq_zero (by
      have hlt := length_distinctNew_lt hred
      rw [List.length_singleton] at hlt
      omega)
  rw [hempty] at hnew
  have h₂ := length_matchPlayers (by simp) hnew
  rw [List.length_singleton] at h₁
  rw [List.length_nil] at h₂
  omega

end Supermatchmaker
