import Supermatchmaker.Db.Statements

/-!
# The columns that repeat the rows

Three columns say again what other rows say, and each is kept by statements of
its own:

- `match_players.active` "mirrors the match status". Inserting a match skips a
  row of `matches` that is stored already and adds the player rows all the same,
  so the two part as soon as a match is delivered again after it was ended
  (`NoRevival`, `mirrored_iff_noRevival`).
- `users.in_match` is set with the player rows and never cleared: `end_match`
  frees the rows and forgets the flag (`FlagSafe`, `truthful_iff_flagSafe`).
- `users.matches_played` is bumped once per statement and user, however many rows
  the statement inserts for the user. That the unique index refuses such a
  statement is what makes the column a count (`matchesPlayed_eq`).
-/

namespace Supermatchmaker

/-! ## `active` and the match status -/

/-- Every player row is active exactly while its match is. -/
def Db.Mirrored (db : Db) : Prop :=
  ∀ r ∈ db.matchPlayers, r.active ↔ db.Running r.matchId

/-- Ending its match frees the player of an active row. -/
def Db.Freeable (db : Db) : Prop :=
  ∀ r ∈ db.matchPlayers, r.active → ∃ db', endMatch r.matchId db = .ok db' ∧
    ∀ r' ∈ db'.matchPlayers, r'.userId = r.userId → ¬ r'.active

/-- No player row is added to a match that is stored as ended. -/
def Db.NoRevival (db : Db) : DbEvent → Prop
  | .insertMatchBatch batch pg =>
    pg = .down ∨ ¬ Accepted db batch ∨ ∀ e ∈ batch, e.users ≠ [] → db.Unended e
  | .createUser .. | .endMatch .. => True

instance (db : Db) : Decidable db.Mirrored := List.decidableBAll _ db.matchPlayers

instance (db : Db) (e : DbEvent) : Decidable (db.NoRevival e) :=
  match e with
  | .insertMatchBatch batch pg =>
    have : Decidable (∀ e ∈ batch, e.users ≠ [] → db.Unended e) := List.decidableBAll _ batch
    inferInstanceAs (Decidable (pg = .down ∨ ¬ Accepted db batch ∨
      ∀ e ∈ batch, e.users ≠ [] → db.Unended e))
  | .createUser .. | .endMatch .. => .isTrue trivial

/-- The keys of the tables, in every reachable state. -/
structure Db.Keyed (db : Db) : Prop where
  indexed : db.Indexed
  keys : (db.matchRows.map MatchRow.id).Nodup
  /-- the foreign key `match_players.match_id` -/
  owned : ∀ r ∈ db.matchPlayers, r.matchId ∈ db.matchRows.map MatchRow.id

theorem Db.Keyed.row_unique {db : Db} (h : db.Keyed) {m m' : MatchRow} (hm : m ∈ db.matchRows)
    (hm' : m' ∈ db.matchRows) (hid : m.id = m'.id) : m = m' :=
  List.inj_on_of_nodup_map h.keys hm hm' hid

theorem ended_ids (matchId : Int64) (db : Db) :
    (db.ended matchId).matchRows.map MatchRow.id = db.matchRows.map MatchRow.id := by
  show (db.matchRows.map (endRow matchId)).map MatchRow.id = _
  rw [List.map_map]
  exact List.map_congr_left fun row _ => endRow_id matchId row

/-- **Step**: match ids stay unique, the index holds, and a player row has its match. -/
theorem step_keyed {db db' : Db} {e : DbEvent} (hdb : db.Keyed) (h : db.step e = some db') :
    db'.Keyed := by
  have hindexed := step_indexed hdb.indexed h
  cases step_outcome h with
  | signedUp | notSignedUp | refused | notEnded => exact ⟨hindexed, hdb.keys, hdb.owned⟩
  | @stored batch =>
    refine ⟨hindexed, Table.nodup_insertNew _ hdb.keys, fun r hr => ?_⟩
    rcases List.mem_append.mp hr with hr | hr
    · obtain ⟨m, hm, hid⟩ := List.mem_map.mp (hdb.owned r hr)
      exact List.mem_map.mpr ⟨m, Table.subset_insertNew _ hm, hid⟩
    · obtain ⟨e, he, hre⟩ := List.mem_flatMap.mp hr
      rw [(BatchItem.active_of_mem hre).2]
      exact Table.key_mem_insertNew (x := e.matchRow) _ (List.mem_map_of_mem he)
  | @ended matchId =>
    refine ⟨hindexed, by rw [ended_ids]; exact hdb.keys, fun r hr => ?_⟩
    obtain ⟨old, hold, rfl⟩ := List.mem_map.mp hr
    rw [ended_ids, leaveRow_matchId]
    exact hdb.owned old hold

theorem empty_keyed : Db.empty.Keyed := ⟨List.nodup_nil, List.nodup_nil, nofun⟩

/-- Which matches run after a batch was taken: those that ran before, and those
that were not stored. -/
theorem running_stored {db : Db} (hdb : db.Keyed) (batch : List BatchItem) (matchId : Int64) :
    (stored db batch).Running matchId ↔ db.Running matchId ∨
      matchId ∉ db.matchRows.map MatchRow.id ∧ ∃ e ∈ batch, e.matchId = matchId := by
  have hkeys : ((stored db batch).matchRows.map MatchRow.id).Nodup :=
    Table.nodup_insertNew _ hdb.keys
  constructor
  · rintro ⟨m, hm, hid, hrun⟩
    by_cases hold : matchId ∈ db.matchRows.map MatchRow.id
    · -- the stored row has the id too, and ids are unique: nothing was inserted
      left
      obtain ⟨m', hm', hid'⟩ := List.mem_map.mp hold
      have hmem : m' ∈ (stored db batch).matchRows := Table.subset_insertNew _ hm'
      have heq : m' = m := List.inj_on_of_nodup_map hkeys hmem hm (hid'.trans hid.symm)
      exact ⟨m, heq ▸ hm', hid, hrun⟩
    · right
      refine ⟨hold, ?_⟩
      rcases Table.mem_insertNew _ hm with hm | hm
      · exact absurd (List.mem_map.mpr ⟨m, hm, hid⟩) hold
      · obtain ⟨e, he, rfl⟩ := List.mem_map.mp hm
        exact ⟨e, he, hid⟩
  · rintro (⟨m, hm, hid, hrun⟩ | ⟨hnew, e, he, rfl⟩)
    · exact ⟨m, Table.subset_insertNew _ hm, hid, hrun⟩
    · have hkey : e.matchId ∈ (stored db batch).matchRows.map MatchRow.id :=
        Table.key_mem_insertNew (x := e.matchRow) _ (List.mem_map_of_mem he)
      obtain ⟨m, hm, hid⟩ := List.mem_map.mp hkey
      refine ⟨m, hm, hid, ?_⟩
      rcases Table.mem_insertNew _ hm with hm | hm
      · exact absurd (List.mem_map.mpr ⟨m, hm, hid⟩) hnew
      · obtain ⟨e', _, rfl⟩ := List.mem_map.mp hm
        rfl

theorem running_ended {db : Db} {matchId id : Int64} :
    (db.ended matchId).Running id ↔ id ≠ matchId ∧ db.Running id := by
  constructor
  · rintro ⟨m, hm, hid, hrun⟩
    obtain ⟨old, hold, rfl⟩ := List.mem_map.mp hm
    rw [endRow_id] at hid
    unfold endRow at hrun
    split at hrun
    · cases hrun
    next hne => exact ⟨hid ▸ hne, old, hold, hid, hrun⟩
  · rintro ⟨hne, m, hm, hid, hrun⟩
    refine ⟨endRow matchId m, List.mem_map_of_mem hm, by rw [endRow_id]; exact hid, ?_⟩
    unfold endRow
    rw [if_neg (hid ▸ hne)]
    exact hrun

/-- After a call that reached the server the match does not run, whether it did before or not. -/
theorem not_running_endMatch {db : Db} {matchId : Int64} {pg : Pg} (hpg : pg ≠ .down) :
    ¬ (pg.run (endMatch matchId) db).2.Running matchId := by
  have htx := endMatch_eq matchId db
  by_cases hrun : db.Running matchId
  · rw [if_pos hrun] at htx
    rw [Pg.run_ok hpg htx]
    exact fun h => (running_ended.mp h).1 rfl
  · rw [if_neg hrun] at htx
    rw [Pg.run_error pg htx]
    exact hrun

/-- **Insertion** keeps the mirror exactly when no ended match gets player rows. -/
theorem stored_mirrored {db : Db} (hdb : db.Keyed) (hm : db.Mirrored) (batch : List BatchItem) :
    (stored db batch).Mirrored ↔ ∀ e ∈ batch, e.users ≠ [] → db.Unended e := by
  constructor
  · intro h e he husers row hrow hid
    -- a player row of the match is active now, so the match must run
    rw [← e.playerRows_users true] at husers
    obtain ⟨r, hr⟩ := List.exists_mem_of_ne_nil _ (fun hnil => husers (congrArg _ hnil))
    obtain ⟨hact, hmid⟩ := BatchItem.active_of_mem hr
    have hmem : r ∈ (stored db batch).matchPlayers :=
      List.mem_append_right _ (List.mem_flatMap.mpr ⟨e, he, hr⟩)
    have hrun := (h r hmem).mp hact
    rw [hmid, running_stored hdb] at hrun
    rcases hrun with ⟨m, hm, hidm, hrunm⟩ | ⟨hnew, _⟩
    · rwa [hdb.row_unique hrow hm (hid.trans hidm.symm)]
    · exact absurd (List.mem_map.mpr ⟨row, hrow, hid⟩) hnew
  · intro h r hr
    rw [running_stored hdb]
    rcases List.mem_append.mp hr with hr | hr
    · rw [hm r hr]
      constructor
      · exact Or.inl
      · rintro (hrun | ⟨hnew, _⟩)
        · exact hrun
        · exact absurd (hdb.owned r hr) hnew
    · obtain ⟨e, he, hre⟩ := List.mem_flatMap.mp hr
      obtain ⟨hact, hmid⟩ := BatchItem.active_of_mem hre
      refine iff_of_true hact ?_
      rw [hmid]
      by_cases hold : e.matchId ∈ db.matchRows.map MatchRow.id
      · left
        obtain ⟨m, hmem, hid⟩ := List.mem_map.mp hold
        have husers : e.users ≠ [] := by
          rw [← e.playerRows_users true]
          exact List.ne_nil_of_mem (List.mem_map_of_mem hre)
        exact ⟨m, hmem, hid, h e he husers m hmem hid⟩
      · exact Or.inr ⟨hold, e, he, rfl⟩

/-- `end_match` writes both tables, so it keeps them in agreement. -/
theorem ended_mirrored {db : Db} (hm : db.Mirrored) (matchId : Int64) :
    (db.ended matchId).Mirrored := by
  intro r hr
  obtain ⟨old, hold, rfl⟩ := List.mem_map.mp hr
  rw [leaveRow_matchId, running_ended]
  unfold leaveRow
  by_cases hid : old.matchId = matchId
  · rw [if_pos hid]
    exact iff_of_false Bool.false_ne_true fun h => h.1 hid
  · rw [if_neg hid, hm old hold]
    exact ⟨fun hrun => ⟨hid, hrun⟩, fun h => h.2⟩

/-- What the call leaves mirrors the matches exactly when it revives none. -/
theorem step_mirrored {db db' : Db} {e : DbEvent} (hdb : db.Keyed) (hm : db.Mirrored)
    (h : db.step e = some db') : db'.Mirrored ↔ db.NoRevival e := by
  cases step_outcome h with
  | signedUp | notSignedUp | notEnded => exact iff_of_true hm trivial
  | refused hwhy =>
    refine iff_of_true hm ?_
    rcases hwhy with hdown | rfl | hna
    · exact Or.inl hdown
    · exact Or.inr (Or.inr nofun)
    · exact Or.inr (Or.inl hna)
  | @stored batch pg hpg _ ha =>
    rw [stored_mirrored hdb hm]
    constructor
    · exact fun hnew => Or.inr (Or.inr hnew)
    · rintro (hdown | hna | hnew)
      · exact absurd hdown hpg
      · exact absurd ha hna
      · exact hnew
  | ended => exact iff_of_true (ended_mirrored hm _) trivial

/-- While the flags mirror the matches, ending a match frees its players. -/
theorem freeable_of_mirrored {db : Db} (hdb : db.Keyed) (hm : db.Mirrored) : db.Freeable := by
  intro r hr hact
  have hrun := (hm r hr).mp hact
  refine ⟨db.ended r.matchId, (endMatch_eq r.matchId db).trans (if_pos hrun), ?_⟩
  intro r' hr' huser hact'
  obtain ⟨old, hold, rfl⟩ := List.mem_map.mp hr'
  unfold leaveRow at huser hact'
  split at hact'
  · cases hact'
  next hid =>
    -- another active row of the same user is the same row
    rw [if_neg hid] at huser
    have hmem : old ∈ db.matchPlayers.filter PlayerRow.active := List.mem_filter.mpr ⟨hold, hact'⟩
    have hmem' : r ∈ db.matchPlayers.filter PlayerRow.active := List.mem_filter.mpr ⟨hr, hact⟩
    have heq : old = r := List.inj_on_of_nodup_map hdb.indexed hmem hmem' huser
    exact hid (congrArg PlayerRow.matchId heq)

/-- **The mirror**: in a run that revives no ended match it holds in every state,
and from there the next call breaks it exactly when it revives one. -/
theorem mirrored_iff_noRevival {db : Db} (hrun : Lts.Run Db.step Db.NoRevival Db.empty db) :
    (db.Mirrored ∧ db.Freeable) ∧ ∀ e db', db.step e = some db' →
      ((db'.Mirrored ∧ db'.Freeable) ↔ db.NoRevival e) := by
  have hinv : db.Keyed ∧ db.Mirrored :=
    hrun.inv (I := fun db => db.Keyed ∧ db.Mirrored)
      (fun h hg hs => ⟨step_keyed h.1 hs, (step_mirrored h.1 h.2 hs).mpr hg⟩)
      ⟨empty_keyed, fun _ hr => nomatch hr⟩
  obtain ⟨hkeyed, hm⟩ := hinv
  refine ⟨⟨hm, freeable_of_mirrored hkeyed hm⟩, fun e db' hs => ?_⟩
  rw [← step_mirrored hkeyed hm hs]
  exact ⟨fun h => h.1, fun h => ⟨h, freeable_of_mirrored (step_keyed hkeyed hs) h⟩⟩

/-- Ten signups and a match of the ten. -/
def matchOnePlayed : List DbEvent :=
  List.replicate 10 (.createUser 0 .up) ++ [.insertMatchBatch [matchOne] .up]

/-- Delivered a second time while it runs, which the index refuses. -/
theorem mirrored_iff_noRevival_matchOne :
    ∃ db : Db, db.matchPlayers.any PlayerRow.active ∧ (db.Mirrored ∧ db.Freeable) ∧
      ∀ e db', db.step e = some db' → ((db'.Mirrored ∧ db'.Freeable) ↔ db.NoRevival e) := by
  have hexec : (Lts.exec Db.step (fun db e => db.NoRevival e) Db.empty
      (matchOnePlayed ++ [.insertMatchBatch [matchOne] .up])).any
      (fun db => db.matchPlayers.any PlayerRow.active) = true := by decide +kernel
  obtain ⟨db, hrun, hactive⟩ := Lts.exists_run_of_exec hexec
  exact ⟨db, hactive, mirrored_iff_noRevival (hrun.mono of_decide_eq_true)⟩

/-- Delivered a second time after it was ended, which the index does not refuse:
the rows are active and the match is not. -/
theorem mirrored_fails :
    ¬ ∀ db, Lts.Run Db.step Lts.Free Db.empty db → db.Mirrored ∧ db.Freeable := by
  intro hclaim
  have hexec : (Lts.exec Db.step (fun _ _ => true) Db.empty
      (matchOnePlayed ++ [.endMatch 1 .up, .insertMatchBatch [matchOne] .up])).any
      (fun db => ¬ db.Mirrored) = true := by decide +kernel
  obtain ⟨db, hrun, hbroken⟩ := Lts.exists_run_of_exec hexec
  exact of_decide_eq_true hbroken (hclaim db hrun.free).1

/-! ## `in_match` -/

/-- The user has an active player row. -/
def Db.Playing (db : Db) (userId : Int64) : Prop :=
  ∃ r ∈ db.matchPlayers, r.userId = userId ∧ r.active

instance (db : Db) (userId : Int64) : Decidable (db.Playing userId) :=
  List.decidableBEx _ db.matchPlayers

/-- `in_match` tells who has one. -/
def Db.Truthful (db : Db) : Prop := ∀ u ∈ db.users, u.inMatch ↔ db.Playing u.id

instance (db : Db) : Decidable db.Truthful := List.decidableBAll _ db.users

/-- No match with a registered player in it is ended, and nobody signs up under an
id that is in a match already. -/
def Db.FlagSafe (db : Db) : DbEvent → Prop
  | .createUser _ pg =>
    pg = .down ∨ ¬ db.nextUserId < 2 ^ 63 ∨ ¬ db.Playing (Int64.ofNat db.nextUserId)
  | .insertMatchBatch .. => True
  | .endMatch matchId pg => pg = .down ∨ ¬ db.Running matchId ∨
      ∀ r ∈ db.matchPlayers, r.matchId = matchId → r.active → ∀ u ∈ db.users, u.id ≠ r.userId

instance (db : Db) (e : DbEvent) : Decidable (db.FlagSafe e) :=
  match e with
  | .createUser _ pg => inferInstanceAs (Decidable (pg = .down ∨ ¬ db.nextUserId < 2 ^ 63 ∨
      ¬ db.Playing (Int64.ofNat db.nextUserId)))
  | .insertMatchBatch .. => .isTrue trivial
  | .endMatch matchId pg =>
    have : Decidable (∀ r ∈ db.matchPlayers, r.matchId = matchId → r.active →
        ∀ u ∈ db.users, u.id ≠ r.userId) :=
      have : ∀ r : PlayerRow, Decidable (∀ u ∈ db.users, u.id ≠ r.userId) := fun _ =>
        List.decidableBAll _ db.users
      List.decidableBAll _ db.matchPlayers
    inferInstanceAs (Decidable (pg = .down ∨ ¬ db.Running matchId ∨
      ∀ r ∈ db.matchPlayers, r.matchId = matchId → r.active → ∀ u ∈ db.users, u.id ≠ r.userId))

/-- A new user is not flagged, so the id must not be that of a player already. -/
theorem signedUp_truthful {db : Db} (ht : db.Truthful) (rating : Int32) :
    (db.signedUp rating).Truthful ↔ ¬ db.Playing (Int64.ofNat db.nextUserId) := by
  constructor
  · intro h hplaying
    have hnew := (h ⟨Int64.ofNat db.nextUserId, rating, false, 0⟩
      (List.mem_append_right _ List.mem_cons_self)).mpr hplaying
    cases hnew
  · intro hfree u hu
    rcases List.mem_append.mp hu with hu | hu
    · exact ht u hu
    · rw [List.mem_singleton.mp hu]
      exact iff_of_false Bool.false_ne_true hfree

/-- A batch makes its users play, and nobody else. -/
theorem playing_stored {db : Db} {batch : List BatchItem} {userId : Int64} :
    (stored db batch).Playing userId ↔ db.Playing userId ∨ userId ∈ batchUsers batch := by
  rw [← batch_rows_users]
  constructor
  · rintro ⟨r, hr, huser, hact⟩
    rcases List.mem_append.mp hr with hr | hr
    · exact Or.inl ⟨r, hr, huser, hact⟩
    · exact Or.inr (List.mem_map.mpr ⟨r, hr, huser⟩)
  · rintro (⟨r, hr, huser, hact⟩ | hmem)
    · exact ⟨r, List.mem_append_left _ hr, huser, hact⟩
    · obtain ⟨r, hr, huser⟩ := List.mem_map.mp hmem
      exact ⟨r, List.mem_append_right _ hr, huser, batch_rows_active r hr⟩

/-- A batch flags whom it makes play. -/
theorem stored_truthful {db : Db} (ht : db.Truthful) (batch : List BatchItem) :
    (stored db batch).Truthful := by
  intro u hu
  obtain ⟨old, hold, rfl⟩ := List.mem_map.mp hu
  rw [playing_stored]
  by_cases hin : old.id ∈ batchUsers batch
  · rw [if_pos (decide_eq_true hin)]
    exact iff_of_true rfl (Or.inr hin)
  · rw [if_neg (fun h => hin (of_decide_eq_true h)), ht old hold]
    exact ⟨Or.inl, fun h => h.resolve_right hin⟩

/-- **Ending** a match keeps the flags true exactly when none of its players is
registered: the flag of a registered one stays set. -/
theorem ended_truthful {db : Db} (hdb : db.Keyed) (ht : db.Truthful) (matchId : Int64) :
    (db.ended matchId).Truthful ↔
      ∀ r ∈ db.matchPlayers, r.matchId = matchId → r.active → ∀ u ∈ db.users, u.id ≠ r.userId := by
  have hplaying : ∀ userId, (db.ended matchId).Playing userId ↔
      ∃ r ∈ db.matchPlayers, r.matchId ≠ matchId ∧ r.userId = userId ∧ r.active := by
    intro userId
    constructor
    · rintro ⟨r, hr, huser, hact⟩
      obtain ⟨old, hold, rfl⟩ := List.mem_map.mp hr
      unfold leaveRow at huser hact
      split at hact
      · cases hact
      next hne =>
        rw [if_neg hne] at huser
        exact ⟨old, hold, hne, huser, hact⟩
    · rintro ⟨r, hr, hne, huser, hact⟩
      have hsame : leaveRow matchId r = r := if_neg hne
      exact ⟨r, List.mem_map.mpr ⟨r, hr, hsame⟩, huser, hact⟩
  constructor
  · intro h r hr hmid hact u hu huser
    -- the flag is still set, so some other match of the user would have to run
    have hflag : u.inMatch := (ht u hu).mpr ⟨r, hr, huser.symm, hact⟩
    obtain ⟨r', hr', hne, huser', hact'⟩ := (hplaying u.id).mp ((h u hu).mp hflag)
    have hmem : r ∈ db.matchPlayers.filter PlayerRow.active := List.mem_filter.mpr ⟨hr, hact⟩
    have hmem' : r' ∈ db.matchPlayers.filter PlayerRow.active := List.mem_filter.mpr ⟨hr', hact'⟩
    have heq : r' = r := List.inj_on_of_nodup_map hdb.indexed hmem' hmem (huser'.trans huser)
    exact hne (heq ▸ hmid)
  · intro h u hu
    rw [hplaying, ht u hu]
    constructor
    · rintro ⟨r, hr, huser, hact⟩
      exact ⟨r, hr, fun hmid => h r hr hmid hact u hu huser.symm, huser, hact⟩
    · rintro ⟨r, hr, _, huser, hact⟩
      exact ⟨r, hr, huser, hact⟩

/-- **Step**: the flag stays true exactly if the step is `FlagSafe`. -/
theorem step_truthful {db db' : Db} {e : DbEvent} (hdb : db.Keyed) (ht : db.Truthful)
    (h : db.step e = some db') : db'.Truthful ↔ db.FlagSafe e := by
  cases step_outcome h with
  | @signedUp rating pg hpg hid =>
    rw [signedUp_truthful ht]
    constructor
    · exact fun hfree => Or.inr (Or.inr hfree)
    · rintro (hdown | hout | hfree)
      · exact absurd hdown hpg
      · exact absurd hid hout
      · exact hfree
  | notSignedUp hwhy =>
    refine iff_of_true ht ?_
    rcases hwhy with hdown | hout
    · exact Or.inl hdown
    · exact Or.inr (Or.inl hout)
  | stored => exact iff_of_true (stored_truthful ht _) trivial
  | refused => exact iff_of_true ht trivial
  | @ended matchId pg hpg hrun =>
    rw [ended_truthful hdb ht]
    constructor
    · exact fun hnone => Or.inr (Or.inr hnone)
    · rintro (hdown | hnot | hnone)
      · exact absurd hdown hpg
      · exact absurd hrun hnot
      · exact hnone
  | notEnded hwhy =>
    refine iff_of_true ht ?_
    rcases hwhy with hdown | hnot
    · exact Or.inl hdown
    · exact Or.inr (Or.inl hnot)

/-- **The flag**: in a run of safe calls it is right in every state, and from
there the next call makes it wrong exactly when it is not safe. -/
theorem truthful_iff_flagSafe {db : Db} (hrun : Lts.Run Db.step Db.FlagSafe Db.empty db) :
    db.Truthful ∧ ∀ e db', db.step e = some db' → (db'.Truthful ↔ db.FlagSafe e) := by
  have hinv : db.Keyed ∧ db.Truthful :=
    hrun.inv (I := fun db => db.Keyed ∧ db.Truthful)
      (fun h hg hs => ⟨step_keyed h.1 hs, (step_truthful h.1 h.2 hs).mpr hg⟩)
      ⟨empty_keyed, fun _ hu => nomatch hu⟩
  exact ⟨hinv.2, fun e db' hs => step_truthful hinv.1 hinv.2 hs⟩

/-- The ten while their match runs. -/
theorem truthful_iff_flagSafe_matchOne :
    ∃ db : Db, db.users.any UserRow.inMatch ∧ db.Truthful ∧
      ∀ e db', db.step e = some db' → (db'.Truthful ↔ db.FlagSafe e) := by
  have hexec : (Lts.exec Db.step (fun db e => db.FlagSafe e) Db.empty matchOnePlayed).any
      (fun db => db.users.any UserRow.inMatch) = true := by decide +kernel
  obtain ⟨db, hrun, hflag⟩ := Lts.exists_run_of_exec hexec
  exact ⟨db, hflag, truthful_iff_flagSafe (hrun.mono of_decide_eq_true)⟩

/-- The ten after their match was ended. -/
theorem truthful_fails : ¬ ∀ db, Lts.Run Db.step Lts.Free Db.empty db → db.Truthful := by
  intro hclaim
  have hexec : (Lts.exec Db.step (fun _ _ => true) Db.empty
      (matchOnePlayed ++ [.endMatch 1 .up])).any (fun db => ¬ db.Truthful) = true := by
    decide +kernel
  obtain ⟨db, hrun, hbroken⟩ := Lts.exists_run_of_exec hexec
  exact of_decide_eq_true hbroken (hclaim db hrun.free)

/-! ## `matches_played` -/

/-- How many player rows the user has. -/
def Db.rowsWith (db : Db) (userId : Int64) : Nat :=
  db.matchPlayers.countP fun r => r.userId = userId

/-- The batches have registered users only. -/
def Db.OverExisting (db : Db) : DbEvent → Prop
  | .insertMatchBatch batch _ => ∀ id ∈ batchUsers batch, id ∈ db.users.map UserRow.id
  | .createUser .. | .endMatch .. => True

instance (db : Db) (e : DbEvent) : Decidable (db.OverExisting e) :=
  match e with
  | .insertMatchBatch batch _ => List.decidableBAll _ (batchUsers batch)
  | .createUser .. | .endMatch .. => .isTrue trivial

/-- The counts are right, and nobody signs up under an id that has rows. -/
structure Db.Counted (db : Db) : Prop where
  counts : ∀ u ∈ db.users, u.matchesPlayed = db.rowsWith u.id
  issued : ∀ u ∈ db.users, ∃ k < db.nextUserId, u.id = Int64.ofNat k
  registered : ∀ r ∈ db.matchPlayers, r.userId ∈ db.users.map UserRow.id
  bound : db.nextUserId ≤ 2 ^ 63

theorem ofNat_inj {a b : Nat} (ha : a < 2 ^ 63) (hb : b < 2 ^ 63)
    (h : Int64.ofNat a = Int64.ofNat b) : a = b := by
  have hint := congrArg Int64.toInt h
  rw [Int64.toInt_ofNat_of_lt ha, Int64.toInt_ofNat_of_lt hb] at hint
  omega

/-- A new user has played no match. -/
theorem signedUp_counted {db : Db} (hdb : db.Counted) (hid : db.nextUserId < 2 ^ 63)
    (rating : Int32) : (db.signedUp rating).Counted := by
  refine ⟨fun u hu => ?_, fun u hu => ?_, fun r hr => ?_, by show db.nextUserId + 1 ≤ _; omega⟩
  · show u.matchesPlayed = db.rowsWith u.id
    rcases List.mem_append.mp hu with hu | hu
    · exact hdb.counts u hu
    · -- the new id is above every id that has rows
      rw [List.mem_singleton.mp hu]
      refine (List.countP_eq_zero.mpr fun r hr heq => ?_).symm
      obtain ⟨v, hv, hvr⟩ := List.mem_map.mp (hdb.registered r hr)
      obtain ⟨k, hk, hvk⟩ := hdb.issued v hv
      have hsame : Int64.ofNat k = Int64.ofNat db.nextUserId := by
        rw [← hvk, hvr]
        exact of_decide_eq_true heq
      have := ofNat_inj (by omega) hid hsame
      omega
  · rcases List.mem_append.mp hu with hu | hu
    · obtain ⟨k, hk, heq⟩ := hdb.issued u hu
      exact ⟨k, Nat.lt_succ_of_lt hk, heq⟩
    · rw [List.mem_singleton.mp hu]
      exact ⟨db.nextUserId, Nat.lt_succ_self _, rfl⟩
  · show r.userId ∈ (db.users ++ _).map UserRow.id
    rw [List.map_append]
    exact List.mem_append_left _ (hdb.registered r hr)

/-- A batch that is taken has each of its users once. -/
theorem rowsWith_stored {db : Db} {batch : List BatchItem} (ha : Accepted db batch)
    (userId : Int64) :
    (stored db batch).rowsWith userId
      = db.rowsWith userId + if userId ∈ batchUsers batch then 1 else 0 := by
  have hnodup : (batchUsers batch).Nodup := by
    have huniq := (Table.uniqueOn_append batch_rows_active).mp ha.unique
    rw [← batch_rows_users]
    exact huniq.2.1
  have hcount : (batch.flatMap (·.playerRows true)).countP (fun r => r.userId = userId)
      = (batchUsers batch).count userId := by
    rw [← batch_rows_users, List.count, List.countP_map]
    refine List.countP_congr fun r _ => ?_
    simp
  show (db.matchPlayers ++ _).countP _ = _
  rw [List.countP_append, hcount, hnodup.count]
  rfl

/-- A batch counts one match for each of its users. -/
theorem stored_counted {db : Db} {batch : List BatchItem} (hdb : db.Counted)
    (ha : Accepted db batch) (hover : ∀ id ∈ batchUsers batch, id ∈ db.users.map UserRow.id) :
    (stored db batch).Counted := by
  have hids : (stored db batch).users.map UserRow.id = db.users.map UserRow.id := by
    show (List.map _ db.users).map UserRow.id = _
    rw [List.map_map]
    refine List.map_congr_left fun u _ => ?_
    show UserRow.id (if _ then _ else _) = _
    split <;> rfl
  refine ⟨fun u hu => ?_, fun u hu => ?_, fun r hr => ?_, hdb.bound⟩
  · obtain ⟨old, hold, rfl⟩ := List.mem_map.mp hu
    have hcounts := hdb.counts old hold
    by_cases hin : old.id ∈ batchUsers batch
    · rw [if_pos (decide_eq_true hin), rowsWith_stored ha, if_pos hin, ← hcounts]
    · rw [if_neg (fun h => hin (of_decide_eq_true h)), rowsWith_stored ha, if_neg hin, ← hcounts]
      rfl
  · have hmem : u.id ∈ db.users.map UserRow.id := by
      rw [← hids]
      exact List.mem_map_of_mem hu
    obtain ⟨v, hv, hvu⟩ := List.mem_map.mp hmem
    obtain ⟨k, hk, hvk⟩ := hdb.issued v hv
    exact ⟨k, hk, hvu ▸ hvk⟩
  · rw [hids]
    rcases List.mem_append.mp hr with hr | hr
    · exact hdb.registered r hr
    · refine hover _ ?_
      rw [← batch_rows_users]
      exact List.mem_map_of_mem hr

@[simp] theorem leaveRow_userId (matchId : Int64) (r : PlayerRow) :
    (leaveRow matchId r).userId = r.userId := by
  unfold leaveRow
  split <;> rfl

theorem ended_counted {db : Db} (hdb : db.Counted) (matchId : Int64) :
    (db.ended matchId).Counted := by
  refine ⟨fun u hu => ?_, hdb.issued, fun r hr => ?_, hdb.bound⟩
  · rw [hdb.counts u hu]
    show _ = (db.matchPlayers.map (leaveRow matchId)).countP _
    rw [List.countP_map]
    refine List.countP_congr fun r _ => ?_
    simp
  · obtain ⟨old, hold, rfl⟩ := List.mem_map.mp hr
    rw [leaveRow_userId]
    exact hdb.registered old hold

/-- **Step**: the counters count, as long as batches are of users who exist. -/
theorem step_counted {db db' : Db} {e : DbEvent} (hdb : db.Counted) (hg : db.OverExisting e)
    (h : db.step e = some db') : db'.Counted := by
  cases step_outcome h with
  | signedUp _ hid => exact signedUp_counted hdb hid _
  | stored _ _ ha => exact stored_counted hdb ha hg
  | ended => exact ended_counted hdb _
  | notSignedUp | refused | notEnded => exact hdb

/-- **The count**: `matches_played` is the number of player rows of the user. -/
theorem matchesPlayed_eq {db : Db} (hrun : Lts.Run Db.step Db.OverExisting Db.empty db) :
    ∀ u ∈ db.users, u.matchesPlayed = db.rowsWith u.id := by
  have hcounted : db.Counted :=
    hrun.inv (fun hdb hg hs => step_counted hdb hg hs) ⟨nofun, nofun, nofun, by decide⟩
  exact hcounted.counts

/-- One match ended and a second one of the same ten. -/
theorem matchesPlayed_eq_two :
    ∃ db : Db, db.users.any (fun u => u.matchesPlayed = 2) ∧
      ∀ u ∈ db.users, u.matchesPlayed = db.rowsWith u.id := by
  have hexec : (Lts.exec Db.step (fun db e => db.OverExisting e) Db.empty
      (matchOnePlayed ++
        [.endMatch 1 .up, .insertMatchBatch [{ matchOne with matchId := 2 }] .lost])).any
      (fun db => db.users.any (fun u => u.matchesPlayed = 2)) = true := by decide +kernel
  obtain ⟨db, hrun, htwo⟩ := Lts.exists_run_of_exec hexec
  exact ⟨db, htwo, matchesPlayed_eq (hrun.mono of_decide_eq_true)⟩

end Supermatchmaker
