import Supermatchmaker.Api.Rosters
import Supermatchmaker.Lib.Lts

/-!
# What a client reads about its matches

`GET /players/{id}/matches` puts its answer together from four kinds of queries,
and the poller and `end_match` write between any two of them. The answer is still
that of one history: rows are only ever added, a row keeps its match, user, team
and rating, and a match that has ended stays ended (`Db.Extends`). So the matches
shown are those the first query found, with full rosters, each with a status that
was stored (`player_matches_complete`).

The current match is read last, from another table than the statuses. As long as no
match is inserted again after it was ended, it is a match that runs; among the matches
shown it is the one whose status was active and that runs still; and if it is not
shown, the player was put into it after the first query (`current_match_shown`).
`end_match` writes both tables in one transaction, and the number it returns is the
number of players it has freed, in every reachable state (`end_match_frees`).
-/

namespace Supermatchmaker

/-! ## What no call undoes -/

/-- The row as it was inserted. -/
def PlayerRow.seat (r : PlayerRow) : PlayerRow := { r with active := true }

theorem leaveRow_seat (matchId : Int64) (r : PlayerRow) : (leaveRow matchId r).seat = r.seat := by
  unfold leaveRow
  split <;> rfl

/-- What any calls leave of the tables: matches stay, player rows stay in place up to their
flag, and a match that does not run is not made to run. -/
structure Db.Extends (db db' : Db) : Prop where
  ids : db.matchRows.map MatchRow.id ⊆ db'.matchRows.map MatchRow.id
  seats : db.matchPlayers.map PlayerRow.seat <+: db'.matchPlayers.map PlayerRow.seat
  running : ∀ id ∈ db.matchRows.map MatchRow.id, db'.Running id → db.Running id

theorem Db.Extends.refl (db : Db) : db.Extends db :=
  ⟨List.Subset.refl _, List.prefix_refl _, fun _ _ h => h⟩

theorem Db.Extends.trans {db₁ db₂ db₃ : Db} (h : db₁.Extends db₂) (h' : db₂.Extends db₃) :
    db₁.Extends db₃ where
  ids := List.Subset.trans h.ids h'.ids
  seats := h.seats.trans h'.seats
  running id hid hrun := h.running id hid (h'.running id (h.ids hid) hrun)

/-- **Step**: no call deletes a row, moves one or starts an ended match again. -/
theorem step_extends {db db' : Db} {e : DbEvent} (hdb : db.Keyed) (h : db.step e = some db') :
    db.Extends db' := by
  cases step_outcome h with
  | signedUp | notSignedUp | refused | notEnded =>
    exact ⟨List.Subset.refl _, List.prefix_refl _, fun _ _ hrun => hrun⟩
  | @stored batch _ _ _ _ =>
    refine ⟨fun id hid => ?_, ?_, fun id hid hrun => ?_⟩
    · obtain ⟨m, hm, rfl⟩ := List.mem_map.mp hid
      exact List.mem_map_of_mem (Table.subset_insertNew _ hm)
    · show _ <+: (db.matchPlayers ++ _).map PlayerRow.seat
      rw [List.map_append]
      exact List.prefix_append _ _
    · rcases (running_stored hdb batch id).mp hrun with hrun | ⟨hnew, _⟩
      · exact hrun
      · exact absurd hid hnew
  | @ended matchId =>
    refine ⟨fun id hid => ?_, ?_, fun id _ hrun => (running_ended.mp hrun).2⟩
    · rw [ended_ids]
      exact hid
    · show _ <+: (db.matchPlayers.map (leaveRow matchId)).map PlayerRow.seat
      rw [List.map_map]
      have hsame : db.matchPlayers.map (PlayerRow.seat ∘ leaveRow matchId)
          = db.matchPlayers.map PlayerRow.seat :=
        List.map_congr_left fun r _ => leaveRow_seat matchId r
      rw [hsame]

/-- A row of an earlier moment is still there, up to its flag. -/
theorem Db.Extends.row {db db' : Db} (h : db.Extends db') {r : PlayerRow}
    (hr : r ∈ db.matchPlayers) :
    ∃ r' ∈ db'.matchPlayers, r'.userId = r.userId ∧ r'.matchId = r.matchId := by
  obtain ⟨r', hr', heq⟩ := List.mem_map.mp (h.seats.subset (List.mem_map_of_mem hr))
  have huser : r'.seat.userId = r.seat.userId := congrArg PlayerRow.userId heq
  have hid : r'.seat.matchId = r.seat.matchId := congrArg PlayerRow.matchId heq
  exact ⟨r', hr', huser, hid⟩

variable {P : Db → DbEvent → Prop}

/-- The tables at two moments, with any calls between them. -/
theorem run_extends {db db' : Db} (hdb : db.Keyed) (h : Lts.Run Db.step P db db') :
    db'.Keyed ∧ db.Extends db' :=
  h.inv (I := fun t => t.Keyed ∧ db.Extends t)
    (fun hI _ hs => ⟨step_keyed hI.1 hs, hI.2.trans (step_extends hI.1 hs)⟩)
    ⟨hdb, Db.Extends.refl db⟩

theorem run_keyed {db : Db} (h : Lts.Run Db.step P Db.empty db) : db.Keyed :=
  (run_extends empty_keyed h).1

/-! ## The queries -/

/-- A stored match has the status and the spread of its row. -/
theorem matchStatus_ok {db : Db} (hdb : db.Keyed) {matchId : Int64} {row : MatchRow}
    (hrow : row ∈ db.matchRows) (hid : row.id = matchId) :
    Db.matchStatus (.ok db) matchId = .ok (row.status, row.spread) := by
  cases hfind : db.matchRows.find? fun m => m.id = matchId with
  | none => exact absurd hid (by simpa using List.find?_eq_none.mp hfind row hrow)
  | some m =>
    have hmid : m.id = matchId := of_decide_eq_true (List.find?_some hfind :)
    have heq := hdb.row_unique (List.mem_of_find?_eq_some hfind) hrow (hmid.trans hid.symm)
    simp only [Db.matchStatus, bind, Except.bind, hfind, heq]

theorem matchStatus_error {db : Db} {matchId : Int64}
    (hid : matchId ∉ db.matchRows.map MatchRow.id) :
    Db.matchStatus (.ok db) matchId = .error .notFound := by
  have hfind : (db.matchRows.find? fun m => m.id = matchId) = none := by
    refine List.find?_eq_none.mpr fun m hm heq => hid ?_
    exact List.mem_map.mpr ⟨m, hm, of_decide_eq_true heq⟩
  simp only [Db.matchStatus, bind, Except.bind, hfind]

/-- The status of the match is stored in the tables. -/
def Db.StatusIs (db : Db) (matchId : Int64) (status : MatchStatus) : Prop :=
  ∃ row ∈ db.matchRows, row.id = matchId ∧ row.status = status

/-- The status asked for a stored match is its own, never the default. -/
theorem statusOr_stored {db : Db} (hdb : db.Keyed) {matchId : Int64}
    (hid : matchId ∈ db.matchRows.map MatchRow.id) :
    db.StatusIs matchId (Api.statusOr (.ok db) matchId) := by
  obtain ⟨row, hrow, rfl⟩ := List.mem_map.mp hid
  refine ⟨row, hrow, rfl, ?_⟩
  unfold Api.statusOr
  rw [matchStatus_ok hdb hrow rfl]

/-- The player's active row is in this match. -/
def Db.PlaysIn (db : Db) (playerId matchId : Int64) : Prop :=
  ∃ r ∈ db.matchPlayers, r.userId = playerId ∧ r.active ∧ r.matchId = matchId

/-- **One active match at a time**: whichever row `LIMIT 1` picks, it is the only one. -/
theorem activeMatchOf_eq {db : Db} (hdb : db.Indexed) {playerId matchId : Int64} :
    Db.activeMatchOf (.ok db) playerId = .ok (some matchId) ↔ db.PlaysIn playerId matchId := by
  have hval : Db.activeMatchOf (.ok db) playerId = .ok ((db.matchPlayers.find? fun r =>
    r.userId = playerId ∧ r.active).map PlayerRow.matchId) := rfl
  rw [hval, Except.ok.injEq, Option.map_eq_some_iff]
  constructor
  · rintro ⟨r, hfind, hid⟩
    obtain ⟨huser, hactive⟩ := of_decide_eq_true (List.find?_some hfind :)
    exact ⟨r, List.mem_of_find?_eq_some hfind, huser, hactive, hid⟩
  · rintro ⟨r, hr, huser, hactive, hid⟩
    cases hfind : db.matchPlayers.find? fun r => r.userId = playerId ∧ r.active with
    | none =>
      have hno := List.find?_eq_none.mp hfind r hr
      exact absurd (decide_eq_true ⟨huser, hactive⟩) hno
    | some r' =>
      obtain ⟨huser', hactive'⟩ := of_decide_eq_true (List.find?_some hfind :)
      have hmem : r ∈ db.matchPlayers.filter PlayerRow.active := List.mem_filter.mpr ⟨hr, hactive⟩
      have hmem' : r' ∈ db.matchPlayers.filter PlayerRow.active :=
        List.mem_filter.mpr ⟨List.mem_of_find?_eq_some hfind, hactive'⟩
      have heq : r' = r := List.inj_on_of_nodup_map hdb hmem' hmem (huser'.trans huser.symm)
      exact ⟨r', rfl, heq ▸ hid⟩

namespace Api

theorem members_seat (team : Team) (rows : List PlayerRow) :
    members team (rows.map PlayerRow.seat) = members team rows := by
  unfold members
  rw [List.filter_map, List.map_map]
  rfl

/-- The roster of a match in the tables, one team of it. -/
def roster (db : Db) (matchId : Int64) (team : Team) : List Member :=
  members team (rowsFor db.matchPlayers matchId)

/-- The entry of a status is that of its own match. -/
theorem entry_askStatus {statusQ : Int64 → Reading} {rows : List PlayerRow} {matchId : Int64}
    (hrows : ∀ r ∈ rows, r.matchId = matchId) (hne : rows ≠ []) :
    Bins.entry (askStatus statusQ) rows none = some (statusOr (statusQ matchId) matchId) := by
  have hfix : ∀ (s : MatchStatus) (rest : List PlayerRow),
      Bins.entry (askStatus statusQ) rest (some s) = some s := by
    intro s rest
    unfold Bins.entry
    induction rest with
    | nil => rfl
    | cons r rest ih => exact ih
  cases rows with
  | nil => exact absurd rfl hne
  | cons r rest =>
    have hstart : Bins.entry (askStatus statusQ) (r :: rest) none
        = Bins.entry (askStatus statusQ) rest (some (statusOr (statusQ r.matchId) r.matchId)) := rfl
    rw [hstart, hfix, hrows r List.mem_cons_self]

/-- The rows of a set of matches, arranged, grouped and asked for. -/
theorem mem_shown {rows shown : List PlayerRow} {ids : List Int64} {statusQ : Int64 → Reading}
    (hperm : shown.Perm (rows.filter fun r => r.matchId ∈ ids)) {v : MatchView}
    (hv : v ∈ groupRosters shown (Bins.fill compare PlayerRow.matchId (askStatus statusQ) shown)) :
    (∃ r ∈ rows, r.matchId = v.matchId) ∧ v.matchId ∈ ids ∧
      v.status = statusOr (statusQ v.matchId) v.matchId ∧
      v.teamA.Perm (members .A (rowsFor rows v.matchId)) ∧
      v.teamB.Perm (members .B (rowsFor rows v.matchId)) := by
  obtain ⟨⟨r, hr, hid⟩, heq⟩ := mem_groupRosters.mp hv
  obtain ⟨hrow, hids⟩ := List.mem_filter.mp (hperm.subset hr)
  have hin : v.matchId ∈ ids := hid ▸ of_decide_eq_true hids
  have hfor : (rowsFor shown v.matchId).Perm (rowsFor rows v.matchId) := by
    refine (hperm.filter _).trans (List.Perm.of_eq ?_)
    unfold rowsFor
    rw [List.filter_filter]
    refine List.filter_congr fun r _ => ?_
    by_cases hrid : r.matchId = v.matchId
    · simp [hrid, hin]
    · simp [hrid]
  have hstatus : (Bins.fill compare PlayerRow.matchId (askStatus statusQ) shown)[v.matchId]?
      = some (statusOr (statusQ v.matchId) v.matchId) := by
    rw [Bins.getElem?_fill]
    refine entry_askStatus (fun r hr => of_decide_eq_true (List.mem_filter.mp hr).2) ?_
    exact rowsFor_ne_nil.mpr ⟨r, hr, hid⟩
  have hshown := congrArg MatchView.status heq
  have hA := congrArg MatchView.teamA heq
  have hB := congrArg MatchView.teamB heq
  unfold viewOf at hshown hA hB
  simp only [hstatus, Option.getD_some] at hshown hA hB
  refine ⟨⟨r, hrow, hid⟩, hin, hshown, ?_, ?_⟩
  · rw [hA]
    exact members_perm hfor
  · rw [hB]
    exact members_perm hfor

/-- A match that was asked for and has a row is shown. -/
theorem mem_shown_of_row {rows shown : List PlayerRow} {ids : List Int64}
    {statuses : Std.TreeMap Int64 MatchStatus}
    (hperm : shown.Perm (rows.filter fun r => r.matchId ∈ ids)) {matchId : Int64}
    (hid : matchId ∈ ids) (hrow : ∃ r ∈ rows, r.matchId = matchId) :
    ∃ v ∈ groupRosters shown statuses, v.matchId = matchId := by
  obtain ⟨r, hr, rfl⟩ := hrow
  have hmem : r ∈ shown :=
    hperm.symm.subset (List.mem_filter.mpr ⟨hr, decide_eq_true hid⟩)
  exact ⟨viewOf shown statuses r.matchId, mem_groupRosters.mpr ⟨⟨r, hmem, rfl⟩, rfl⟩, rfl⟩

/-- The player is in one of the teams. -/
def MatchView.Has (v : MatchView) (playerId : Int64) : Prop :=
  playerId ∈ (v.teamA ++ v.teamB).map Member.userId

theorem member_of_row {rows : List PlayerRow} {r : PlayerRow} (hr : r ∈ rows) :
    member r ∈ members .A rows ∨ member r ∈ members .B rows := by
  cases hteam : r.team with
  | A => exact .inl (List.mem_map_of_mem (List.mem_filter.mpr ⟨hr, decide_eq_true hteam⟩))
  | B => exact .inr (List.mem_map_of_mem (List.mem_filter.mpr ⟨hr, decide_eq_true hteam⟩))

/-- The moments at which the queries of one `GET /players/{id}/matches` are answered, with
any calls of others between them. -/
structure Asked (P : Db → DbEvent → Prop) (db₁ db₂ : Db) (statusDb : Int64 → Db) (db₃ : Db) :
    Prop where
  rows : Lts.Run Db.step P db₁ db₂
  status : ∀ matchId, Lts.Run Db.step P db₂ (statusDb matchId)
  active : ∀ matchId, Lts.Run Db.step P (statusDb matchId) db₃

/-- What the client gets. -/
structure Complete (body : PlayerMatches) (playerId : Int64) (db₁ db₂ : Db)
    (statusDb : Int64 → Db) (db₃ : Db) : Prop where
  descending : (body.rosters.map MatchView.matchId).Pairwise (· > ·)
  /-- the matches of the player when the request came in -/
  ids : ∀ matchId, (∃ v ∈ body.rosters, v.matchId = matchId) ↔
    ∃ r ∈ db₁.matchPlayers, r.userId = playerId ∧ r.matchId = matchId
  teams : ∀ v ∈ body.rosters, v.teamA.Perm (roster db₂ v.matchId .A) ∧
    v.teamB.Perm (roster db₂ v.matchId .B) ∧ v.Has playerId
  status : ∀ v ∈ body.rosters, (statusDb v.matchId).StatusIs v.matchId v.status
  current : ∀ matchId, body.currentMatch = some matchId ↔ db₃.PlaysIn playerId matchId

/-- The reply once its queries are answered. -/
def playerBody (order : ByMatch) (playerId : Int64) (db₁ db₂ : Db) (statusDb : Int64 → Db)
    (db₃ : Db) : Reply PlayerMatches :=
  playerMatches (.ok db₁) (.ok db₂) order (fun matchId => .ok (statusDb matchId)) (.ok db₃) playerId

/-- The rows of the two queries on one connection. -/
theorem matchesForPlayer_ok (order : ByMatch) (playerId : Int64) (db₁ db₂ : Db) :
    ∃ rows, Db.matchesForPlayer (.ok db₁) (.ok db₂) order playerId = .ok rows ∧
      rows.Perm (db₂.matchPlayers.filter fun r => r.matchId ∈
        (db₁.matchPlayers.filter fun r => r.userId = playerId).map PlayerRow.matchId) := by
  by_cases hids : (db₁.matchPlayers.filter fun r => r.userId = playerId).map PlayerRow.matchId = []
  · refine ⟨[], if_pos hids, ?_⟩
    rw [hids]
    simp
  · exact ⟨_, if_neg hids, order.perm _⟩

/-- **The answer is complete**, whatever is written while its queries are answered. -/
theorem playerBody_complete {db₁ db₂ db₃ : Db} {statusDb : Int64 → Db} (hdb : db₁.Keyed)
    (hA : Asked P db₁ db₂ statusDb db₃) (order : ByMatch) (playerId : Int64) :
    ∃ body, playerBody order playerId db₁ db₂ statusDb db₃ = .ok body ∧
      Complete body playerId db₁ db₂ statusDb db₃ := by
  obtain ⟨hk₂, hext⟩ := run_extends hdb hA.rows
  obtain ⟨rows, hrows, hperm⟩ := matchesForPlayer_ok order playerId db₁ db₂
  set ids := (db₁.matchPlayers.filter fun r => r.userId = playerId).map PlayerRow.matchId with hids
  have hmem : ∀ matchId, matchId ∈ ids ↔
      ∃ r ∈ db₁.matchPlayers, r.userId = playerId ∧ r.matchId = matchId := by
    intro matchId
    rw [hids, List.mem_map]
    constructor
    · rintro ⟨r, hr, hid⟩
      obtain ⟨hr, huser⟩ := List.mem_filter.mp hr
      exact ⟨r, hr, of_decide_eq_true huser, hid⟩
    · rintro ⟨r, hr, huser, hid⟩
      exact ⟨r, List.mem_filter.mpr ⟨hr, decide_eq_true huser⟩, hid⟩
  refine ⟨⟨groupRosters rows (Bins.fill compare PlayerRow.matchId
    (askStatus fun matchId => .ok (statusDb matchId)) rows),
    (db₃.matchPlayers.find? fun r => r.userId = playerId ∧ r.active).map PlayerRow.matchId⟩,
    ?_, groupRosters_descending _ _, fun matchId => ?_, fun v hv => ?_, fun v hv => ?_,
    fun matchId => ?_⟩
  · unfold playerBody playerMatches
    rw [hrows]
    rfl
  · rw [← hmem]
    constructor
    · rintro ⟨v, hv, rfl⟩
      exact (mem_shown hperm hv).2.1
    · intro hid
      obtain ⟨r, hr, huser, hrid⟩ := (hmem matchId).mp hid
      -- the row the first query saw is there for the second
      obtain ⟨r', hr', _, hid'⟩ := hext.row hr
      exact mem_shown_of_row hperm hid ⟨r', hr', hid'.trans hrid⟩
  · obtain ⟨_, hid, _, hteamA, hteamB⟩ := mem_shown hperm hv
    refine ⟨hteamA, hteamB, ?_⟩
    obtain ⟨r, hr, huser, hrid⟩ := (hmem v.matchId).mp hid
    obtain ⟨r', hr', huser', hid'⟩ := hext.row hr
    have hfor : r' ∈ rowsFor db₂.matchPlayers v.matchId :=
      List.mem_filter.mpr ⟨hr', decide_eq_true (hid'.trans hrid)⟩
    refine List.mem_map.mpr ⟨member r', List.mem_append.mpr ?_, huser'.trans huser⟩
    exact (member_of_row hfor).imp (fun h => hteamA.symm.subset h) fun h => hteamB.symm.subset h
  · obtain ⟨⟨r, hr, hrid⟩, _, hstatus, _⟩ := mem_shown hperm hv
    obtain ⟨hks, hexts⟩ := run_extends hk₂ (hA.status v.matchId)
    rw [hstatus]
    refine statusOr_stored hks (hexts.ids ?_)
    rw [← hrid]
    exact hk₂.owned r hr
  · have hk₃ := (run_extends (run_extends hk₂ (hA.status matchId)).1 (hA.active matchId)).1
    rw [← activeMatchOf_eq hk₃.indexed]
    show _ ↔ Except.ok _ = Except.ok _
    rw [Except.ok.injEq]

/-- **`GET /players/{id}/matches`** in every reachable state, however many matches are inserted
and ended while it is answered. -/
theorem player_matches_complete {db₁ db₂ db₃ : Db} {statusDb : Int64 → Db}
    (h : Lts.Run Db.step Lts.Free Db.empty db₁) (hA : Asked Lts.Free db₁ db₂ statusDb db₃)
    (order : ByMatch) (playerId : Int64) :
    ∃ body, playerBody order playerId db₁ db₂ statusDb db₃ = .ok body ∧
      Complete body playerId db₁ db₂ statusDb db₃ :=
  playerBody_complete (run_keyed h) hA order playerId

/-- A match is ended before the last query: it is shown, and no current match. -/
theorem player_matches_complete_late :
    ∃ (db db' : Db) (body : PlayerMatches), ¬ db'.Running 1 ∧
      playerBody stableByMatch 1 db db (fun _ => db) db' = .ok body ∧
      Complete body 1 db db (fun _ => db) db' := by
  have hexec : (Lts.exec Db.step (fun _ _ => true) Db.empty matchOnePlayed).any (fun db =>
      (Lts.exec Db.step (fun _ _ => true) db [.endMatch 1 .up]).any fun db' => ¬ db'.Running 1)
      = true := by decide +kernel
  obtain ⟨db, hrun, hrest⟩ := Lts.exists_run_of_exec hexec
  obtain ⟨db', hrun', hended⟩ := Lts.exists_run_of_exec hrest
  have hA : Asked Lts.Free db db (fun _ => db) db' := ⟨.refl, fun _ => .refl, fun _ => hrun'.free⟩
  obtain ⟨body, hreply, hC⟩ := player_matches_complete hrun.free hA stableByMatch 1
  exact ⟨db, db', body, of_decide_eq_true hended, hreply, hC⟩

/-! ## The current match -/

/-- Where the flags mirror the matches, the current match is the shown match that was active
when its status was read and runs still. -/
theorem Complete.current_iff {body : PlayerMatches} {playerId : Int64} {db₁ db₂ db₃ : Db}
    {statusDb : Int64 → Db} (hdb : db₁.Keyed) (hA : Asked P db₁ db₂ statusDb db₃)
    (hC : Complete body playerId db₁ db₂ statusDb db₃) (hm : db₃.Mirrored) {v : MatchView}
    (hv : v ∈ body.rosters) :
    body.currentMatch = some v.matchId ↔ v.status = .active ∧ db₃.Running v.matchId := by
  obtain ⟨hk₂, hext₂⟩ := run_extends hdb hA.rows
  obtain ⟨hks, hexts⟩ := run_extends hk₂ (hA.status v.matchId)
  obtain ⟨_, hext₃⟩ := run_extends hks (hA.active v.matchId)
  rw [hC.current]
  constructor
  · rintro ⟨r, hr, _, hactive, hrid⟩
    have hrun : db₃.Running v.matchId := hrid ▸ (hm r hr).mp hactive
    obtain ⟨row, hrow, hid, hstatus⟩ := hC.status v hv
    obtain ⟨row', hrow', hid', hactive'⟩ :=
      hext₃.running v.matchId (List.mem_map.mpr ⟨row, hrow, hid⟩) hrun
    refine ⟨?_, hrun⟩
    rw [← hstatus, hks.row_unique hrow hrow' (hid.trans hid'.symm)]
    exact hactive'
  · rintro ⟨_, hrun⟩
    -- the player's row has outlived all three queries
    obtain ⟨r, hr, huser, hrid⟩ := (hC.ids v.matchId).mp ⟨v, hv, rfl⟩
    obtain ⟨r', hr', huser', hrid'⟩ := ((hext₂.trans hexts).trans hext₃).row hr
    have hid : r'.matchId = v.matchId := hrid'.trans hrid
    exact ⟨r', hr', huser'.trans huser, (hm r' hr').mpr (hid ▸ hrun), hid⟩

theorem run_mirrored {db : Db} (hdb : Lts.Run Db.step Db.NoRevival Db.empty db) : db.Mirrored := by
  have hinv := hdb.inv (I := fun db => db.Keyed ∧ db.Mirrored)
    (fun h hg hs => ⟨step_keyed h.1 hs, (step_mirrored h.1 h.2 hs).mpr hg⟩)
    ⟨empty_keyed, List.forall_mem_nil _⟩
  exact hinv.2

/-- The current match runs. If it is not among the matches shown, the player had no row of it
when these were read. -/
theorem Complete.current_runs {body : PlayerMatches} {playerId : Int64} {db₁ db₂ db₃ : Db}
    {statusDb : Int64 → Db} (hC : Complete body playerId db₁ db₂ statusDb db₃) (hm : db₃.Mirrored)
    {matchId : Int64} (hcur : body.currentMatch = some matchId) :
    db₃.Running matchId ∧ ((∃ v ∈ body.rosters, v.matchId = matchId) ∨
      ∀ r ∈ db₁.matchPlayers, r.userId = playerId → r.matchId ≠ matchId) := by
  obtain ⟨r, hr, _, hactive, hrid⟩ := (hC.current matchId).mp hcur
  refine ⟨hrid ▸ (hm r hr).mp hactive, ?_⟩
  by_cases hrow : ∃ r ∈ db₁.matchPlayers, r.userId = playerId ∧ r.matchId = matchId
  · exact .inl ((hC.ids matchId).mpr hrow)
  · exact .inr fun r hr huser hid => hrow ⟨r, hr, huser, hid⟩

/-- **The current match**, in a run that revives no ended match and whatever is written while
the queries are answered. Of the matches shown it is the one whose status was active and that
runs still. It may also be a match that is not shown: then it runs, and the player had no row
of it yet when the first query was answered. -/
theorem current_match_shown {db₁ db₂ db₃ : Db} {statusDb : Int64 → Db}
    (h : Lts.Run Db.step Db.NoRevival Db.empty db₁)
    (hA : Asked Db.NoRevival db₁ db₂ statusDb db₃) (order : ByMatch) (playerId : Int64)
    {body : PlayerMatches} (hreply : playerBody order playerId db₁ db₂ statusDb db₃ = .ok body) :
    (∀ v ∈ body.rosters,
      body.currentMatch = some v.matchId ↔ v.status = .active ∧ db₃.Running v.matchId) ∧
    ∀ matchId, body.currentMatch = some matchId → db₃.Running matchId ∧
      ((∃ v ∈ body.rosters, v.matchId = matchId) ∨
        ∀ r ∈ db₁.matchPlayers, r.userId = playerId → r.matchId ≠ matchId) := by
  obtain ⟨body', hreply', hC⟩ := playerBody_complete (run_keyed h) hA order playerId
  obtain rfl : body = body' := Reply.ok.inj (hreply.symm.trans hreply')
  -- the last query comes after all status queries, so any of them leads there
  have hm : db₃.Mirrored :=
    run_mirrored (((h.trans hA.rows).trans (hA.status 0)).trans (hA.active 0))
  exact ⟨fun v hv => hC.current_iff (run_keyed h) hA hm hv, fun matchId => hC.current_runs hm⟩

/-- The users of `matchOne` in a match of their own. -/
def matchTwo : BatchItem := { matchOne with matchId := 2 }

/-- Before the last query the match that is shown is ended, and its players are put into the
next one: that is the current match, and it is not shown. -/
theorem current_match_shown_next :
    ∃ (db db' : Db) (body : PlayerMatches),
      playerBody stableByMatch 1 db db (fun _ => db) db' = .ok body ∧
      body.currentMatch = some 2 ∧ ¬ (∃ v ∈ body.rosters, v.matchId = 2) ∧
      (∀ v ∈ body.rosters,
        body.currentMatch = some v.matchId ↔ v.status = .active ∧ db'.Running v.matchId) ∧
      db'.Running 2 := by
  have hexec : (Lts.exec Db.step (fun db e => db.NoRevival e) Db.empty matchOnePlayed).any
      (fun db => (∀ r ∈ db.matchPlayers, r.matchId ≠ 2) ∧
        (Lts.exec Db.step (fun db e => db.NoRevival e) db
          [.endMatch 1 .up, .insertMatchBatch [matchTwo] .up]).any fun db' =>
            decide (∃ r ∈ db'.matchPlayers, r.userId = 1 ∧ r.active ∧ r.matchId = 2)) = true := by
    decide +kernel
  obtain ⟨db, hrun, htest⟩ := Lts.exists_run_of_exec hexec
  obtain ⟨hnone, hexec'⟩ := of_decide_eq_true htest
  obtain ⟨db', hrun', hplays⟩ := Lts.exists_run_of_exec hexec'
  have hrun : Lts.Run Db.step Db.NoRevival Db.empty db := hrun.mono of_decide_eq_true
  have hA : Asked Db.NoRevival db db (fun _ => db) db' :=
    ⟨.refl, fun _ => .refl, fun _ => hrun'.mono of_decide_eq_true⟩
  obtain ⟨body, hreply, hC⟩ := playerBody_complete (run_keyed hrun) hA stableByMatch 1
  have hplays := of_decide_eq_true hplays
  have hcur : body.currentMatch = some 2 := (hC.current 2).mpr hplays
  obtain ⟨hshown, hruns⟩ := current_match_shown hrun hA stableByMatch 1 hreply
  refine ⟨db, db', body, hreply, hcur, fun hv => ?_, hshown, (hruns 2 hcur).1⟩
  obtain ⟨r, hr, _, hid⟩ := (hC.ids 2).mp hv
  exact hnone r hr hid

end Api

/-! ## Ending a match -/

/-- The rows of a running match are all active. A match that was ended never runs again, so
not even a second insertion breaks this. -/
def Db.Seated (db : Db) : Prop := ∀ r ∈ db.matchPlayers, db.Running r.matchId → r.active

/-- **Step**: a batch brings active rows only, and `end_match` clears the flags of the match it
ends. -/
theorem step_seated {db db' : Db} {e : DbEvent} (hdb : db.Keyed) (hs : db.Seated)
    (h : db.step e = some db') : db'.Seated := by
  cases step_outcome h with
  | signedUp | notSignedUp | refused | notEnded => exact hs
  | @stored batch _ _ _ _ =>
    intro r hr hrun
    rcases List.mem_append.mp hr with hr | hr
    · rcases (running_stored hdb batch r.matchId).mp hrun with hrun | ⟨hnew, _⟩
      · exact hs r hr hrun
      · exact absurd (hdb.owned r hr) hnew
    · exact batch_rows_active r hr
  | @ended matchId =>
    intro r hr hrun
    obtain ⟨old, hold, rfl⟩ := List.mem_map.mp hr
    rw [leaveRow_matchId] at hrun
    obtain ⟨hne, hrun⟩ := running_ended.mp hrun
    unfold leaveRow
    rw [if_neg hne]
    exact hs old hold hrun

theorem run_seated {db : Db} (h : Lts.Run Db.step P Db.empty db) : db.Keyed ∧ db.Seated :=
  h.inv (I := fun db => db.Keyed ∧ db.Seated)
    (fun hI _ hs => ⟨step_keyed hI.1 hs, step_seated hI.1 hI.2 hs⟩)
    ⟨empty_keyed, List.forall_mem_nil _⟩

/-- The rows of a running match belong to as many players, whose match it is. -/
theorem ncard_playsIn {db : Db} (hdb : db.Indexed) (hs : db.Seated) {matchId : Int64}
    (hrun : db.Running matchId) :
    Set.ncard {playerId | db.PlaysIn playerId matchId}
      = Table.affected (fun r : PlayerRow => r.matchId = matchId) db.matchPlayers := by
  set rows := db.matchPlayers.filter fun r => r.matchId = matchId with hrows
  have hactive : rows = (db.matchPlayers.filter PlayerRow.active).filter
      fun r => r.matchId = matchId := by
    rw [hrows, List.filter_filter]
    refine List.filter_congr fun r hr => ?_
    by_cases hid : r.matchId = matchId
    · simp [hid, hs r hr (hid ▸ hrun)]
    · simp [hid]
  have hnodup : (rows.map PlayerRow.userId).Nodup := by
    rw [hactive]
    exact hdb.sublist (List.filter_sublist.map _)
  have hset : {playerId | db.PlaysIn playerId matchId}
      = ((rows.map PlayerRow.userId).toFinset : Set Int64) := by
    ext playerId
    rw [Set.mem_ofPred_eq, Finset.mem_coe, List.mem_toFinset, List.mem_map]
    constructor
    · rintro ⟨r, hr, huser, _, hid⟩
      exact ⟨r, List.mem_filter.mpr ⟨hr, decide_eq_true hid⟩, huser⟩
    · rintro ⟨r, hr, huser⟩
      obtain ⟨hr, hid⟩ := List.mem_filter.mp hr
      have hid := of_decide_eq_true hid
      exact ⟨r, hr, huser, hs r hr (hid ▸ hrun), hid⟩
  rw [hset, Set.ncard_coe_finset, List.toFinset_card_of_nodup hnodup, List.length_map]
  rfl

/-- Ending a match takes it from its players and nothing from anybody else. -/
theorem playsIn_ended {db : Db} {matchId playerId id : Int64} :
    (db.ended matchId).PlaysIn playerId id ↔ id ≠ matchId ∧ db.PlaysIn playerId id := by
  constructor
  · rintro ⟨r, hr, huser, hactive, hid⟩
    obtain ⟨old, hold, rfl⟩ := List.mem_map.mp hr
    rw [leaveRow_matchId] at hid
    unfold leaveRow at huser hactive
    split at hactive
    · cases hactive
    next hne =>
      rw [if_neg hne] at huser
      exact ⟨hid ▸ hne, old, hold, huser, hactive, hid⟩
  · rintro ⟨hne, r, hr, huser, hactive, hid⟩
    refine ⟨leaveRow matchId r, List.mem_map_of_mem hr, ?_, ?_, by rw [leaveRow_matchId]; exact hid⟩
    all_goals
      unfold leaveRow
      rw [if_neg (hid ▸ hne)]
      assumption

namespace Api

/-- Ending a match changes no roster. -/
theorem roster_ended (db : Db) (matchId id : Int64) (team : Team) :
    roster (db.ended matchId) id team = roster db id team := by
  have hfor : rowsFor (db.ended matchId).matchPlayers id
      = (rowsFor db.matchPlayers id).map (leaveRow matchId) := by
    show (db.matchPlayers.map (leaveRow matchId)).filter _ = _
    rw [List.filter_map]
    unfold rowsFor
    congr 1
    exact List.filter_congr fun r _ => congrArg (fun i => decide (i = id)) (leaveRow_matchId _ r)
  have hseat : (rowsFor db.matchPlayers id).map (PlayerRow.seat ∘ leaveRow matchId)
      = (rowsFor db.matchPlayers id).map PlayerRow.seat :=
    List.map_congr_left fun r _ => leaveRow_seat matchId r
  unfold roster
  rw [hfor, ← members_seat, List.map_map, hseat, members_seat]

/-- The text of the 404. -/
def notEnded : Reply Ended := .notFound "match not found or already ended"

/-- Of a match that runs: whoever it was the current match of has none afterwards, their number
is the one that is returned, nobody else is touched, and there is nothing to end again. -/
structure Frees (db : Db) (matchId : Int64) (freed : Nat) (db' : Db) : Prop where
  freed : freed = Set.ncard {playerId | Db.activeMatchOf (.ok db) playerId = .ok (some matchId)}
  current : ∀ playerId id, Db.activeMatchOf (.ok db') playerId = .ok (some id) ↔
    id ≠ matchId ∧ Db.activeMatchOf (.ok db) playerId = .ok (some id)
  rosters : ∀ id team, roster db' id team = roster db id team
  status : ∃ spread, Db.matchStatus (.ok db') matchId = .ok (.ended, spread)
  again : ∀ pg, endMatch pg matchId db' = (notEnded, db')

/-- **`POST /matches/{id}/end`** in every reachable state: a running match is ended as `Frees`
says, also when the answer is lost; and everything else is a 404 that changes nothing. -/
theorem end_match_frees {db : Db} (h : Lts.Run Db.step Lts.Free Db.empty db) (matchId : Int64)
    (pg : Pg) :
    (pg ≠ .down → db.Running matchId → ∃ freed, Frees db matchId freed (endMatch pg matchId db).2 ∧
      (endMatch pg matchId db).1 = if pg = .up then .ok ⟨matchId, freed⟩ else notEnded) ∧
    (pg = .down ∨ ¬ db.Running matchId → endMatch pg matchId db = (notEnded, db)) := by
  obtain ⟨hk, hs⟩ := run_seated h
  have hrefused : ∀ (pg : Pg) (db : Db), pg = .down ∨ ¬ db.Running matchId →
      endMatch pg matchId db = (notEnded, db) := by
    intro pg db hwhy
    have hreply : ∃ err, pg.run (Supermatchmaker.endMatch matchId) db = (.error err, db) := by
      rcases hwhy with rfl | hno
      · exact ⟨.unavailable, rfl⟩
      · have htx := (endMatch_eq matchId db).trans (if_neg hno)
        cases pg <;> simp [Pg.run, Table.transaction, htx]
    obtain ⟨err, heq⟩ := hreply
    unfold endMatch
    rw [heq]
    rfl
  refine ⟨fun hpg hrun => ?_, hrefused pg db⟩
  have htx := (endMatch_eq matchId db).trans (if_pos hrun)
  have htables : (endMatch pg matchId db).2 = db.ended matchId := by
    have hafter := Pg.run_ok hpg htx
    unfold endMatch
    rw [← hafter]
    split
    next heq => rw [heq]
    next heq => rw [heq]
  have hk' : (db.ended matchId).Keyed :=
    step_keyed (e := .endMatch matchId .up) hk
      (congrArg some (Pg.run_ok (by decide) htx))
  refine ⟨Table.affected (fun r : PlayerRow => r.matchId = matchId) db.matchPlayers, ?_, ?_⟩
  · rw [htables]
    refine ⟨?_, fun playerId id => ?_, fun id team => ?_, ?_, fun pg => hrefused pg _ ?_⟩
    · rw [← ncard_playsIn hk.indexed hs hrun]
      exact congrArg Set.ncard (Set.ext fun playerId => (activeMatchOf_eq hk.indexed).symm)
    · rw [activeMatchOf_eq hk'.indexed, activeMatchOf_eq hk.indexed, playsIn_ended]
    · exact roster_ended db matchId id team
    · obtain ⟨m, hm, hid, _⟩ := hrun
      refine ⟨m.spread, ?_⟩
      have hrow : endRow matchId m ∈ (db.ended matchId).matchRows := List.mem_map_of_mem hm
      rw [matchStatus_ok hk' hrow (by rw [endRow_id]; exact hid)]
      unfold endRow
      rw [if_pos hid]
    · exact .inr fun hrun => (running_ended.mp hrun).1 rfl
  · unfold endMatch
    cases pg with
    | up => simp only [Pg.run, Table.transaction, htx, if_pos]
    | down => exact absurd rfl hpg
    | lost => rfl

/-- A match of ten that was refused a second time. -/
theorem end_match_frees_ten :
    ∃ db : Db, db.Running 1 ∧ ∃ freed, Frees db 1 freed (endMatch .up 1 db).2 ∧
      (endMatch .up 1 db).1 = .ok ⟨1, freed⟩ := by
  have hexec : (Lts.exec Db.step (fun _ _ => true) Db.empty
      (matchOnePlayed ++ [.insertMatchBatch [matchOne] .up])).any
      (fun db => db.Running 1) = true := by decide +kernel
  obtain ⟨db, hrun, hrunning⟩ := Lts.exists_run_of_exec hexec
  have hrunning := of_decide_eq_true hrunning
  exact ⟨db, hrunning, (end_match_frees hrun.free 1 .up).1 (by decide) hrunning⟩

end Api

end Supermatchmaker
