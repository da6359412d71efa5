import Supermatchmaker.Db.Columns
import Supermatchmaker.Lib.Bins

/-!
# The match endpoints

`match_status`, `match_roster`, `list_matches`, `active_match_of` and
`matches_for_player` from `db.rs`, and what `main.rs` answers with them:
`group_rosters` and the handlers `list_matches`, `get_match`, `player_matches` and
`end_match`.

Mirroring notes:
- A handler makes several queries and no two of them share a transaction. Each has
  a `Reading` of its own: the tables as they are when it is answered, or the error.
- `ORDER BY` leaves rows that compare equal in any order: the order is a parameter
  (`OrderBy`), one for each query. `LIMIT 1` without an order takes the first row
  of the table; that there is no other one is `activeMatchOf_eq`.
- `matches.created_at` is a parameter of the listing, since no modelled statement
  reads it. `BTreeMap` is `Std.TreeMap`.
- A JSON body is the record of its fields, a status text the status it stands for.
-/

namespace Supermatchmaker

/-! ## Queries -/

/-- The tables a query is answered from. -/
abbrev Reading := Except DbError Db

/-- `ORDER BY`. -/
structure OrderBy (ρ : Type) (le : ρ → ρ → Prop) where
  arrange : List ρ → List ρ
  perm : ∀ rows, (arrange rows).Perm rows
  sorted : ∀ rows, (arrange rows).Pairwise le

/-- As a stable sort does it. -/
def OrderBy.stable {ρ : Type} (le : ρ → ρ → Prop) [DecidableRel le]
    (total : ∀ a b, le a b ∨ le b a) (trans : ∀ a b c, le a b → le b c → le a c) :
    OrderBy ρ le where
  arrange := List.insertionSort le
  perm := List.perm_insertionSort le
  sorted rows :=
    have : Std.Total le := ⟨total⟩
    have : IsTrans ρ le := ⟨trans⟩
    List.pairwise_insertionSort le rows

/-- `"A" < "B"`. -/
def Team.le (t t' : Team) : Prop := t = .A ∨ t' = .B

instance (t t' : Team) : Decidable (t.le t') := inferInstanceAs (Decidable (_ ∨ _))

theorem Team.le_total (t t' : Team) : t.le t' ∨ t'.le t := by
  cases t <;> cases t' <;> decide

theorem Team.le_trans {t t' t'' : Team} (h : t.le t') (h' : t'.le t'') : t.le t'' := by
  rcases h with rfl | rfl
  · exact .inl rfl
  · exact .inr (h'.resolve_left fun h => by cases h)

/-- `.order(mp::team.asc())`. -/
abbrev ByTeam := OrderBy PlayerRow fun r r' => r.team.le r'.team

/-- `match_id` descending, then `team`. -/
def PlayerRow.le (r r' : PlayerRow) : Prop :=
  r'.matchId < r.matchId ∨ r.matchId = r'.matchId ∧ r.team.le r'.team

instance : DecidableRel PlayerRow.le := fun _ _ => inferInstanceAs (Decidable (_ ∨ _))

theorem PlayerRow.le_total (r r' : PlayerRow) : r.le r' ∨ r'.le r := by
  rcases Int64.lt_or_le r'.matchId r.matchId with hlt | hle
  · exact .inl (.inl hlt)
  rcases Int64.lt_or_eq_of_le hle with hlt | heq
  · exact .inr (.inl hlt)
  · exact (r.team.le_total r'.team).imp (fun h => .inr ⟨heq, h⟩) fun h => .inr ⟨heq.symm, h⟩

theorem PlayerRow.le_trans {r₁ r₂ r₃ : PlayerRow} (h : r₁.le r₂) (h' : r₂.le r₃) : r₁.le r₃ := by
  rcases h with hlt | ⟨heq, hle⟩
  · rcases h' with hlt' | ⟨heq', _⟩
    · exact .inl (Int64.lt_trans hlt' hlt)
    · exact .inl (heq' ▸ hlt)
  · rcases h' with hlt' | ⟨heq', hle'⟩
    · exact .inl (heq ▸ hlt')
    · exact .inr ⟨heq.trans heq', Team.le_trans hle hle'⟩

/-- `.order((mp::match_id.desc(), mp::team.asc()))`. -/
abbrev ByMatch := OrderBy PlayerRow PlayerRow.le

/-- `.order(mt::created_at.desc())`. -/
abbrev ByAge (createdAt : MatchRow → Nat) :=
  OrderBy MatchRow fun m m' => createdAt m' ≤ createdAt m

/-- `ORDER BY team`, rows of one team as they are stored. -/
def stableByTeam : ByTeam :=
  .stable _ (fun r r' => r.team.le_total r'.team) fun _ _ _ => Team.le_trans

/-- The order of `matches_for_player`, rows it does not tell apart as they are stored. -/
def stableByMatch : ByMatch := .stable _ PlayerRow.le_total fun _ _ _ => PlayerRow.le_trans

namespace Db

/-- `match_status`. -/
def matchStatus (q : Reading) (matchId : Int64) : Except DbError (MatchStatus × Int32) := do
  let db ← q
  match db.matchRows.find? fun m => m.id = matchId with
  | some m => .ok (m.status, m.spread)
  | none => .error .notFound

/-- `match_roster`. -/
def matchRoster (q : Reading) (order : ByTeam) (matchId : Int64) :
    Except DbError (List PlayerRow) := do
  let db ← q
  .ok (order.arrange (db.matchPlayers.filter fun r => r.matchId = matchId))

/-- `list_matches`: the ids and statuses of the youngest `limit` matches, the youngest first. -/
def listMatches {createdAt : MatchRow → Nat} (q : Reading) (order : ByAge createdAt)
    (limit : Nat) : Except DbError (List (Int64 × MatchStatus)) := do
  let db ← q
  .ok (((order.arrange db.matchRows).take limit).map fun m => (m.id, m.status))

/-- `active_match_of`: `LIMIT 1` of the active rows of the player. -/
def activeMatchOf (q : Reading) (playerId : Int64) : Except DbError (Option Int64) := do
  let db ← q
  .ok ((db.matchPlayers.find? fun r => r.userId = playerId ∧ r.active).map PlayerRow.matchId)

/-- Two queries on one connection. -/
def matchesForPlayer (q₁ q₂ : Reading) (order : ByMatch) (playerId : Int64) :
    Except DbError (List PlayerRow) := do
  let db₁ ← q₁
  let ids := (db₁.matchPlayers.filter fun r => r.userId = playerId).map PlayerRow.matchId
  if ids = [] then .ok []
  else
    let db₂ ← q₂
    .ok (order.arrange (db₂.matchPlayers.filter fun r => r.matchId ∈ ids))

end Db

/-! ## Handlers -/

namespace Api

/-- `{ "user_id": .., "rating": .. }`. -/
structure Member where
  userId : Int64
  rating : Int32
  deriving DecidableEq, Repr

/-- A match as `group_rosters` shows it. -/
structure MatchView where
  matchId : Int64
  status : MatchStatus
  teamA : List Member
  teamB : List Member
  deriving DecidableEq, Repr

/-- The answer of a handler. -/
inductive Reply (β : Type)
  | ok (body : β)
  | notFound (text : String)
  /-- `500`, `"db error: {e}"` -/
  | dbError (e : DbError)
  deriving DecidableEq, Repr

/-- `{"user_id": .., "rating": ..}`. -/
def member (r : PlayerRow) : Member := ⟨r.userId, r.rating⟩

/-- `by_match.entry(r.match_id).or_default()` and the push. -/
def pushPlayer (entry : Option (List Member × List Member)) (r : PlayerRow) :
    List Member × List Member :=
  let e := entry.getD ([], [])
  if r.team = .A then (e.1 ++ [member r], e.2) else (e.1, e.2 ++ [member r])

/-- `group_rosters`: the map of `by_match` from its last key to its first; a match without a
status counts as active. -/
def groupRosters (rows : List PlayerRow) (statuses : Std.TreeMap Int64 MatchStatus) :
    List MatchView :=
  (Bins.fill compare PlayerRow.matchId pushPlayer rows).toList.reverse.map fun e =>
    ⟨e.1, statuses[e.1]?.getD .active, e.2.1, e.2.2⟩

/-- `GET /matches`. A roster that cannot be read is left out. -/
def listMatches {createdAt : MatchRow → Nat} (q : Reading) (order : ByAge createdAt)
    (rosters : Int64 → Reading) (byTeam : ByTeam) : Reply (List MatchView) :=
  match Db.listMatches q order 200 with
  | .error e => .dbError e
  | .ok listed =>
    let allRows := listed.flatMap fun e =>
      match Db.matchRoster (rosters e.1) byTeam e.1 with
      | .ok rows => rows
      | .error _ => []
    .ok (groupRosters allRows (Std.TreeMap.ofList listed))

/-- The body of `GET /players/{id}/matches`. -/
structure PlayerMatches where
  /-- `"matches"` -/
  rosters : List MatchView
  /-- `"current_match"` -/
  currentMatch : Option Int64
  deriving DecidableEq, Repr

/-- `db::match_status(..).map(|(s, _)| s).unwrap_or_else(|_| "active")`. -/
def statusOr (q : Reading) (matchId : Int64) : MatchStatus :=
  match Db.matchStatus q matchId with
  | .ok (status, _) => status
  | .error _ => .active

/-- `statuses.entry(r.match_id).or_insert_with(..)`. -/
def askStatus (statusQ : Int64 → Reading) (entry : Option MatchStatus) (r : PlayerRow) :
    MatchStatus :=
  entry.getD (statusOr (statusQ r.matchId) r.matchId)

/-- `GET /players/{id}/matches`. -/
def playerMatches (idsQ rowsQ : Reading) (order : ByMatch) (statusQ : Int64 → Reading)
    (activeQ : Reading) (playerId : Int64) : Reply PlayerMatches :=
  match Db.matchesForPlayer idsQ rowsQ order playerId with
  | .error e => .dbError e
  | .ok rows =>
    let statuses := Bins.fill compare PlayerRow.matchId (askStatus statusQ) rows
    let active := match Db.activeMatchOf activeQ playerId with
      | .ok active => active
      | .error _ => none
    .ok ⟨groupRosters rows statuses, active⟩

/-- The body of `GET /matches/{id}`. -/
structure MatchBody where
  /-- `body["matches"].get(0)` -/
  view : Option MatchView
  spread : Int32
  deriving DecidableEq, Repr

/-- `GET /matches/{id}`. Every failure of the first query is a 404. -/
def getMatch (statusQ rosterQ : Reading) (order : ByTeam) (matchId : Int64) : Reply MatchBody :=
  match Db.matchStatus statusQ matchId with
  | .error _ => .notFound "match not found"
  | .ok (status, spread) =>
    match Db.matchRoster rosterQ order matchId with
    | .error e => .dbError e
    | .ok rows =>
      let statuses := (∅ : Std.TreeMap Int64 MatchStatus).insert matchId status
      .ok ⟨(groupRosters rows statuses).head?, spread⟩

/-- The body of `POST /matches/{id}/end`. -/
structure Ended where
  matchId : Int64
  playersFreed : Nat
  deriving DecidableEq, Repr

/-- `POST /matches/{id}/end`. -/
def endMatch (pg : Pg) (matchId : Int64) (db : Db) : Reply Ended × Db :=
  let freed := Table.affected (fun r : PlayerRow => r.matchId = matchId) db.matchPlayers
  match pg.run (Supermatchmaker.endMatch matchId) db with
  | (.ok (), db') => (.ok ⟨matchId, freed⟩, db')
  | (.error _, db') => (.notFound "match not found or already ended", db')

/-! ## What `group_rosters` makes of its rows -/

/-- The members of one team, in row order. -/
def members (team : Team) (rows : List PlayerRow) : List Member :=
  (rows.filter fun r => r.team = team).map member

/-- The rows of one match. -/
def rowsFor (rows : List PlayerRow) (matchId : Int64) : List PlayerRow :=
  rows.filter fun r => r.matchId = matchId

/-- The two vectors of an entry after some rows: each row goes to the end of its team's. -/
theorem entry_pushPlayer (rows : List PlayerRow) (a b : List Member) :
    Bins.entry pushPlayer rows (some (a, b))
      = some (a ++ members .A rows, b ++ members .B rows) := by
  unfold Bins.entry members
  induction rows generalizing a b with
  | nil => simp
  | cons r rows ih =>
    rw [List.foldl_cons]
    cases hteam : r.team with
    | A =>
      have hpush : pushPlayer (some (a, b)) r = (a ++ [member r], b) := by
        unfold pushPlayer
        rw [if_pos hteam]
        rfl
      rw [hpush, ih]
      simp [hteam]
    | B =>
      have hpush : pushPlayer (some (a, b)) r = (a, b ++ [member r]) := by
        unfold pushPlayer
        rw [if_neg (by rw [hteam]; exact fun h => by cases h)]
        rfl
      rw [hpush, ih]
      simp [hteam]

/-- What a match is grouped to. -/
theorem entry_rows {rows : List PlayerRow} (hne : rows ≠ []) :
    Bins.entry pushPlayer rows none = some (members .A rows, members .B rows) := by
  cases rows with
  | nil => exact absurd rfl hne
  | cons r rows =>
    -- `or_default` starts with two empty teams
    have hstart : Bins.entry pushPlayer (r :: rows) none
        = Bins.entry pushPlayer (r :: rows) (some ([], [])) := rfl
    rw [hstart, entry_pushPlayer, List.nil_append, List.nil_append]

/-- The view of one match. -/
def viewOf (rows : List PlayerRow) (statuses : Std.TreeMap Int64 MatchStatus) (matchId : Int64) :
    MatchView :=
  ⟨matchId, statuses[matchId]?.getD .active, members .A (rowsFor rows matchId),
    members .B (rowsFor rows matchId)⟩

/-- A match has rows or is not shown. -/
theorem rowsFor_ne_nil {rows : List PlayerRow} {matchId : Int64} :
    rowsFor rows matchId ≠ [] ↔ ∃ r ∈ rows, r.matchId = matchId := by
  unfold rowsFor
  rw [ne_eq, List.filter_eq_nil_iff]
  simp

/-- **Which matches are shown, and how.** -/
theorem mem_groupRosters {rows : List PlayerRow} {statuses : Std.TreeMap Int64 MatchStatus}
    {v : MatchView} : v ∈ groupRosters rows statuses ↔
      (∃ r ∈ rows, r.matchId = v.matchId) ∧ v = viewOf rows statuses v.matchId := by
  unfold groupRosters
  rw [List.mem_map]
  constructor
  · rintro ⟨⟨matchId, teams⟩, hmem, rfl⟩
    rw [List.mem_reverse, Bins.mem_toList_fill] at hmem
    have hsome : (Bins.entry pushPlayer (rowsFor rows matchId) none).isSome := by
      unfold rowsFor
      rw [hmem]
      rfl
    have hne := (Bins.entry_isSome pushPlayer).mp hsome
    have hteams := (entry_rows hne).symm.trans hmem
    rw [Option.some.injEq] at hteams
    refine ⟨rowsFor_ne_nil.mp hne, ?_⟩
    rw [← hteams]
    rfl
  · rintro ⟨hrow, hv⟩
    refine ⟨(v.matchId, members .A (rowsFor rows v.matchId), members .B (rowsFor rows v.matchId)),
      ?_, hv.symm⟩
    rw [List.mem_reverse, Bins.mem_toList_fill]
    exact entry_rows (rowsFor_ne_nil.mpr hrow)

/-- Newest ids first, each once. -/
theorem groupRosters_descending (rows : List PlayerRow)
    (statuses : Std.TreeMap Int64 MatchStatus) :
    ((groupRosters rows statuses).map MatchView.matchId).Pairwise (· > ·) := by
  have hids : (groupRosters rows statuses).map MatchView.matchId
      = (Bins.fill compare PlayerRow.matchId pushPlayer rows).keys.reverse := by
    unfold groupRosters
    rw [List.map_map, List.map_reverse, ← Std.TreeMap.map_fst_toList_eq_keys]
    rfl
  rw [hids, List.pairwise_reverse]
  exact (Bins.ordered_fill PlayerRow.matchId pushPlayer rows).imp fun h => Std.compare_eq_lt.mp h

/-- The rows of one match make one view. -/
theorem groupRosters_one {rows : List PlayerRow} {statuses : Std.TreeMap Int64 MatchStatus}
    {matchId : Int64} (hne : rows ≠ []) (hrows : ∀ r ∈ rows, r.matchId = matchId) :
    groupRosters rows statuses = [⟨matchId, statuses[matchId]?.getD .active, members .A rows,
      members .B rows⟩] := by
  have hfor : rowsFor rows matchId = rows :=
    List.filter_eq_self.mpr fun r hr => decide_eq_true (hrows r hr)
  have hmem : ∀ v ∈ groupRosters rows statuses, v = viewOf rows statuses matchId := by
    intro v hv
    obtain ⟨⟨r, hr, hid⟩, heq⟩ := mem_groupRosters.mp hv
    rw [← hrows r hr, hid]
    exact heq
  have hview : viewOf rows statuses matchId ∈ groupRosters rows statuses := by
    obtain ⟨r, hr⟩ := List.exists_mem_of_ne_nil rows hne
    exact mem_groupRosters.mpr ⟨⟨r, hr, hrows r hr⟩, rfl⟩
  have hdesc := groupRosters_descending rows statuses
  obtain ⟨v, hv⟩ : ∃ v, groupRosters rows statuses = [v] := by
    cases hlist : groupRosters rows statuses with
    | nil =>
      rw [hlist] at hview
      cases hview
    | cons v rest =>
      cases rest with
      | nil => exact ⟨v, rfl⟩
      | cons v' rest =>
        -- two views would have the same id
        rw [hlist] at hdesc hmem
        have hgt := List.rel_of_pairwise_cons hdesc List.mem_cons_self
        rw [hmem v List.mem_cons_self,
          hmem v' (List.mem_cons_of_mem _ List.mem_cons_self)] at hgt
        exact absurd hgt Int64.lt_irrefl
  rw [hv] at hview ⊢
  rw [← List.mem_singleton.mp hview]
  unfold viewOf
  rw [hfor]

theorem members_perm {team : Team} {rows rows' : List PlayerRow} (h : rows.Perm rows') :
    (members team rows).Perm (members team rows') := (h.filter _).map _

end Api

end Supermatchmaker
