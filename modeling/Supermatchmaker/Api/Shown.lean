import Supermatchmaker.Api.Views
import Supermatchmaker.Lib.Cells
import Supermatchmaker.Service.Lineage

/-!
# From the gate to the client

A match goes a long way before `GET /matches` or `GET /matches/{id}` shows it: through
the commit pipeline, the sync stream, the poller, two tables, two queries at two
different times and `group_rosters`. In the runs in which match ids identify matches
(`World.Identifying`: no match is formed under a count that an earlier process has used,
and none is inserted again after it was ended) the client gets the match as
`optimize_split` made it, with the status it had when the first query was answered, and
`GET /matches` leaves out none but the oldest.

`stored_rows` is the step from the tables to the match; `rowsFor_listed` undoes the
concatenation of the rosters that `list_matches` hands to `group_rosters`.
-/

namespace Supermatchmaker

variable {cfg : Config}

/-! ## The tables at two moments of a run -/

/-- The tables of a later moment extend those of an earlier one. -/
theorem world_extends {P : World cfg → WorldEvent cfg → Prop} {s t : World cfg}
    (hS : Sound s.toCore) (hk : s.writer.db.Keyed) (h : Lts.Run World.step P s t) :
    t.writer.db.Keyed ∧ s.writer.db.Extends t.writer.db := by
  have hrun := h.inv
    (I := fun t => Sound t.toCore ∧ t.writer.db.Keyed ∧ s.writer.db.Extends t.writer.db)
    (fun hI _ hs => ⟨step_sound hI.1 hs,
      step_tables (P := fun db => db.Keyed ∧ s.writer.db.Extends db) hI.1.founded
        (fun hd hstep => ⟨step_keyed hd.1 hstep, hd.2.trans (step_extends hd.1 hstep)⟩) hI.2 hs⟩)
    ⟨hS, hk, Db.Extends.refl _⟩
  exact hrun.2

/-- A match formed stays formed, in the ghost record. -/
theorem history_kept {P : World cfg → WorldEvent cfg → Prop} {s t : World cfg}
    (hS : Sound s.toCore) (h : Lts.Run World.step P s t) {f : Formed Nat} (hf : f ∈ s.history) :
    f ∈ t.history := by
  have hrun := h.inv (I := fun t => Sound t.toCore ∧ f ∈ t.history)
    (fun hI _ hs => ⟨step_sound hI.1 hs, (step_effect hI.1.founded hs).history hI.1.inv hI.2⟩)
    ⟨hS, hf⟩
  exact hrun.2

theorem run_numbered {s : World cfg}
    (h : Lts.Run World.step World.Identifying (World.init cfg) s) : s.Numbered :=
  h.inv (fun hN hg hs => step_numbered hN hg hs) init_numbered

theorem World.Numbered.keyed {s : World cfg} (hN : s.Numbered) : s.writer.db.Keyed :=
  ⟨hN.filed.db.indexed, hN.filed.db.keys, hN.filed.db.owned⟩

/-- The rows of a stored match are the rows of the match. -/
theorem stored_rows {t : World cfg} (hN : t.Numbered) {f : Formed Nat} (hf : f ∈ t.history)
    (hid : f.result.matchId.toInt64 ∈ t.writer.db.matchRows.map MatchRow.id) :
    ∃ active, t.writer.db.rowsOf f.result.matchId.toInt64 = f.result.item.playerRows active := by
  obtain ⟨row, hrow, hrid⟩ := List.mem_map.mp hid
  obtain ⟨e, ⟨_, ⟨g, hg, rfl⟩, rfl⟩, hown, hrows⟩ := hN.filed.db.rows row hrow
  have hgid : g.result.matchId.toInt64 = row.id := congrArg MatchRow.id hown
  obtain rfl : g = f := hN.counted.inj hg hf (toInt64_inj (hgid.trans hrid))
  exact ⟨_, hrid ▸ hrows⟩

namespace Api

/-- A team of a result as the views show it. -/
def teamOf (team : List (Int64 × Int32)) : List Member := team.map fun q => ⟨q.1, q.2⟩

/-- The view is the match, with the status it has in these tables. -/
structure MatchView.Shows (v : MatchView) (f : Formed Nat) (db : Db) : Prop where
  matchId : v.matchId = f.result.matchId.toInt64
  teamA : v.teamA.Perm (teamOf f.result.teamA)
  teamB : v.teamB.Perm (teamOf f.result.teamB)
  status : db.StatusIs v.matchId v.status

theorem members_playerRows (r : MatchResult) (active : Bool) :
    members .A (r.item.playerRows active) = teamOf r.teamA ∧
      members .B (r.item.playerRows active) = teamOf r.teamB := by
  obtain ⟨hA, hB⟩ := r.item.filter_team active
  unfold members
  rw [hA, hB, List.map_map, List.map_map]
  exact ⟨rfl, rfl⟩

/-- Any arrangement of the rows of a match makes the same view. -/
theorem shows_of_rows {f : Formed Nat} {db : Db} {rows : List PlayerRow} {active : Bool}
    {status : MatchStatus} (hrows : rows.Perm (f.result.item.playerRows active))
    (hstatus : db.StatusIs f.result.matchId.toInt64 status) :
    MatchView.Shows ⟨f.result.matchId.toInt64, status, members .A rows, members .B rows⟩ f db := by
  obtain ⟨hA, hB⟩ := members_playerRows f.result active
  refine ⟨rfl, ?_, ?_, hstatus⟩
  · rw [← hA]
    exact members_perm hrows
  · rw [← hB]
    exact members_perm hrows

theorem playerRows_ne_nil {fs : List (Formed Nat)} (hC : Counted fs) {f : Formed Nat} (hf : f ∈ fs)
    (active : Bool) : f.result.item.playerRows active ≠ [] := by
  intro hnil
  have husers := f.result.item.playerRows_users active
  rw [hnil] at husers
  exact hC.identified.manned f.result.item ⟨f.result, ⟨f, hf, rfl⟩, rfl⟩ husers.symm

/-! ## One match -/

/-- **`GET /matches/{id}`** shows the match as it was formed: in every run in which ids
identify matches and no ended match is inserted again, with any further steps between its
two queries. -/
theorem match_shown_as_formed {s t : World cfg}
    (h : Lts.Run World.step World.Identifying (World.init cfg) s)
    (h' : Lts.Run World.step World.Identifying s t) (order : ByTeam) (matchId : Int64) :
    (matchId ∉ s.writer.db.matchRows.map MatchRow.id →
      getMatch (.ok s.writer.db) (.ok t.writer.db) order matchId = .notFound "match not found") ∧
    (matchId ∈ s.writer.db.matchRows.map MatchRow.id → ∃ f ∈ s.history, ∃ v : MatchView,
      getMatch (.ok s.writer.db) (.ok t.writer.db) order matchId
        = .ok ⟨some v, f.result.spread.toInt32⟩ ∧
      v.matchId = matchId ∧ v.Shows f s.writer.db) := by
  have hN := run_numbered h
  have hN' := run_numbered (h.trans h')
  refine ⟨fun hno => ?_, fun hid => ?_⟩
  · unfold getMatch
    rw [matchStatus_error hno]
  · obtain ⟨row, hrow, rfl⟩ := List.mem_map.mp hid
    obtain ⟨_, ⟨_, ⟨f, hf, rfl⟩, rfl⟩, hown, _⟩ := hN.filed.db.rows row hrow
    have hfid : f.result.matchId.toInt64 = row.id := congrArg MatchRow.id hown
    have hspread : f.result.spread.toInt32 = row.spread := congrArg MatchRow.spread hown
    -- the second query finds the rows of the same match
    have hf' : f ∈ t.history := history_kept hN.sound h' hf
    have hext := (world_extends hN.sound hN.keyed h').2
    obtain ⟨active, hrows⟩ := stored_rows hN' hf' (hext.ids (hfid ▸ hid))
    set rows := order.arrange (t.writer.db.rowsOf row.id) with hrowsdef
    have hperm : rows.Perm (f.result.item.playerRows active) := by
      rw [← hrows, hfid]
      exact order.perm _
    have hne : rows ≠ [] := fun hnil =>
      playerRows_ne_nil hN'.counted hf' active (List.nil_perm.mp (hnil ▸ hperm))
    have hrowsid : ∀ r ∈ rows, r.matchId = row.id := fun r hr =>
      of_decide_eq_true (List.mem_filter.mp ((order.perm _).subset hr)).2
    refine ⟨f, hf, ⟨row.id, row.status, members .A rows, members .B rows⟩, ?_, rfl, ?_⟩
    · have hroster : Db.matchRoster (.ok t.writer.db) order row.id = .ok rows := rfl
      unfold getMatch
      rw [matchStatus_ok hN.keyed hrow rfl, hroster, hspread]
      simp only
      rw [groupRosters_one hne hrowsid, Std.TreeMap.getElem?_insert_self]
      rfl
    · have hstatus : s.writer.db.StatusIs f.result.matchId.toInt64 row.status :=
        ⟨row, hrow, hfid.symm, rfl⟩
      rw [← hfid]
      exact shows_of_rows hperm hstatus

/-- A match can be ended at any time. -/
theorem exists_ended (s : World cfg) (matchId : Int64) :
    ∃ t, Lts.Run World.step World.Identifying s t ∧ ¬ t.writer.db.Running matchId :=
  ⟨_, .single (e := .endMatch matchId .up) trivial rfl, not_running_endMatch (by decide)⟩

/-- The match is ended between the two queries: it is shown as it was for the first. -/
theorem match_shown_as_formed_ended :
    ∃ s t : World Config.small, ¬ t.writer.db.Running 1 ∧ ∃ f ∈ s.history, ∃ v : MatchView,
      getMatch (.ok s.writer.db) (.ok t.writer.db) stableByTeam 1
        = .ok ⟨some v, f.result.spread.toInt32⟩ ∧ v.matchId = 1 ∧ v.Shows f s.writer.db := by
  obtain ⟨s, hrun, hids⟩ := exists_two_stored
  obtain ⟨t, hrun', hended⟩ := exists_ended s 1
  have hid : 1 ∈ s.writer.db.matchRows.map MatchRow.id := by
    rw [hids]
    decide
  exact ⟨s, t, hended, (match_shown_as_formed hrun hrun' stableByTeam 1).2 hid⟩

/-! ## The listing -/

/-- The rows a listing reads: one roster after the other. -/
def listedRows (listed : List (Int64 × MatchStatus)) (rosters : Int64 → Db) (byTeam : ByTeam) :
    List PlayerRow :=
  (listed.map Prod.fst).flatMap fun matchId => byTeam.arrange ((rosters matchId).rowsOf matchId)

/-- Taking the rows of one match from them gives its roster back. -/
theorem rowsFor_listed {listed : List (Int64 × MatchStatus)} {rosters : Int64 → Db}
    {byTeam : ByTeam} (hnd : (listed.map Prod.fst).Nodup) {matchId : Int64}
    (hid : matchId ∈ listed.map Prod.fst) :
    rowsFor (listedRows listed rosters byTeam) matchId
      = byTeam.arrange ((rosters matchId).rowsOf matchId) := by
  have hhomed : Cells.Homed PlayerRow.matchId
      fun matchId => byTeam.arrange ((rosters matchId).rowsOf matchId) := fun matchId r hr =>
    of_decide_eq_true (List.mem_filter.mp ((byTeam.perm _).subset hr)).2
  exact Cells.spread_flatMap hhomed hnd hid

theorem listMatches_ok {createdAt : MatchRow → Nat} (order : ByAge createdAt) (db : Db)
    (rosters : Int64 → Db) (byTeam : ByTeam) {listed : List (Int64 × MatchStatus)}
    (hlisted : listed = ((order.arrange db.matchRows).take 200).map fun m => (m.id, m.status)) :
    listMatches (.ok db) order (fun matchId => .ok (rosters matchId)) byTeam
      = .ok (groupRosters (listedRows listed rosters byTeam) (Std.TreeMap.ofList listed)) := by
  subst hlisted
  unfold listMatches listedRows
  rw [List.flatMap_map]
  rfl

/-- The rosters of distinct matches, none of them empty, are grouped into one view each. -/
theorem views_listed {listed : List (Int64 × MatchStatus)} {rosters : Int64 → Db}
    {byTeam : ByTeam} (hnd : (listed.map Prod.fst).Nodup)
    (hne : ∀ e ∈ listed, (rosters e.1).rowsOf e.1 ≠ []) {views : List MatchView}
    (hviews : views = groupRosters (listedRows listed rosters byTeam) (Std.TreeMap.ofList listed)) :
    (views.map MatchView.matchId).Perm (listed.map Prod.fst) ∧
      ∀ v ∈ views, ∃ e ∈ listed, v = ⟨e.1, e.2,
        members .A (byTeam.arrange ((rosters e.1).rowsOf e.1)),
        members .B (byTeam.arrange ((rosters e.1).rowsOf e.1))⟩ := by
  have hdesc := groupRosters_descending (listedRows listed rosters byTeam)
    (Std.TreeMap.ofList listed)
  rw [← hviews] at hdesc
  have hviewsnd : (views.map MatchView.matchId).Nodup := by
    refine hdesc.imp ?_
    rintro a b hgt rfl
    exact Int64.lt_irrefl hgt
  have hmem : ∀ v ∈ views, v.matchId ∈ listed.map Prod.fst := by
    intro v hv
    rw [hviews, mem_groupRosters] at hv
    obtain ⟨⟨r, hr, hid⟩, _⟩ := hv
    obtain ⟨matchId, hmatch, hr⟩ := List.mem_flatMap.mp hr
    have hrid : r.matchId = matchId :=
      of_decide_eq_true (List.mem_filter.mp ((byTeam.perm _).subset hr)).2
    rw [← hid, hrid]
    exact hmatch
  refine ⟨?_, fun v hv => ?_⟩
  · rw [List.perm_ext_iff_of_nodup hviewsnd hnd]
    intro matchId
    constructor
    · intro hin
      obtain ⟨v, hv, rfl⟩ := List.mem_map.mp hin
      exact hmem v hv
    · intro hin
      obtain ⟨e, he, rfl⟩ := List.mem_map.mp hin
      obtain ⟨r, hr⟩ := List.exists_mem_of_ne_nil _ (hne e he)
      have hrow : r ∈ listedRows listed rosters byTeam :=
        List.mem_flatMap.mpr ⟨e.1, hin, (byTeam.perm _).symm.subset hr⟩
      have hrid : r.matchId = e.1 := of_decide_eq_true (List.mem_filter.mp hr).2
      refine List.mem_map.mpr ⟨viewOf (listedRows listed rosters byTeam)
        (Std.TreeMap.ofList listed) e.1, ?_, rfl⟩
      rw [hviews]
      exact mem_groupRosters.mpr ⟨⟨r, hrow, hrid⟩, rfl⟩
  · obtain ⟨e, he, hid⟩ := List.mem_map.mp (hmem v hv)
    have hstatus : (Std.TreeMap.ofList listed compare)[v.matchId]? = some e.2 := by
      refine Std.TreeMap.getElem?_ofList_of_mem (k := e.1) (by rw [hid]; simp) ?_ he
      refine (List.pairwise_map.mp hnd).imp fun hne heq => hne ?_
      exact Std.LawfulEqCmp.compare_eq_iff_eq.mp heq
    rw [hviews] at hv
    have heq := (mem_groupRosters.mp hv).2
    unfold viewOf at heq
    rw [hstatus, rowsFor_listed hnd (hid ▸ List.mem_map_of_mem he), ← hid] at heq
    exact ⟨e, he, heq⟩

/-- What is cut off is no younger than what is listed. -/
theorem age_of_cut {createdAt : MatchRow → Nat} (order : ByAge createdAt) {rows : List MatchRow}
    {row : MatchRow} (hrow : row ∈ rows) (hcut : row ∉ (order.arrange rows).take 200) :
    ∀ row' ∈ (order.arrange rows).take 200, createdAt row ≤ createdAt row' := by
  have hmem : row ∈ (order.arrange rows).take 200 ++ (order.arrange rows).drop 200 := by
    rw [List.take_append_drop]
    exact (order.perm rows).symm.subset hrow
  have hsorted := order.sorted rows
  rw [← List.take_append_drop 200 (order.arrange rows), List.pairwise_append] at hsorted
  have hdrop := (List.mem_append.mp hmem).resolve_left hcut
  exact fun row' hrow' => hsorted.2.2 row' hrow' row hdrop

/-- **`GET /matches`** in every run in which ids identify matches and no ended match is
inserted again, its rosters read at any later times: the 200 youngest matches or all of
them, each once and as it was formed, newest ids first. -/
theorem listed_as_formed {s : World cfg} {rosters : Int64 → World cfg}
    (h : Lts.Run World.step World.Identifying (World.init cfg) s)
    (h' : ∀ matchId, Lts.Run World.step World.Identifying s (rosters matchId))
    {createdAt : MatchRow → Nat} (order : ByAge createdAt) (byTeam : ByTeam) :
    ∃ views, listMatches (.ok s.writer.db) order (fun m => .ok (rosters m).writer.db) byTeam
        = .ok views ∧
      (views.map MatchView.matchId).Pairwise (· > ·) ∧
      views.length = min 200 s.writer.db.matchRows.length ∧
      (∀ v ∈ views, ∃ f ∈ s.history, v.Shows f s.writer.db) ∧
      ∀ row ∈ s.writer.db.matchRows, (∃ v ∈ views, v.matchId = row.id) ∨
        ∀ v ∈ views, ∃ row' ∈ s.writer.db.matchRows, row'.id = v.matchId ∧
          createdAt row ≤ createdAt row' := by
  have hN := run_numbered h
  set newest := (order.arrange s.writer.db.matchRows).take 200 with hnewest
  set listed := newest.map fun m => (m.id, m.status) with hlisted
  have hids : listed.map Prod.fst = newest.map MatchRow.id := by
    rw [hlisted, List.map_map]
    rfl
  have hsub : ∀ row ∈ newest, row ∈ s.writer.db.matchRows := fun row hrow =>
    (order.perm _).subset (List.mem_of_mem_take hrow)
  have hnd : (listed.map Prod.fst).Nodup := by
    rw [hids]
    have hall := ((order.perm s.writer.db.matchRows).map MatchRow.id).nodup_iff.mpr hN.filed.db.keys
    exact hall.sublist ((List.take_sublist _ _).map _)
  -- the roster of each listed match, whenever it is read
  have hrosters : ∀ row ∈ newest, ∃ f ∈ s.history, f.result.matchId.toInt64 = row.id ∧
      ∃ active, (byTeam.arrange ((rosters row.id).writer.db.rowsOf row.id)).Perm
        (f.result.item.playerRows active) := by
    intro row hrow
    obtain ⟨_, ⟨_, ⟨f, hf, rfl⟩, rfl⟩, hown, _⟩ := hN.filed.db.rows row (hsub row hrow)
    have hfid : f.result.matchId.toInt64 = row.id := congrArg MatchRow.id hown
    have hN' := run_numbered (h.trans (h' row.id))
    have hext := (world_extends hN.sound hN.keyed (h' row.id)).2
    obtain ⟨active, hrows⟩ := stored_rows hN' (history_kept hN.sound (h' row.id) hf)
      (hext.ids (hfid ▸ List.mem_map_of_mem (hsub row hrow)))
    refine ⟨f, hf, hfid, active, ?_⟩
    rw [← hrows, hfid]
    exact byTeam.perm _
  have hne : ∀ e ∈ listed, (rosters e.1).writer.db.rowsOf e.1 ≠ [] := by
    intro e he hnil
    obtain ⟨row, hrow, rfl⟩ := List.mem_map.mp he
    obtain ⟨f, hf, _, active, hperm⟩ := hrosters row hrow
    rw [hnil, List.perm_nil.mp (byTeam.perm [])] at hperm
    exact playerRows_ne_nil hN.counted hf active (List.nil_perm.mp hperm)
  obtain ⟨hperm, hviews⟩ :=
    @views_listed listed (fun m => (rosters m).writer.db) byTeam hnd hne _ rfl
  refine ⟨_, listMatches_ok order s.writer.db _ byTeam hlisted, groupRosters_descending _ _, ?_,
    fun v hv => ?_, fun row hrow => ?_⟩
  · have hlen := hperm.length_eq
    rw [List.length_map, List.length_map] at hlen
    rw [hlen, hlisted, List.length_map, hnewest, List.length_take, (order.perm _).length_eq]
  · obtain ⟨e, he, rfl⟩ := hviews v hv
    obtain ⟨row, hrow, rfl⟩ := List.mem_map.mp he
    obtain ⟨f, hf, hfid, active, hrows⟩ := hrosters row hrow
    refine ⟨f, hf, ?_⟩
    simp only
    rw [← hfid] at hrows ⊢
    exact shows_of_rows hrows ⟨row, hsub row hrow, hfid.symm, rfl⟩
  · by_cases hin : row ∈ newest
    · left
      have hid : row.id ∈ listed.map Prod.fst := hids ▸ List.mem_map_of_mem hin
      exact List.mem_map.mp (hperm.symm.subset hid)
    · refine .inr fun v hv => ?_
      obtain ⟨e, he, rfl⟩ := hviews v hv
      obtain ⟨row', hrow', rfl⟩ := List.mem_map.mp he
      exact ⟨row', hsub row' hrow', rfl, age_of_cut order hrow hin row' hrow'⟩

/-- The rows by age, if the match 1 is the younger of two. -/
def byAge : ByAge fun row => if row.id = 1 then 1 else 0 :=
  .stable _ (fun _ _ => Nat.le_total _ _) fun _ _ _ h h' => Nat.le_trans h' h

/-- Two matches, the younger of which has the smaller id, while the older one is being ended:
the listing is by id. -/
theorem listed_as_formed_two :
    ∃ s t : World Config.small, ¬ t.writer.db.Running 2 ∧ ∃ views,
      listMatches (.ok s.writer.db) byAge (fun _ => .ok t.writer.db) stableByTeam = .ok views ∧
      views.map MatchView.matchId = [2, 1] ∧
      ∀ v ∈ views, ∃ f ∈ s.history, v.Shows f s.writer.db := by
  obtain ⟨s, hrun, hids⟩ := exists_two_stored
  obtain ⟨t, hrun', hended⟩ := exists_ended s 2
  obtain ⟨views, hreply, hdesc, hlen, hshown, _⟩ :=
    listed_as_formed hrun (fun _ => hrun') byAge stableByTeam
  refine ⟨s, t, hended, views, hreply, ?_, hshown⟩
  -- two ids out of two, the larger one first
  have htwo : (views.map MatchView.matchId).length = 2 := by
    have hrows := congrArg List.length hids
    rw [List.length_map] at hrows ⊢
    rw [hlen, hrows]
    rfl
  have hof : ∀ id ∈ views.map MatchView.matchId, id = 2 ∨ id = 1 := by
    intro id hid
    obtain ⟨v, hv, rfl⟩ := List.mem_map.mp hid
    obtain ⟨_, _, hview⟩ := hshown v hv
    obtain ⟨row, hrow, hrid, _⟩ := hview.status
    have hmem := List.mem_map_of_mem (f := MatchRow.id) hrow
    rw [hids, hrid] at hmem
    simpa using hmem
  obtain ⟨a, b, hab⟩ := List.length_eq_two.mp htwo
  rw [hab] at hdesc hof ⊢
  have hlt : b < a := List.rel_of_pairwise_cons hdesc List.mem_cons_self
  rcases hof a List.mem_cons_self with rfl | rfl <;>
    rcases hof b (List.mem_cons_of_mem _ List.mem_cons_self) with rfl | rfl
  · exact absurd hlt (Int64.lt_irrefl)
  · rfl
  · exact absurd hlt (by decide)
  · exact absurd hlt (Int64.lt_irrefl)

end Api

end Supermatchmaker
