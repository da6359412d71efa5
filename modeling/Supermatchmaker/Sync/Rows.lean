import Supermatchmaker.Sync.Flush
import Supermatchmaker.Sync.Retry

/-!
# The rows of a match

What ties the rows of `match_players` to the row of `matches` they belong to is
nothing but the match id, and the statement that inserts them does not look
whether the match was inserted too. So whether the tables say what happened
depends on the matches that reach them: `Db.Faithful` is kept when no two of them
share an id and none comes back after it was ended (`insertMatchBatch_faithful`).

`Writer.Filed` carries this through the stream, the consumer group and the
poller: whatever they hold is a match that was published.
-/

namespace Supermatchmaker

/-! ## The tables -/

/-- The rows of `match_players` with the match id. -/
def Db.rowsOf (db : Db) (id : Int64) : List PlayerRow :=
  db.matchPlayers.filter (·.matchId = id)

/-- Every row of `matches` is one of the known matches and has its player rows,
all of them and no others; they are active until the match is ended. -/
structure Db.Faithful (db : Db) (known : BatchItem → Prop) : Prop where
  indexed : db.Indexed
  keys : (db.matchRows.map MatchRow.id).Nodup
  rows : ∀ row ∈ db.matchRows, ∃ e, known e ∧ e.matchRow = { row with status := .active } ∧
    db.rowsOf row.id = e.playerRows (row.status = .active)
  owned : ∀ r ∈ db.matchPlayers, r.matchId ∈ db.matchRows.map MatchRow.id

/-- Known matches have players, and are told apart by their ids. -/
structure Identified (known : BatchItem → Prop) : Prop where
  manned : ∀ e, known e → e.users ≠ []
  unique : ∀ e e', known e → known e' → e.matchId = e'.matchId → e = e'

theorem Db.Faithful.mono {db : Db} {known known' : BatchItem → Prop} (h : db.Faithful known)
    (hsub : ∀ e, known e → known' e) : db.Faithful known' := by
  refine ⟨h.indexed, h.keys, fun row hrow => ?_, h.owned⟩
  obtain ⟨e, he, hid, hrows⟩ := h.rows row hrow
  exact ⟨e, hsub e he, hid, hrows⟩

theorem empty_faithful (known : BatchItem → Prop) : Db.empty.Faithful known where
  indexed := List.nodup_nil
  keys := List.nodup_nil
  rows := nofun
  owned := nofun

theorem createUser_faithful {db db' : Db} {known : BatchItem → Prop} {rating : Int32}
    (hdb : db.Faithful known) (h : createUser rating db = .ok db') : db'.Faithful known := by
  have hindexed := createUser_indexed hdb.indexed h
  unfold createUser at h
  split at h
  · have heq := Except.ok.inj h
    subst heq
    exact ⟨hindexed, hdb.keys, hdb.rows, hdb.owned⟩
  · cases h

/-- Ending a match turns its player rows inactive. -/
theorem BatchItem.map_leaveRow (e : BatchItem) (matchId : Int64) (active : Bool) :
    (e.playerRows active).map (leaveRow matchId)
      = e.playerRows (active && decide (e.matchId ≠ matchId)) := by
  have hrow : ∀ team p, leaveRow matchId (e.playerRow active team p)
      = e.playerRow (active && decide (e.matchId ≠ matchId)) team p := by
    intro team p
    unfold leaveRow BatchItem.playerRow
    by_cases hid : e.matchId = matchId <;> simp [hid]
  unfold BatchItem.playerRows
  rw [List.map_append, List.map_map, List.map_map]
  exact congrArg₂ (· ++ ·) (List.map_congr_left fun p _ => hrow .A p)
    (List.map_congr_left fun p _ => hrow .B p)

theorem endMatch_faithful {db db' : Db} {known : BatchItem → Prop} {matchId : Int64}
    (hdb : db.Faithful known) (h : endMatch matchId db = .ok db') : db'.Faithful known := by
  obtain ⟨hmatches, hplayers⟩ := endMatch_tables h
  have hids : db'.matchRows.map MatchRow.id = db.matchRows.map MatchRow.id := by
    rw [hmatches, List.map_map]
    exact List.map_congr_left fun row _ => endRow_id matchId row
  -- no player row moves to another match
  have hrowsOf : ∀ id, db'.rowsOf id = (db.rowsOf id).map (leaveRow matchId) := by
    intro id
    unfold Db.rowsOf
    rw [hplayers, List.filter_map]
    refine congrArg _ (List.filter_congr fun r _ => ?_)
    show decide ((leaveRow matchId r).matchId = id) = _
    rw [leaveRow_matchId]
  refine ⟨endMatch_indexed hdb.indexed h, by rw [hids]; exact hdb.keys, fun row hrow => ?_,
    fun r hr => ?_⟩
  · rw [hmatches] at hrow
    obtain ⟨old, hold, rfl⟩ := List.mem_map.mp hrow
    obtain ⟨e, he, hown, hrows⟩ := hdb.rows old hold
    have hid : e.matchId = old.id := congrArg MatchRow.id hown
    refine ⟨e, he, hown.trans (endRow_active matchId old).symm, ?_⟩
    rw [endRow_id, hrowsOf, hrows, e.map_leaveRow, hid]
    congr 1
    unfold endRow
    by_cases hm : old.id = matchId <;> simp [hm]
  · rw [hids]
    rw [hplayers] at hr
    obtain ⟨old, hold, rfl⟩ := List.mem_map.mp hr
    rw [leaveRow_matchId]
    exact hdb.owned old hold

/-- The rows of one match of a batch whose ids are distinct. -/
theorem filter_flatMap_playerRows {e : BatchItem} :
    ∀ (batch : List BatchItem), (batch.map BatchItem.matchId).Nodup → e ∈ batch →
      (batch.flatMap (·.playerRows true)).filter (·.matchId = e.matchId) = e.playerRows true
  | x :: batch, hnodup, he => by
    rw [List.map_cons, List.nodup_cons] at hnodup
    have hnone : ∀ y ∈ batch, x.matchId ≠ y.matchId := fun y hy heq =>
      hnodup.1 (heq ▸ List.mem_map_of_mem hy)
    rw [List.flatMap_cons, List.filter_append]
    rcases List.mem_cons.mp he with rfl | he
    · rw [List.filter_eq_self.mpr fun r hr => decide_eq_true (BatchItem.active_of_mem hr).2,
        List.filter_eq_nil_iff.mpr, List.append_nil]
      intro r hr
      obtain ⟨y, hy, hry⟩ := List.mem_flatMap.mp hr
      rw [decide_eq_true_iff, (BatchItem.active_of_mem hry).2]
      exact (hnone y hy).symm
    · rw [filter_flatMap_playerRows batch hnodup.2 he, List.filter_eq_nil_iff.mpr, List.nil_append]
      intro r hr
      rw [decide_eq_true_iff, (BatchItem.active_of_mem hr).2]
      exact hnone e he

/-- **Insertion**: of known matches that are told apart by their ids, none of them
stored and ended already. -/
theorem insertMatchBatch_faithful {db db' : Db} {known : BatchItem → Prop} {batch : List BatchItem}
    (hdb : db.Faithful known) (hknown : Identified known) (hbatch : ∀ e ∈ batch, known e)
    (hended : ∀ e ∈ batch, ∀ row ∈ db.matchRows, row.id = e.matchId → row.status = .active)
    (h : insertMatchBatch batch db = .ok db') : db'.Faithful known := by
  have hindexed := insertMatchBatch_indexed hdb.indexed h
  rcases eq_of_insertMatchBatch h with ⟨_, rfl⟩ | ⟨_, hacc, rfl⟩
  · exact hdb
  have hclean := (accepted_iff_clean hdb.indexed).mp hacc
  -- a match that is stored is active, and its players could not be inserted again
  have hfresh : ∀ e ∈ batch, e.matchId ∉ db.matchRows.map MatchRow.id := by
    intro e he hmem
    obtain ⟨row, hrow, hid⟩ := List.mem_map.mp hmem
    obtain ⟨e', he', hown, hrows⟩ := hdb.rows row hrow
    have hid' : e'.matchId = row.id := congrArg MatchRow.id hown
    rw [hended e he row hrow hid, hknown.unique e' e he' (hbatch e he) (hid'.trans hid)] at hrows
    obtain ⟨u, hu⟩ := List.exists_mem_of_ne_nil _ (hknown.manned e (hbatch e he))
    rw [← e.playerRows_users true] at hu
    obtain ⟨r, hr, rfl⟩ := List.mem_map.mp hu
    have hmem' : r ∈ db.rowsOf row.id := by
      rw [hrows]
      exact hr
    refine hclean.free e he r (List.mem_filter.mp hmem').1 (BatchItem.active_of_mem hr).1 ?_
    rw [← e.playerRows_users true]
    exact List.mem_map_of_mem hr
  -- nor is a match in the batch twice
  have hids : (batch.map BatchItem.matchId).Nodup := by
    unfold List.Nodup
    rw [List.pairwise_map]
    refine hclean.apart.imp_of_mem fun {e e'} he he' hapart hid => ?_
    rw [hknown.unique e e' (hbatch e he) (hbatch e' he') hid] at hapart
    obtain ⟨u, hu⟩ := List.exists_mem_of_ne_nil _ (hknown.manned e' (hbatch e' he'))
    exact hapart u hu hu
  have hrowIds : (batch.map (·.matchRow)).map MatchRow.id = batch.map BatchItem.matchId := by
    rw [List.map_map]
    rfl
  have hkeys : ((db.matchRows ++ batch.map (·.matchRow)).map MatchRow.id).Nodup := by
    rw [List.map_append, hrowIds, List.nodup_append]
    refine ⟨hdb.keys, hids, fun a ha b hb hab => ?_⟩
    obtain ⟨e, he, rfl⟩ := List.mem_map.mp hb
    exact hfresh e he (hab ▸ ha)
  have hmatchRows : (stored db batch).matchRows = db.matchRows ++ batch.map (·.matchRow) :=
    Table.insertNew_fresh _ _ hkeys
  have hrowsOf : ∀ id, (stored db batch).rowsOf id
      = db.rowsOf id ++ (batch.flatMap (·.playerRows true)).filter (·.matchId = id) := fun id =>
    List.filter_append ..
  refine ⟨hindexed, by rw [hmatchRows]; exact hkeys, fun row hrow => ?_, fun r hr => ?_⟩
  · rw [hmatchRows] at hrow
    rcases List.mem_append.mp hrow with hrow | hrow
    · obtain ⟨e, he, hid, hrows⟩ := hdb.rows row hrow
      refine ⟨e, he, hid, ?_⟩
      rw [hrowsOf, hrows, List.filter_eq_nil_iff.mpr, List.append_nil]
      intro r hr
      obtain ⟨x, hx, hrx⟩ := List.mem_flatMap.mp hr
      rw [decide_eq_true_iff, (BatchItem.active_of_mem hrx).2]
      exact fun heq => hfresh x hx (heq ▸ List.mem_map_of_mem hrow)
    · obtain ⟨e, he, rfl⟩ := List.mem_map.mp hrow
      refine ⟨e, hbatch e he, rfl, ?_⟩
      have hold : db.rowsOf e.matchId = [] := List.filter_eq_nil_iff.mpr fun r hr hid =>
        hfresh e he (of_decide_eq_true hid ▸ hdb.owned r hr)
      rw [hrowsOf]
      show db.rowsOf e.matchId ++ _ = e.playerRows true
      rw [hold, List.nil_append]
      exact filter_flatMap_playerRows batch hids he
  · rw [hmatchRows, List.map_append, hrowIds]
    rcases List.mem_append.mp hr with hr | hr
    · exact List.mem_append_left _ (hdb.owned r hr)
    · obtain ⟨e, he, hre⟩ := List.mem_flatMap.mp hr
      rw [(BatchItem.active_of_mem hre).2]
      exact List.mem_append_right _ (List.mem_map_of_mem he)

/-! ## The stream, the group and the poller -/

/-- The items of known matches. -/
def itemsOf (known : MatchResult → Prop) (e : BatchItem) : Prop := ∃ r, known r ∧ r.item = e

namespace Writer

/-- What is on the stream, pending or in flight is a known match. -/
structure Holds (s : Writer) (known : MatchResult → Prop) : Prop where
  stream : ∀ x ∈ s.stream.numbered, ∀ r, x.2 = some r → known r
  pending : ∀ x ∈ s.pendingEntries, ∀ r, x.2 = some r → known r
  batch : ∀ x ∈ s.inFlight, known x.2

/-- The tables record known matches only, each as it was inserted. -/
structure Filed (s : Writer) (known : MatchResult → Prop) : Prop extends Holds s known where
  db : s.db.Faithful (itemsOf known)

theorem Filed.mono {s : Writer} {known known' : MatchResult → Prop} (h : s.Filed known)
    (hsub : ∀ r, known r → known' r) : s.Filed known' where
  stream x hx r hr := hsub r (h.stream x hx r hr)
  pending x hx r hr := hsub r (h.pending x hx r hr)
  batch x hx := hsub x.2 (h.batch x hx)
  db := h.db.mono fun _ ⟨r, hr, hitem⟩ => ⟨r, hsub r hr, hitem⟩

/-- No batch is taken that has a match which was ended before. -/
def NoRedelivery (s : Writer) : Event → Prop
  | .poller (.insert pg) =>
    pg = .down ∨ (∀ x ∈ s.inFlight, s.db.Unended x.2.item) ∨ ¬ Accepted s.db (batchOf s.inFlight)
  | _ => True

instance (s : Writer) (e : Event) : Decidable (s.NoRedelivery e) :=
  match e with
  | .poller (.insert pg) =>
    have : Decidable (∀ x ∈ s.inFlight, s.db.Unended x.2.item) := List.decidableBAll _ s.inFlight
    inferInstanceAs (Decidable (pg = .down ∨ (∀ x ∈ s.inFlight, s.db.Unended x.2.item) ∨
      ¬ Accepted s.db (batchOf s.inFlight)))
  | .poller (.ensure _) | .poller (.read _) | .poller (.ack _) | .xadd _ | .crash | .createUser _
  | .endMatch .. => .isTrue trivial

theorem mem_received {link : Link} {es : List (Nat × Option MatchResult)} {x : SyncEntry}
    (h : x ∈ received link es) : (x.1, some x.2) ∈ es := by
  unfold received at h
  split at h
  · exact Log.mem_decoded.mp h
  · cases h

theorem fresh_subset (s : Writer) : s.fresh ⊆ s.stream.numbered := by
  unfold fresh
  cases s.group with
  | none => exact List.nil_subset _
  | some g => exact fun x hx => List.mem_of_mem_drop (List.mem_of_mem_take hx)

/-- A batch that was read. -/
theorem holds_startFlush {s : Writer} {known : MatchResult → Prop} {link : Link}
    {es : List (Nat × Option MatchResult)}
    (hstream : ∀ x ∈ s.stream.numbered, ∀ r, x.2 = some r → known r)
    (hpending : ∀ x ∈ s.pendingEntries, ∀ r, x.2 = some r → known r)
    (hes : ∀ x ∈ es, ∀ r, x.2 = some r → known r) :
    (s.startFlush (received link es)).Holds known := by
  refine ⟨hstream, hpending, fun x hx => ?_⟩
  rw [inFlight_startFlush] at hx
  exact hes _ (mem_received hx) x.2 rfl

/-- The entries pending after the two reads, `ensure` and `XACK`. -/
theorem holds_poller {s t : Writer} {known : MatchResult → Prop} {e : PollerStep}
    (hs : s.Holds known) (hins : ∀ pg, e ≠ .insert pg) (h : s.pollerStep e = some t) :
    t.Holds known ∧ t.db = s.db := by
  cases e with
  | ensure link =>
    simp only [pollerStep] at h
    split at h <;> simp only [Option.some.injEq, reduceCtorEq] at h
    subst h
    refine ⟨⟨hs.stream, fun x hx r hr => ?_, List.forall_mem_nil _⟩, rfl⟩
    refine hs.pending x ?_ r hr
    unfold pendingEntries at hx ⊢
    cases hg : s.group with
    | none =>
      simp only [hg] at hx
      split at hx <;> cases hx
    | some g =>
      simp only [hg] at hx
      split at hx <;> exact hx
  | read link =>
    simp only [pollerStep] at h
    split at h <;> simp only [Option.some.injEq, reduceCtorEq] at h
    · subst h
      refine ⟨holds_startFlush hs.stream hs.pending fun x hx => hs.pending x ?_, rfl⟩
      unfold pendingEntries
      cases hg : s.group with
      | none =>
        rw [hg] at hx
        cases hx
      | some g =>
        rw [hg] at hx
        exact List.mem_of_mem_take hx
    · subst h
      have hfresh : ∀ x ∈ s.fresh, ∀ r, x.2 = some r → known r := fun x hx =>
        hs.stream x (s.fresh_subset hx)
      have hdel : (s.deliver link).stream = s.stream ∧ (s.deliver link).db = s.db := by
        unfold deliver
        split <;> exact ⟨rfl, rfl⟩
      refine ⟨holds_startFlush (s := s.deliver link) (by rw [hdel.1]; exact hs.stream)
        (fun x hx => ?_)
        hfresh, hdel.2⟩
      by_cases hdown : link = .down
      · rw [hdown, deliver_down] at hx
        exact hs.pending x hx
      · rw [pendingEntries_deliver hdown] at hx
        rcases List.mem_append.mp hx with hx | hx
        · exact hs.pending x hx
        · exact hfresh x hx
  | insert pg => exact absurd rfl (hins pg)
  | ack link =>
    simp only [pollerStep] at h
    split at h <;> simp only [Option.some.injEq, reduceCtorEq] at h
    subst h
    refine ⟨⟨hs.stream, fun x hx r hr => hs.pending x ?_ r hr, List.forall_mem_nil _⟩, rfl⟩
    unfold pendingEntries at hx ⊢
    cases hg : s.group with
    | none =>
      simp only [hg] at hx
      cases hx
    | some g =>
      simp only [hg, Option.map_some, Option.getD_some, ackSync] at hx ⊢
      split at hx
      · exact hx
      · exact (g.mem_pending_ack.mp hx).1

/-- **Step**: the rows of the stored matches stay their own. -/
theorem step_filed {s t : Writer} {known : MatchResult → Prop} {e : Event}
    (hknown : Identified (itemsOf known)) (hs : s.Filed known)
    (hxadd : ∀ r, e = .xadd (some r) → known r) (hg : s.NoRedelivery e) (h : s.step e = some t) :
    t.Filed known := by
  cases e with
  | xadd payload =>
    simp only [step, Option.some.injEq] at h
    subst h
    refine ⟨⟨fun x hx r hr => ?_, hs.pending, hs.batch⟩, hs.db⟩
    change x ∈ (s.stream.append payload).numbered at hx
    rw [Log.numbered_append] at hx
    rcases List.mem_append.mp hx with hx | hx
    · exact hs.stream x hx r hr
    · rw [List.mem_singleton.mp hx] at hr
      exact hxadd r (congrArg Event.xadd hr)
  | crash =>
    simp only [step, Option.some.injEq] at h
    subst h
    exact ⟨⟨hs.stream, hs.pending, List.forall_mem_nil _⟩, hs.db⟩
  | createUser rating =>
    simp only [step, Option.some.injEq] at h
    subst h
    exact ⟨⟨hs.stream, hs.pending, hs.batch⟩,
      Pg.run_preserves hs.db (fun _ => createUser_faithful hs.db) .up⟩
  | endMatch matchId pg =>
    simp only [step, Option.some.injEq] at h
    subst h
    exact ⟨⟨hs.stream, hs.pending, hs.batch⟩,
      Pg.run_preserves hs.db (fun _ => endMatch_faithful hs.db) pg⟩
  | poller e =>
    by_cases hins : ∃ pg, e = .insert pg
    · obtain ⟨pg, rfl⟩ := hins
      simp only [step, pollerStep] at h
      split at h
      next batch hpc =>
        have hflight := inFlight_flushing (.inl hpc)
        have hbatch : ∀ x ∈ batch, known x.2 := fun x hx => hs.batch x (hflight ▸ hx)
        have hdb : (pg.run (insertMatchBatch (batchOf batch)) s.db).2.Faithful (itemsOf known) := by
          rcases hg with rfl | hg
          · exact hs.db
          refine Pg.run_preserves (P := fun db => db.Faithful (itemsOf known)) hs.db
            (fun db' hok => ?_) pg
          rcases hg with hnew | hrefused
          · refine insertMatchBatch_faithful hs.db hknown (fun e he => ?_) (fun e he => ?_) hok
            · obtain ⟨x, hx, rfl⟩ := List.mem_map.mp he
              exact ⟨x.2, hbatch x hx, rfl⟩
            · obtain ⟨x, hx, rfl⟩ := List.mem_map.mp he
              exact hnew x (hflight ▸ hx)
          · rw [hflight] at hrefused
            rcases eq_of_insertMatchBatch hok with ⟨_, rfl⟩ | ⟨_, haccepted, _⟩
            · exact hs.db
            · exact absurd haccepted hrefused
        split at h <;> simp only [Option.some.injEq] at h <;> subst h
        next db hrun =>
          rw [hrun] at hdb
          exact ⟨⟨hs.stream, hs.pending, hbatch⟩, hdb⟩
        next err db hrun =>
          rw [hrun] at hdb
          exact ⟨⟨hs.stream, hs.pending, List.forall_mem_nil _⟩, hdb⟩
      next => cases h
    · obtain ⟨hholds, hdb⟩ := holds_poller hs.toHolds (fun pg hpg => hins ⟨pg, hpg⟩) h
      exact ⟨hholds, by rw [hdb]; exact hs.db⟩

end Writer

end Supermatchmaker
