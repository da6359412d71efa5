import Supermatchmaker.Db.Columns
import Supermatchmaker.Sync.Flush
import Supermatchmaker.Sync.Retry
import Supermatchmaker.Sync.Rows

/-!
# Nothing on the sync stream is lost, nothing in the tables is made up

The poller may die between any two of its steps, lose the answer of any call and
have its batches refused; it may even leave an entry pending for good
(`Sync.Retry`). What it never does is to forget one: an entry that the consumer
group has not delivered yet, or that is pending, stays so until the match and its
ten player rows are in the tables, and from then on they stay there.

The step that matters is `XACK`, which takes entries off the pending list by
their ids. It is sent for the batch that was just inserted (`Writer.Traced`), and
an id of the stream belongs to one entry only.

The other direction has no exception either: a row of the two match tables is a
row of some match that was on the stream (`Writer.Sourced`), redelivered or not.
-/

namespace Supermatchmaker

/-! ## The tables -/

/-- The tables have a row under the match's id, its own or that of an earlier match with this
id, and all its player rows, active or not. -/
structure Db.Keeps (db : Db) (e : BatchItem) : Prop where
  row : db.has e
  players : ∀ r ∈ e.playerRows true, ∃ r' ∈ db.matchPlayers, { r' with active := true } = r

theorem Persisted.keeps {db : Db} {e : BatchItem} (h : Persisted db e) : db.Keeps e where
  row := h.1
  players r hr := ⟨r, h.2 r hr, by
    obtain ⟨hactive, _⟩ := BatchItem.active_of_mem hr
    rw [← hactive]⟩

/-- No call takes a match out of the tables again. -/
theorem step_keeps {db db' : Db} {de : DbEvent} {e : BatchItem} (hk : db.Keeps e)
    (h : db.step de = some db') : db'.Keeps e := by
  cases step_outcome h with
  | signedUp | notSignedUp | refused | notEnded => exact ⟨hk.row, hk.players⟩
  | stored _ _ _ =>
    refine ⟨?_, fun r hr => ?_⟩
    · obtain ⟨m, hm, hid⟩ := List.mem_map.mp hk.row
      exact List.mem_map.mpr ⟨m, Table.subset_insertNew _ hm, hid⟩
    · obtain ⟨r', hr', heq⟩ := hk.players r hr
      exact ⟨r', List.mem_append_left _ hr', heq⟩
  | @ended matchId =>
    refine ⟨?_, fun r hr => ?_⟩
    · unfold Db.has
      rw [ended_ids]
      exact hk.row
    · obtain ⟨r', hr', heq⟩ := hk.players r hr
      refine ⟨leaveRow matchId r', List.mem_map_of_mem hr', ?_⟩
      rw [← heq]
      unfold leaveRow
      split <;> rfl

namespace Writer

/-- What a step does to the tables is a call, or nothing; a batch is the one in flight. -/
theorem step_db {s t : Writer} {e : Event} (h : s.step e = some t) :
    t.db = s.db ∨ ∃ de, s.db.step de = some t.db ∧
      ∀ batch pg, de = .insertMatchBatch batch pg → batch = batchOf s.inFlight := by
  cases e with
  | xadd payload | crash =>
    simp only [step, Option.some.injEq] at h
    subst h
    exact .inl rfl
  | createUser rating =>
    simp only [step, Option.some.injEq] at h
    subst h
    exact .inr ⟨.createUser rating .up, rfl, fun _ _ heq => by cases heq⟩
  | endMatch matchId pg =>
    simp only [step, Option.some.injEq] at h
    subst h
    exact .inr ⟨.endMatch matchId pg, rfl, fun _ _ heq => by cases heq⟩
  | poller e =>
    cases e with
    | insert pg =>
      simp only [step, pollerStep] at h
      split at h
      next batch hpc =>
        refine .inr ⟨.insertMatchBatch (batchOf batch) pg, ?_, fun batch' pg' heq => ?_⟩
        rotate_left
        · rw [inFlight_flushing (.inl hpc)]
          cases heq
          rfl
        split at h <;> simp only [Option.some.injEq] at h <;> subst h
        next db hrun =>
          show some (pg.run _ s.db).2 = some db
          rw [hrun]
        next err db hrun =>
          show some (pg.run _ s.db).2 = some db
          rw [hrun]
      next => cases h
    | ensure link | ack link =>
      simp only [step, pollerStep] at h
      split at h <;> simp only [Option.some.injEq, reduceCtorEq] at h
      subst h
      exact .inl rfl
    | read link =>
      simp only [step, pollerStep] at h
      split at h <;> simp only [Option.some.injEq, reduceCtorEq] at h
      · subst h
        exact .inl rfl
      · subst h
        left
        show (s.deliver link).db = s.db
        unfold deliver
        split <;> rfl

theorem keeps_of_step {s t : Writer} {ev : Event} {e : BatchItem} (h : s.step ev = some t)
    (hk : s.db.Keeps e) : t.db.Keeps e := by
  rcases step_db h with heq | ⟨de, hde, _⟩
  · rw [heq]
    exact hk
  · exact step_keeps hk hde

/-! ## What the poller has in hand -/

/-- The entries pending and in flight are on the stream, and a batch about to be
acknowledged is in the tables. -/
structure Traced (s : Writer) : Prop where
  pending : ∀ x ∈ s.pendingEntries, x ∈ s.stream.numbered
  batch : ∀ x ∈ s.inFlight, (x.1, some x.2) ∈ s.stream.numbered
  acking : ∀ batch, s.pc = .ack batch → ∀ x ∈ batch, s.db.Keeps x.2.item
  delivered_le : ∀ g, s.group = some g → g.delivered ≤ s.stream.lastId
  untrimmed : s.stream.trimmed = 0

theorem init_traced : Traced init where
  pending := nofun
  batch := nofun
  acking := nofun
  delivered_le := nofun
  untrimmed := rfl

/-- A batch that was read. -/
theorem Traced.startFlush {s : Writer} {link : Link} {es : List (Nat × Option MatchResult)}
    (hs : s.Traced) (hes : ∀ x ∈ es, x ∈ s.stream.numbered) :
    (s.startFlush (received link es)).Traced := by
  refine ⟨hs.pending, fun x hx => ?_, fun batch hpc => ?_, hs.delivered_le, hs.untrimmed⟩
  · rw [inFlight_startFlush] at hx
    unfold received at hx
    split at hx
    · exact hes _ (Log.mem_decoded.mp hx)
    · cases hx
  · unfold Writer.startFlush at hpc
    simp only at hpc
    split at hpc <;> cases hpc

theorem delivered_deliver_le (g : SyncGroup) (l : Log (Option MatchResult)) (count : Nat)
    (hle : g.delivered ≤ l.lastId) : (g.deliver l count).delivered ≤ l.lastId := by
  unfold Consumer.deliver
  cases hlast : (g.undelivered l count).getLast? with
  | none =>
    simp only [hlast]
    exact hle
  | some x =>
    simp only [hlast]
    exact (l.lt_of_mem_after (List.mem_of_mem_take (List.mem_of_getLast? hlast))).2

theorem ackSync_delivered (link : Link) (batch : List SyncEntry) (g : SyncGroup) :
    (ackSync link batch g).delivered = g.delivered := by
  unfold ackSync
  split <;> rfl

/-- After a delivery. -/
theorem Traced.deliver {s : Writer} (hs : s.Traced) (link : Link) : (s.deliver link).Traced := by
  by_cases hdown : link = .down
  · rw [hdown, deliver_down]
    exact hs
  · have hpend := pendingEntries_deliver (s := s) hdown
    rw [deliver_eq s hdown] at hpend ⊢
    refine ⟨fun x hx => ?_, hs.batch, hs.acking, fun g hg => ?_, hs.untrimmed⟩
    · rw [hpend] at hx
      rcases List.mem_append.mp hx with hx | hx
      · exact hs.pending x hx
      · exact s.fresh_subset hx
    · obtain ⟨g', hg', rfl⟩ := Option.map_eq_some_iff.mp hg
      exact delivered_deliver_le g' s.stream 50 (hs.delivered_le g' hg')

/-- Nothing in flight. -/
theorem Traced.idle {s t : Writer} (hs : s.Traced) (hstream : t.stream = s.stream)
    (hpending : t.pendingEntries ⊆ s.pendingEntries) (hflight : t.inFlight = [])
    (hpc : ∀ batch, t.pc ≠ .ack batch)
    (hgroup : ∀ g, t.group = some g → g.delivered ≤ s.stream.lastId) : t.Traced := by
  refine ⟨fun x hx => ?_, fun x hx => ?_, fun batch hb => absurd hb (hpc batch), ?_, ?_⟩
  · rw [hstream]
    exact hs.pending x (hpending hx)
  · rw [hflight] at hx
    cases hx
  · rw [hstream]
    exact hgroup
  · rw [hstream]
    exact hs.untrimmed

theorem step_traced {s t : Writer} {e : Event} (hs : s.Traced) (h : s.step e = some t) :
    t.Traced := by
  cases e with
  | xadd payload =>
    simp only [step, Option.some.injEq] at h
    subst h
    have hgrow : s.stream.numbered ⊆ (s.stream.append payload).numbered := by
      rw [Log.numbered_append]
      exact List.subset_append_left _ _
    refine ⟨fun x hx => hgrow (hs.pending x hx), fun x hx => hgrow (hs.batch x hx), hs.acking,
      fun g hg => (hs.delivered_le g hg).trans ?_, hs.untrimmed⟩
    rw [Log.lastId_append]
    exact Nat.le_succ _
  | crash =>
    simp only [step, Option.some.injEq] at h
    subst h
    exact hs.idle rfl (List.Subset.refl _) rfl (fun _ h => by cases h) hs.delivered_le
  | createUser rating | endMatch matchId pg =>
    have hkeep := fun e => keeps_of_step (e := e) h
    simp only [step, Option.some.injEq] at h
    subst h
    exact ⟨hs.pending, hs.batch, fun batch hpc x hx => hkeep _ (hs.acking batch hpc x hx),
      hs.delivered_le, hs.untrimmed⟩
  | poller e =>
    cases e with
    | ensure link =>
      simp only [step, pollerStep] at h
      split at h <;> simp only [Option.some.injEq, reduceCtorEq] at h
      subst h
      cases hg : s.group with
      | none =>
        refine hs.idle rfl (fun x hx => ?_) rfl (fun _ h => by cases h) (fun g hg' => ?_)
        · unfold pendingEntries at hx
          simp only at hx
          split at hx <;> cases hx
        · simp only [Option.none_or] at hg'
          split at hg' <;> cases hg'
          exact Nat.le_refl _
      | some g =>
        refine hs.idle rfl (fun x hx => ?_) rfl (fun _ h => by cases h) (fun g' hg' => ?_)
        · unfold pendingEntries at hx ⊢
          simp only [hg] at hx ⊢
          split at hx <;> exact hx
        · simp only [Option.some_or, ite_self, Option.some.injEq] at hg'
          exact hg' ▸ hs.delivered_le g hg
    | read link =>
      simp only [step, pollerStep] at h
      split at h <;> simp only [Option.some.injEq, reduceCtorEq] at h
      · subst h
        refine hs.startFlush fun x hx => hs.pending x ?_
        unfold pendingEntries
        cases hg : s.group with
        | none =>
          rw [hg] at hx
          cases hx
        | some g =>
          rw [hg] at hx
          exact List.mem_of_mem_take hx
      · subst h
        have hstream : (s.deliver link).stream = s.stream := by
          unfold deliver
          split <;> rfl
        refine (hs.deliver link).startFlush fun x hx => ?_
        rw [hstream]
        exact s.fresh_subset hx
    | insert pg =>
      have hkeep := fun e => keeps_of_step (e := e) h
      simp only [step, pollerStep] at h
      split at h
      next batch hpc =>
        have hflight := inFlight_flushing (.inl hpc)
        split at h <;> simp only [Option.some.injEq] at h <;> subst h
        next db hrun =>
          refine ⟨hs.pending, fun x hx => hs.batch x (hflight ▸ hx), fun batch' hpc' x hx => ?_,
            hs.delivered_le, hs.untrimmed⟩
          obtain rfl : batch = batch' := by
            simp only [PollerPc.ack.injEq] at hpc'
            exact hpc'
          -- only an answered call returns `Ok`
          have hok : insertMatchBatch (batchOf batch) s.db = .ok db := by
            cases pg with
            | up =>
              simp only [Pg.run, Table.transaction] at hrun
              split at hrun <;> cases hrun
              assumption
            | down => cases hrun
            | lost => cases hrun
          have hmem : x.2.item ∈ batchOf batch := List.mem_map_of_mem hx
          rcases eq_of_insertMatchBatch hok with ⟨hnil, _⟩ | ⟨_, _, rfl⟩
          · rw [hnil] at hmem
            cases hmem
          · exact (persisted_stored hmem).keeps
        next err db hrun =>
          exact hs.idle rfl (List.Subset.refl _) rfl (fun _ h => by cases h) hs.delivered_le
      next => cases h
    | ack link =>
      simp only [step, pollerStep] at h
      split at h <;> simp only [Option.some.injEq, reduceCtorEq] at h
      subst h
      refine hs.idle rfl (fun x hx => ?_) rfl (fun _ h => by cases h) (fun g hg => ?_)
      · unfold pendingEntries at hx ⊢
        cases hg : s.group with
        | none =>
          simp only [hg] at hx
          cases hx
        | some g =>
          simp only [hg, Option.map_some, Option.getD_some, ackSync] at hx ⊢
          split at hx
          · exact hx
          · exact (g.mem_pending_ack.mp hx).1
      · obtain ⟨g', hg', rfl⟩ := Option.map_eq_some_iff.mp hg
        rw [ackSync_delivered]
        exact hs.delivered_le g' hg'

/-! ## The entries that are followed -/

/-- Every entry that `follows` is still to be delivered, or pending, or stored. -/
def Accounted (s : Writer) (follows : Nat → MatchResult → Prop) : Prop :=
  ∃ g, s.group = some g ∧ ∀ i m, (i, some m) ∈ s.stream.numbered → follows i m →
    (i, some m) ∈ s.stream.after g.delivered ∨ (i, some m) ∈ g.pending ∨ s.db.Keeps m.item

/-- The group and the stream stay, and the tables keep what they have. -/
theorem Accounted.still {s t : Writer} {follows : Nat → MatchResult → Prop}
    (hA : s.Accounted follows) (hstream : t.stream = s.stream) (hgroup : t.group = s.group)
    (hkeep : ∀ e, s.db.Keeps e → t.db.Keeps e) : t.Accounted follows := by
  obtain ⟨g, hg, hall⟩ := hA
  refine ⟨g, hgroup.trans hg, fun i m hmem hfol => ?_⟩
  rw [hstream] at hmem ⊢
  exact (hall i m hmem hfol).imp_right (Or.imp_right (hkeep _))

/-- **Step**: no entry is forgotten. -/
theorem step_accounted {s t : Writer} {follows : Nat → MatchResult → Prop} {e : Event}
    (hs : s.Traced) (hA : s.Accounted follows) (h : s.step e = some t) : t.Accounted follows := by
  have hkeep := fun e => keeps_of_step (e := e) h
  obtain ⟨g, hg, hall⟩ := id hA
  cases e with
  | xadd payload =>
    simp only [step, Option.some.injEq] at h
    subst h
    have hafter := s.stream.after_append (hs.delivered_le g hg) payload
    refine ⟨g, hg, fun i m hmem hfol => ?_⟩
    rw [Log.numbered_append] at hmem
    show _ ∈ (s.stream.append payload).after g.delivered ∨ _
    rw [hafter]
    rcases List.mem_append.mp hmem with hmem | hmem
    · exact (hall i m hmem hfol).imp_left fun hold => List.mem_append_left _ hold
    · exact Or.inl (List.mem_append_right _ hmem)
  | crash | createUser rating | endMatch matchId pg =>
    simp only [step, Option.some.injEq] at h
    subst h
    exact hA.still rfl rfl hkeep
  | poller e =>
    cases e with
    | ensure link =>
      simp only [step, pollerStep] at h
      split at h <;> simp only [Option.some.injEq, reduceCtorEq] at h
      subst h
      -- the group is there already: `BUSYGROUP`
      refine hA.still rfl ?_ hkeep
      rw [hg]
      exact ite_self _
    | read link =>
      simp only [step, pollerStep] at h
      split at h <;> simp only [Option.some.injEq, reduceCtorEq] at h
      · subst h
        exact hA.still rfl rfl hkeep
      · subst h
        by_cases hdown : link = .down
        · rw [hdown, deliver_down]
          exact hA.still rfl rfl fun _ hk => hk
        · rw [deliver_eq s hdown]
          refine ⟨g.deliver s.stream 50, congrArg (Option.map _) hg, fun i m hmem hfol => ?_⟩
          rcases hall i m hmem hfol with hahead | hpending | hk
          · rcases g.mem_after_deliver s.stream 50 hahead with hnow | hlater
            · exact Or.inr (Or.inl (List.mem_append_right _ hnow))
            · exact Or.inl hlater
          · exact Or.inr (Or.inl (List.mem_append_left _ hpending))
          · exact Or.inr (Or.inr hk)
    | insert pg =>
      simp only [step, pollerStep] at h
      split at h
      · split at h <;> simp only [Option.some.injEq] at h <;> subst h <;>
          exact hA.still rfl rfl hkeep
      · cases h
    | ack link =>
      simp only [step, pollerStep] at h
      split at h
      next batch hpc =>
        simp only [Option.some.injEq] at h
        subst h
        refine ⟨ackSync link batch g, congrArg (Option.map _) hg, fun i m hmem hfol => ?_⟩
        rw [ackSync_delivered]
        rcases hall i m hmem hfol with hahead | hpending | hk
        · exact Or.inl hahead
        · right
          unfold ackSync
          split
          · exact Or.inl hpending
          · by_cases hin : i ∈ batch.map Prod.fst
            · -- the entry of an acknowledged id is the one that was inserted
              obtain ⟨x, hx, rfl⟩ := List.mem_map.mp hin
              have hflight := inFlight_flushing (.inr hpc)
              have hsame := s.stream.numbered_inj hmem (hs.batch x (hflight ▸ hx))
              rw [Option.some.inj hsame]
              exact Or.inr (hs.acking batch hpc x hx)
            · exact Or.inl (g.mem_pending_ack.mpr ⟨hpending, hin⟩)
        · exact Or.inr (Or.inr hk)
      next => cases h

/-- **Run**: from a state in which the group exists, what is ahead of the group or pending
there is ahead, pending or stored ever after, whatever crashes and fails. -/
theorem run_accounted {s₀ s : Writer} {g₀ : SyncGroup} (hs₀ : s₀.Traced)
    (hg : s₀.group = some g₀) (h : Lts.Run step Lts.Free s₀ s) :
    s.Accounted fun i m => g₀.delivered < i ∨ (i, some m) ∈ g₀.pending := by
  have hstart : s₀.Accounted fun i m => g₀.delivered < i ∨ (i, some m) ∈ g₀.pending := by
    refine ⟨g₀, hg, fun i m hmem hfol => ?_⟩
    rcases hfol with hlt | hpending
    · refine Or.inl (s₀.stream.mem_after hmem hlt ?_)
      rw [hs₀.untrimmed]
      exact Nat.zero_le _
    · exact Or.inr (Or.inl hpending)
  have hrun := h.inv
    (I := fun s => s.Traced ∧ s.Accounted fun i m => g₀.delivered < i ∨ (i, some m) ∈ g₀.pending)
    (fun hI _ hs => ⟨step_traced hI.1 hs, step_accounted hI.1 hI.2 hs⟩) ⟨hs₀, hstart⟩
  exact hrun.2

end Writer

/-! ## The rows and their matches -/

/-- Every row of the two match tables was inserted for a known match. -/
structure Db.Sourced (db : Db) (known : MatchResult → Prop) : Prop where
  rows : ∀ row ∈ db.matchRows, ∃ r, known r ∧ { row with status := .active } = r.item.matchRow
  players : ∀ row ∈ db.matchPlayers, ∃ r, known r ∧
    { row with active := true } ∈ r.item.playerRows true

theorem Db.Sourced.mono {db : Db} {known known' : MatchResult → Prop} (h : db.Sourced known)
    (hsub : ∀ r, known r → known' r) : db.Sourced known' where
  rows row hrow := (h.rows row hrow).imp fun r hr => ⟨hsub r hr.1, hr.2⟩
  players row hrow := (h.players row hrow).imp fun r hr => ⟨hsub r hr.1, hr.2⟩

theorem stored_sourced {db : Db} {known : MatchResult → Prop} {batch : List BatchItem}
    (hdb : db.Sourced known) (hbatch : ∀ e ∈ batch, itemsOf known e) :
    (stored db batch).Sourced known := by
  refine ⟨fun row hrow => ?_, fun row hrow => ?_⟩
  · rcases Table.mem_insertNew _ hrow with hold | hnew
    · exact hdb.rows row hold
    · obtain ⟨e, he, rfl⟩ := List.mem_map.mp hnew
      obtain ⟨r, hr, rfl⟩ := hbatch e he
      exact ⟨r, hr, rfl⟩
  · rcases List.mem_append.mp hrow with hold | hnew
    · exact hdb.players row hold
    · obtain ⟨e, he, hmem⟩ := List.mem_flatMap.mp hnew
      obtain ⟨r, hr, rfl⟩ := hbatch e he
      have hactive : { row with active := true } = row := by
        rw [← (BatchItem.active_of_mem hmem).1]
      exact ⟨r, hr, hactive ▸ hmem⟩

/-- **Step** of the tables: a batch of known matches keeps them sourced. -/
theorem step_sourced {db db' : Db} {known : MatchResult → Prop} {de : DbEvent}
    (hdb : db.Sourced known)
    (hbatch : ∀ batch pg, de = .insertMatchBatch batch pg → ∀ e ∈ batch, itemsOf known e)
    (h : db.step de = some db') : db'.Sourced known := by
  cases step_outcome h with
  | signedUp | notSignedUp | refused | notEnded => exact ⟨hdb.rows, hdb.players⟩
  | stored _ _ _ => exact stored_sourced hdb (hbatch _ _ rfl)
  | @ended matchId =>
    refine ⟨fun row hrow => ?_, fun row hrow => ?_⟩
    · obtain ⟨old, hold, rfl⟩ := List.mem_map.mp hrow
      rw [endRow_active]
      exact hdb.rows old hold
    · obtain ⟨old, hold, rfl⟩ := List.mem_map.mp hrow
      obtain ⟨r, hr, hmem⟩ := hdb.players old hold
      refine ⟨r, hr, ?_⟩
      unfold leaveRow
      split <;> exact hmem

namespace Writer

/-- What is on the stream, pending, in flight or in the tables comes from known
matches. -/
structure Sourced (s : Writer) (known : MatchResult → Prop) : Prop extends Holds s known where
  db : s.db.Sourced known

theorem Sourced.mono {s : Writer} {known known' : MatchResult → Prop} (h : s.Sourced known)
    (hsub : ∀ r, known r → known' r) : s.Sourced known' where
  stream x hx r hr := hsub r (h.stream x hx r hr)
  pending x hx r hr := hsub r (h.pending x hx r hr)
  batch x hx := hsub x.2 (h.batch x hx)
  db := h.db.mono hsub

theorem init_sourced (known : MatchResult → Prop) : init.Sourced known :=
  ⟨⟨nofun, nofun, nofun⟩, ⟨nofun, nofun⟩⟩

/-- **Step**: what is appended to the stream is known, so everything is. -/
theorem step_sourced {s t : Writer} {known : MatchResult → Prop} {e : Event} (hs : s.Sourced known)
    (hxadd : ∀ r, e = .xadd (some r) → known r) (h : s.step e = some t) : t.Sourced known := by
  have hdb : t.db.Sourced known := by
    rcases step_db h with heq | ⟨de, hde, hbatch⟩
    · rw [heq]
      exact hs.db
    · refine Supermatchmaker.step_sourced hs.db (fun batch pg heq e he => ?_) hde
      rw [hbatch batch pg heq] at he
      obtain ⟨x, hx, rfl⟩ := List.mem_map.mp he
      exact ⟨x.2, hs.batch x hx, rfl⟩
  refine ⟨?_, hdb⟩
  cases e with
  | xadd payload =>
    simp only [step, Option.some.injEq] at h
    subst h
    refine ⟨fun x hx r hr => ?_, hs.pending, hs.batch⟩
    change x ∈ (s.stream.append payload).numbered at hx
    rw [Log.numbered_append] at hx
    rcases List.mem_append.mp hx with hx | hx
    · exact hs.stream x hx r hr
    · rw [List.mem_singleton.mp hx] at hr
      exact hxadd r (congrArg Event.xadd hr)
  | crash =>
    simp only [step, Option.some.injEq] at h
    subst h
    exact ⟨hs.stream, hs.pending, List.forall_mem_nil _⟩
  | createUser rating | endMatch matchId pg =>
    simp only [step, Option.some.injEq] at h
    subst h
    exact ⟨hs.stream, hs.pending, hs.batch⟩
  | poller e =>
    by_cases hins : ∃ pg, e = .insert pg
    · obtain ⟨pg, rfl⟩ := hins
      simp only [step, pollerStep] at h
      split at h
      next batch hpc =>
        have hflight := inFlight_flushing (.inl hpc)
        split at h <;> simp only [Option.some.injEq] at h <;> subst h
        next db hrun =>
          exact ⟨hs.stream, hs.pending, fun x hx => hs.batch x (hflight ▸ hx)⟩
        next err db hrun =>
          exact ⟨hs.stream, hs.pending, List.forall_mem_nil _⟩
      next => cases h
    · exact (holds_poller hs.toHolds (fun pg hpg => hins ⟨pg, hpg⟩) h).1

end Writer

end Supermatchmaker
