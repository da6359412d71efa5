import Supermatchmaker.Lib.Lts
import Supermatchmaker.Sync.Poller

/-!
# What the poller re-reads

A batch that could not be flushed is "left un-ACKed" and "retried on the next
recovery/read pass". The next read pass does not see it: it asks for entries
that were never delivered. The recovery pass would, but it runs once per process
start, and asks for 500 entries. So an entry that failed stays pending until the
process is restarted (`failed_flush_not_retried`).

`no_acceptable_pending` says when the loop does keep its promise: since the last
start nothing failed (`Smooth`). What carries the proof is that every decodable
pending entry is in the poller's hands (`Held`), from the recovery pass on.
-/

namespace Supermatchmaker

namespace Writer

variable (s : Writer)

/-- The entries delivered to the consumer and not acknowledged. -/
def pendingEntries : List (Nat × Option MatchResult) := (s.group.map (·.pending)).getD []

/-- What the next read of new entries delivers. -/
def fresh : List (Nat × Option MatchResult) := (s.group.map (·.undelivered s.stream 50)).getD []

/-- The batch in `flush_batch`. -/
def inFlight : List SyncEntry :=
  match s.pc with
  | .insert batch => batch
  | .ack batch => batch
  | _ => []

/-- No failure that leaves an entry behind: the recovery pass gets every entry
that was pending, no later read loses its answer on the way, the database takes
every batch, and `XACK` is executed. A crash is none: the next start recovers. -/
def Smooth : Event → Prop
  | .poller (.read link) =>
    (s.pc = .recover → Log.decoded s.pendingEntries = [] ∨
      link = .up ∧ Log.decoded (s.pendingEntries.drop 500) = []) ∧
    (s.pc = .loop → link = .lost → Log.decoded s.fresh = [])
  | .poller (.insert pg) => pg = .up ∧ Accepted s.db (batchOf s.inFlight)
  | .poller (.ack link) => link ≠ .down
  | _ => True

instance (e : Event) : Decidable (s.Smooth e) :=
  match e with
  | .xadd _ => .isTrue trivial
  | .crash => .isTrue trivial
  | .createUser _ => .isTrue trivial
  | .endMatch _ _ => .isTrue trivial
  | .poller (.ensure _) => .isTrue trivial
  | .poller (.read _) => inferInstanceAs (Decidable (_ ∧ _))
  | .poller (.insert _) => inferInstanceAs (Decidable (_ ∧ _))
  | .poller (.ack _) => inferInstanceAs (Decidable (¬ _))

/-- Once the recovery pass is made, the poller has every pending entry in hand. -/
def Held : Prop :=
  s.pc ≠ .off → s.pc ≠ .recover → ∀ e ∈ Log.decoded s.pendingEntries, e ∈ s.inFlight

/-! ## The batch in hand -/

theorem inFlight_loop {s : Writer} (hpc : s.pc = .loop) : s.inFlight = [] := by
  unfold inFlight
  rw [hpc]

theorem inFlight_flushing {s : Writer} {batch : List SyncEntry}
    (hpc : s.pc = .insert batch ∨ s.pc = .ack batch) : s.inFlight = batch := by
  unfold inFlight
  rcases hpc with hpc | hpc <;> rw [hpc]

/-- At the top of the loop nothing is pending. -/
theorem Held.loop {s : Writer} (hs : s.Held) (hpc : s.pc = .loop) :
    Log.decoded s.pendingEntries = [] := by
  have hin := hs (by simp [hpc]) (by simp [hpc])
  rw [inFlight_loop hpc] at hin
  exact List.eq_nil_iff_forall_not_mem.mpr fun e he => List.not_mem_nil (hin e he)

/-- While a batch is flushed it has everything that is pending. -/
theorem Held.flushing {s : Writer} {batch : List SyncEntry} (hs : s.Held)
    (hpc : s.pc = .insert batch ∨ s.pc = .ack batch) :
    ∀ e ∈ Log.decoded s.pendingEntries, e ∈ batch := by
  have hbusy : s.pc ≠ .off ∧ s.pc ≠ .recover := by
    rcases hpc with hpc | hpc <;> simp [hpc]
  have hin := hs hbusy.1 hbusy.2
  rw [inFlight_flushing hpc] at hin
  exact hin

/-! ## The pending entries after each step -/

theorem inFlight_startFlush (batch : List SyncEntry) : (s.startFlush batch).inFlight = batch := by
  unfold startFlush inFlight
  by_cases hb : batch = []
  · simp only [hb, if_true]
  · simp only [hb, if_false]

/-- After the recovery pass. -/
theorem held_recover {s : Writer} {link : Link}
    (h : Log.decoded s.pendingEntries = [] ∨
      link = .up ∧ Log.decoded (s.pendingEntries.drop 500) = []) :
    (s.startFlush (received link ((s.group.map (·.redeliver 500)).getD []))).Held := by
  intro _ _ e he
  rw [inFlight_startFlush]
  rcases h with hnone | ⟨rfl, hrest⟩
  · change e ∈ Log.decoded s.pendingEntries at he
    rw [hnone] at he
    cases he
  · have hread : (s.group.map (·.redeliver 500)).getD [] = s.pendingEntries.take 500 := by
      unfold pendingEntries
      cases s.group with
      | none => rfl
      | some g => rfl
    have hall : Log.decoded s.pendingEntries = Log.decoded (s.pendingEntries.take 500) := by
      calc Log.decoded s.pendingEntries
          = Log.decoded (s.pendingEntries.take 500 ++ s.pendingEntries.drop 500) := by
            rw [List.take_append_drop]
        _ = _ := by rw [Log.decoded_append, hrest, List.append_nil]
    change e ∈ Log.decoded s.pendingEntries at he
    show e ∈ received .up _
    unfold received
    rw [hread, if_pos rfl, ← hall]
    exact he

/-- What was delivered is pending. -/
theorem pendingEntries_deliver {s : Writer} {link : Link} (hlink : link ≠ .down) :
    (s.deliver link).pendingEntries = s.pendingEntries ++ s.fresh := by
  rw [deliver_eq s hlink]
  unfold pendingEntries fresh
  cases s.group with
  | none => rfl
  | some g => rfl

/-- After a read of new entries, by a poller that had nothing pending. -/
theorem held_read {s : Writer} {link : Link} (hnone : Log.decoded s.pendingEntries = [])
    (hlost : link = .lost → Log.decoded s.fresh = []) :
    ((s.deliver link).startFlush (received link s.fresh)).Held := by
  intro _ _ e he
  rw [inFlight_startFlush]
  change e ∈ Log.decoded (s.deliver link).pendingEntries at he
  by_cases hdown : link = .down
  · rw [hdown, deliver_down, hnone] at he
    cases he
  · rw [pendingEntries_deliver hdown, Log.decoded_append, hnone, List.nil_append] at he
    cases link with
    | up => exact he
    | down => exact absurd rfl hdown
    | lost =>
      rw [hlost rfl] at he
      cases he

/-- After the acknowledgement of everything in flight. -/
theorem acked_none {s : Writer} {batch : List SyncEntry} {link : Link} (hlink : link ≠ .down)
    (h : ∀ e ∈ Log.decoded s.pendingEntries, e ∈ batch) :
    Log.decoded (((s.group.map (ackSync link batch)).map (·.pending)).getD []) = [] := by
  rw [List.eq_nil_iff_forall_not_mem]
  rintro ⟨i, m⟩ hmem
  rw [Log.mem_decoded] at hmem
  cases hg : s.group with
  | none =>
    rw [hg] at hmem
    cases hmem
  | some g =>
    rw [hg] at hmem
    change (i, some m) ∈ (ackSync link batch g).pending at hmem
    unfold ackSync at hmem
    rw [if_neg hlink, Consumer.mem_pending_ack] at hmem
    have hin : (i, m) ∈ batch := by
      refine h (i, m) (Log.mem_decoded.mpr ?_)
      unfold pendingEntries
      rw [hg]
      exact hmem.1
    exact hmem.2 (List.mem_map_of_mem hin)

/-! ## The invariant -/

/-- **Step**. -/
theorem step_held {s t : Writer} {e : Event} (hs : s.Held) (hg : s.Smooth e)
    (h : s.step e = some t) : t.Held := by
  cases e with
  | xadd payload =>
    simp only [step, Option.some.injEq] at h
    subst h
    exact hs
  | crash =>
    simp only [step, Option.some.injEq] at h
    subst h
    exact fun hoff => absurd rfl hoff
  | createUser rating =>
    simp only [step, Option.some.injEq] at h
    subst h
    exact hs
  | endMatch matchId pg =>
    simp only [step, Option.some.injEq] at h
    subst h
    exact hs
  | poller e =>
    cases e with
    | ensure link =>
      simp only [step, pollerStep] at h
      split at h <;> simp only [Option.some.injEq, reduceCtorEq] at h
      subst h
      exact fun _ hrec => absurd rfl hrec
    | read link =>
      obtain ⟨hrecover, hloop⟩ := hg
      simp only [step, pollerStep] at h
      split at h <;> simp only [Option.some.injEq, reduceCtorEq] at h
      next hpc =>
        subst h
        exact held_recover (hrecover hpc)
      next hpc =>
        subst h
        exact held_read (Held.loop hs hpc) (hloop hpc)
    | insert pg =>
      obtain ⟨rfl, hacc⟩ := hg
      simp only [step, pollerStep] at h
      split at h
      next batch hpc =>
        have hheld := Held.flushing hs (.inl hpc)
        rw [inFlight_flushing (.inl hpc)] at hacc
        by_cases hne : batchOf batch = []
        · rw [hne] at h
          simp only [Pg.run, Table.transaction, insertMatchBatch, if_true, Option.some.injEq] at h
          subst h
          exact fun _ _ => hheld
        · simp only [Pg.run, Table.transaction, (insertMatchBatch_ok hne).1 hacc,
            Option.some.injEq] at h
          subst h
          exact fun _ _ => hheld
      next => cases h
    | ack link =>
      simp only [step, pollerStep] at h
      split at h
      next batch hpc =>
        simp only [Option.some.injEq] at h
        subst h
        have hheld := Held.flushing hs (.inr hpc)
        intro _ _ e he
        change e ∈ Log.decoded (((s.group.map (ackSync link batch)).map (·.pending)).getD []) at he
        rw [acked_none hg hheld] at he
        cases he
      next => cases h

/-- A read of the loop that finds nothing undelivered. -/
structure EmptyRead (s t : Writer) : Prop where
  pc : s.pc = .loop
  caught_up : ∀ g, s.group = some g → s.stream.after g.delivered = []
  read : s.step (.poller (.read .up)) = some t

/-- No entry that was delivered and that the database would take is un-ACKed. -/
def Retried (t : Writer) : Prop :=
  ∀ e ∈ Log.decoded t.pendingEntries, ¬ Accepted t.db [e.2.item]

/-- **Failed flushes are retried** when nothing failed since the poller was last
started: whatever state the runs before have left, once the loop has caught up
no acceptable entry is pending. -/
theorem no_acceptable_pending {s₀ s t : Writer} (hoff : s₀.pc = .off)
    (h : Lts.Run step Smooth s₀ s) (hread : EmptyRead s t) : Retried t := by
  have hheld : s.Held := h.inv step_held fun hne => absurd hoff hne
  have hsmooth : s.Smooth (.poller (.read .up)) :=
    ⟨fun hrec => absurd (hread.pc.symm.trans hrec) nofun, fun _ hlost => absurd hlost nofun⟩
  have hnext := step_held hheld hsmooth hread.read
  -- nothing was undelivered, so the read changed nothing and nothing is in flight
  have hfresh : s.fresh = [] := by
    unfold fresh
    cases hg : s.group with
    | none => rfl
    | some g =>
      show (s.stream.after g.delivered).take 50 = []
      rw [hread.caught_up g hg]
      rfl
  have hstep := hread.read
  simp only [step, pollerStep, hread.pc, Option.some.injEq] at hstep
  have hpc : t.pc = .loop := by
    rw [← hstep]
    unfold startFlush
    have hempty : received .up ((s.group.map (·.undelivered s.stream 50)).getD []) = [] := by
      show received .up s.fresh = []
      rw [hfresh]
      rfl
    rw [if_pos hempty]
  intro e he
  rw [Held.loop hnext hpc] at he
  cases he

/-- A process that reads the match of the users 1 to 10 while Postgres is down. -/
def failedFlush : List Event :=
  [.poller (.ensure .up), .poller (.read .up), .xadd (some ⟨1,
      [(1, 0), (2, 0), (3, 0), (4, 0), (5, 0)], [(6, 0), (7, 0), (8, 0), (9, 0), (10, 0)], 0⟩),
    .poller (.read .up), .poller (.insert .down)]

/-- Its next start recovers the match. -/
theorem no_acceptable_pending_restarted :
    ∃ s₀ s t, s₀.pendingEntries.length = 1 ∧ Lts.Run step Smooth s₀ s ∧ Retried t ∧
      s.step (.poller (.read .up)) = some t := by
  have hexec : (Lts.exec step (fun _ _ => true) init (failedFlush ++ [.crash])).any (fun s₀ =>
      s₀.pc = .off ∧ s₀.pendingEntries.length = 1 ∧
      (Lts.exec step (fun s e => s.Smooth e) s₀ [.poller (.ensure .up), .poller (.read .up),
        .poller (.insert .up), .poller (.ack .up)]).any (fun s => s.pc = .loop ∧
          (∀ g ∈ s.group, s.stream.after g.delivered = []) ∧
          (s.step (.poller (.read .up))).isSome)) = true := by decide +kernel
  obtain ⟨s₀, _, hs₀⟩ := Lts.exists_run_of_exec hexec
  obtain ⟨hoff, hone, hexec'⟩ := of_decide_eq_true hs₀
  obtain ⟨s, hrun, hs⟩ := Lts.exists_run_of_exec hexec'
  obtain ⟨hpc, hcaught, hsome⟩ := of_decide_eq_true hs
  obtain ⟨t, ht⟩ := Option.isSome_iff_exists.mp hsome
  have hsmooth := hrun.mono (Q := Smooth) of_decide_eq_true
  exact ⟨s₀, s, t, hone, hsmooth, no_acceptable_pending hoff hsmooth ⟨hpc, hcaught, ht⟩, ht⟩

/-- Postgres is back, the loop reads on and finds nothing: the match is still
pending, and the database would take it. -/
theorem failed_flush_not_retried :
    ¬ ∀ s t, Lts.Run step Lts.Free init s → EmptyRead s t → Retried t := by
  intro hclaim
  have hexec : (Lts.exec step (fun _ _ => true) init failedFlush).any (fun s =>
      s.pc = .loop ∧ (∀ g ∈ s.group, s.stream.after g.delivered = []) ∧
      (s.step (.poller (.read .up))).any (fun t : Writer =>
        (Log.decoded t.pendingEntries).any fun e => Accepted t.db [e.2.item]))
        = true := by decide +kernel
  obtain ⟨s, hrun, hs⟩ := Lts.exists_run_of_exec hexec
  obtain ⟨hpc, hcaught, hany⟩ := of_decide_eq_true hs
  obtain ⟨t, ht, hpending⟩ := (Option.any_eq_true _ _).mp hany
  obtain ⟨e, he, hacc⟩ := List.any_eq_true.mp hpending
  exact hclaim s t hrun.free ⟨hpc, hcaught, ht⟩ e he (of_decide_eq_true hacc)

end Writer

end Supermatchmaker
