import Supermatchmaker.Lib.Lts
import Supermatchmaker.Service.Engaged

/-!
# What a restart brings back

A process boots with the players of the newest snapshot and replays the ingest
stream behind the snapshot's cursor. The comment in the snapshotter calls it
harmless that a replay may re-add a player.

It is not: whoever was matched since the capture comes back as a waiting player
(`matched_resurrected`), and so does, twice, whoever was placed by a batch that
was in progress. Nobody does when the newest snapshot is up to date with the
matches published and was not taken in the middle of a batch
(`Snapshot.Current`): `no_resurrection`.

The invariant has two parts. `Distinct` is about the process: no event is behind
two entries, and none behind a published match is pending. `Snapshot.Faithful` is
about each snapshot: its players are distinct, and none is in a match it knows.
-/

namespace Supermatchmaker

variable {cfg : Config}

/-- What the process has of an event: at most one entry, or the event itself on
its way, and neither if the player is in a published match. -/
structure World.NoResurrection (s : World cfg) : Prop where
  once : (s.pendingKeys .origin).Nodup
  gone : ∀ f ∈ s.published, ∀ p ∈ f.group.toList, p.origin ∉ s.pendingKeys .origin

/-- The snapshot was not taken in the middle of a batch, and the published matches
lie before its cursor and were known when its capture began, or were missed by
it. -/
structure Snapshot.Current (snap : Snapshot) (published : List (Formed Nat)) : Prop where
  placed : ∀ cur ∈ snap.lastStreamId, ∀ p ∈ snap.players, p.origin ≤ cur
  covered : ∀ cur ∈ snap.lastStreamId, ∀ f ∈ published, ∀ p ∈ f.group.toList, p.origin ≤ cur
  known : ∀ f ∈ published.drop snap.mark, f ∈ snap.known ∨
    ∀ p ∈ f.group.toList, ∀ q ∈ snap.players, q.origin ≠ p.origin

instance (snap : Snapshot) (published : List (Formed Nat)) : Decidable (snap.Current published) :=
  decidable_of_iff
    ((∀ cur ∈ snap.lastStreamId, ∀ p ∈ snap.players, p.origin ≤ cur) ∧
      (∀ cur ∈ snap.lastStreamId, ∀ f ∈ published, ∀ p ∈ f.group.toList, p.origin ≤ cur) ∧
      ∀ f ∈ published.drop snap.mark, f ∈ snap.known ∨
        ∀ p ∈ f.group.toList, ∀ q ∈ snap.players, q.origin ≠ p.origin)
    ⟨fun h => ⟨h.1, h.2.1, h.2.2⟩, fun h => ⟨h.placed, h.covered, h.known⟩⟩

/-- A process only boots with a current snapshot. -/
def World.UpToDate (s : World cfg) : WorldEvent cfg → Prop
  | .restart => ∀ snap ∈ s.disk.head?, snap.Current s.published
  | _ => True

instance (s : World cfg) (e : WorldEvent cfg) : Decidable (s.UpToDate e) :=
  match e with
  | .restart => Option.decidableForallMem s.disk.head?
  | .call .. | .signup _ | .request _ | .ingest _ | .worker .. | .retry _ | .snapshot _ | .poller _
  | .endMatch .. | .expireStatus _ | .expirePlayer _ | .tick _ => .isTrue trivial

/-! ## The invariant -/

/-- No event is engaged twice, and none behind a published match is pending. -/
structure Distinct (c : Core cfg) : Prop where
  engaged : (c.engaged .origin []).Nodup
  gone : ∀ f ∈ c.published, ∀ p ∈ f.group.toList, p.origin ∉ c.pendingKeys .origin

/-- The players of a snapshot are distinct, and none is in a match that was known
when the capture began. -/
structure Snapshot.Faithful (snap : Snapshot) (published : List (Formed Nat)) : Prop where
  nodup : (snap.players.map Player.origin).Nodup
  apart : ∀ f ∈ snap.known, ∀ p ∈ f.group.toList, p.origin ∉ snap.players.map Player.origin
  mark_le : snap.mark ≤ published.length
  marked : ∀ f ∈ published.take snap.mark, f ∈ snap.known

/-- A capture in progress has players of the buckets already copied, and knows
matches of this process or published ones. -/
structure Underway (c : Core cfg) (next : Nat) (snap : Snapshot) : Prop where
  copied : ∀ p ∈ snap.players, p ∈ c.mem.enqueued ∧ (bucketIndex cfg p.rating).val < next
  known : ∀ f ∈ snap.known, f ∈ c.published ∨ f ∈ c.mem.formed

/-- The invariant: no event is engaged twice, the snapshots on disk are `Faithful`, and the one
in the making is `Underway`. -/
structure World.Recoverable (s : World cfg) : Prop where
  sound : Sound s.toCore
  distinct : Distinct s.toCore
  snaps : ∀ snap ∈ s.snapshots, snap.Faithful s.published
  progress : ∀ next snap, s.snap = .copying next snap → Underway s.toCore next snap

/-- An event is behind one entry of the process. -/
theorem Distinct.origin_inj {c : Core cfg} (hD : Distinct c) (hI : Inv c.mem) {p q : Player Nat}
    (hp : p ∈ c.mem.enqueued) (hq : q ∈ c.mem.enqueued) (h : p.origin = q.origin) : p = q := by
  have hnodup := hD.engaged
  rw [engaged_nil .origin hI] at hnodup
  have hentries := Multiset.coe_nodup.mp (Multiset.nodup_of_le (Multiset.le_add_left _ _) hnodup)
  exact List.inj_on_of_nodup_map hentries hp hq h

theorem mem_waitingKeys {c : Core cfg} {p : Player Nat} (hp : p ∈ waiting c.mem) :
    p.origin ∈ c.waitingKeys .origin :=
  Multiset.mem_map_of_mem Player.origin hp

/-- **Step**, within the life of a process. -/
theorem Effect.distinct {s : World cfg} {e : WorldEvent cfg} {c : Core cfg} (hS : Sound s.toCore)
    (hD : Distinct s.toCore) (h : Effect s e c) (hboot : e ≠ .restart) : Distinct c := by
  -- the id of a new event is greater than all there are
  have hfresh : ∀ i, i ∈ s.engaged .origin [] → i ≤ s.ingest.stream.lastId := by
    intro i hi
    rw [engaged_nil .origin hS.inv] at hi
    rcases Multiset.mem_add.mp hi with hi | hi
    · obtain ⟨x, hx, rfl⟩ := List.mem_map.mp (Multiset.mem_coe.mp hi)
      exact hS.thread.ahead_le x hx
    · obtain ⟨p, hp, rfl⟩ := List.mem_map.mp (Multiset.mem_coe.mp hi)
      exact hS.enqueued_le p hp
  refine ⟨?_, fun f hf p hp hmem => ?_⟩
  · have hout : ∀ n ∈ ([] : List Nat), n < s.mem.drawn := nofun
    rcases h.engaged hS hboot .origin hout with hle | ⟨ev, _, hle⟩
    · exact Multiset.nodup_of_le hle hD.engaged
    · refine Multiset.nodup_of_le hle (Multiset.nodup_add.mpr
        ⟨hD.engaged, Multiset.nodup_singleton _, Multiset.disjoint_singleton.mpr fun hmem => ?_⟩)
      have := hfresh _ hmem
      exact absurd this (Nat.not_succ_le_self _)
  · -- what is pending now was pending, or is the event just appended
    have hwas : p.origin ∈ s.pendingKeys .origin ∨ p.origin = s.ingest.stream.lastId + 1 := by
      rcases h.pending hS hboot .origin with hle | ⟨ev, _, hle⟩
      · exact .inl (Multiset.mem_of_le hle hmem)
      · rcases Multiset.mem_add.mp (Multiset.mem_of_le hle hmem) with hold | hnew
        · exact .inl hold
        · exact .inr (Multiset.mem_singleton.mp hnew)
    rcases h.published f hf with hold | hformed
    · rcases hwas with hpending | hnew
      · exact hD.gone f hold p hp hpending
      · have := hS.published_le f hold p hp
        omega
    · rcases hwas with hpending | hnew
      · have hmatched : p.origin ∈ s.matchedKeys .origin [] := by
          rw [matchedKeys_nil]
          exact Multiset.mem_map_of_mem Player.origin (mem_inMatches.mpr ⟨f, hformed, hp⟩)
        have hdisj := (Multiset.nodup_add.mp hD.engaged).2.2
        exact Multiset.disjoint_left.mp hdisj hpending hmatched
      · have := hS.matched_le hformed hp
        omega

/-- The published matches only grow, at the end. -/
theorem Effect.published_prefix {s : World cfg} {e : WorldEvent cfg} {c : Core cfg}
    (h : Effect s e c) : s.published <+: c.published := by
  cases h with
  | publish _ _ _ => exact List.prefix_append _ _
  | _ => exact List.prefix_refl _

/-- More matches are published, and the snapshot stays as faithful. -/
theorem Snapshot.Faithful.mono {snap : Snapshot} {fs fs' : List (Formed Nat)} (h : snap.Faithful fs)
    (hpre : fs <+: fs') : snap.Faithful fs' := by
  obtain ⟨more, rfl⟩ := hpre
  refine ⟨h.nodup, h.apart, ?_, ?_⟩
  · rw [List.length_append]
    exact Nat.le_add_right_of_le h.mark_le
  · rw [List.take_append_of_le_length h.mark_le]
    exact h.marked

theorem captureStart_faithful (s : World cfg) : s.captureStart.Faithful s.published where
  nodup := List.nodup_nil
  apart _ _ _ _ := List.not_mem_nil
  mark_le := Nat.le_refl _
  marked _ hf := List.mem_append_left _ (List.mem_of_mem_take hf)

/-- One more bucket: its players are new to the snapshot and in no known match. -/
theorem add_faithful {s : World cfg} (hR : s.Recoverable) {next : Nat} {snap : Snapshot}
    (hpc : s.snap = .copying next snap) (hlt : next < cfg.numBuckets) :
    (snap.add (s.mem.buckets ⟨next, hlt⟩)).Faithful s.published := by
  have hI := hR.sound.inv
  have hold := hR.snaps snap (mem_snapshots_of_copying hpc)
  have hway := hR.progress next snap hpc
  have hwaits : ∀ q ∈ s.mem.buckets ⟨next, hlt⟩, q ∈ waiting s.mem := fun q hq =>
    mem_waiting_of_bucket hq
  refine ⟨?_, fun f hf p hp hmem => ?_, hold.mark_le, hold.marked⟩
  · show ((snap.players ++ s.mem.buckets ⟨next, hlt⟩).map Player.origin).Nodup
    rw [List.map_append, List.nodup_append]
    refine ⟨hold.nodup, ?_, fun i hi j hj hij => ?_⟩
    · refine (hI.content_nodup (.inl ⟨next, hlt⟩)).map_on fun x hx y hy hxy => ?_
      exact hR.distinct.origin_inj hI (hI.mem_of_waiting (hwaits x hx))
        (hI.mem_of_waiting (hwaits y hy)) hxy
    · -- the same event in an earlier bucket would be the same entry, at home twice
      obtain ⟨x, hx, rfl⟩ := List.mem_map.mp hi
      obtain ⟨y, hy, rfl⟩ := List.mem_map.mp hj
      obtain ⟨hxin, hxhome⟩ := hway.copied x hx
      have hxy := hR.distinct.origin_inj hI hxin (hI.mem_of_waiting (hwaits y hy)) hij
      have hyhome := hI.homed ⟨next, hlt⟩ y hy
      rw [hxy, hyhome] at hxhome
      exact Nat.lt_irrefl _ hxhome
  · change p.origin ∈ (snap.players ++ s.mem.buckets ⟨next, hlt⟩).map Player.origin at hmem
    rw [List.map_append] at hmem
    rcases List.mem_append.mp hmem with hmem | hmem
    · exact hold.apart f hf p hp hmem
    · obtain ⟨q, hq, hsame⟩ := List.mem_map.mp hmem
      rcases hway.known f hf with hpub | hformed
      · refine hR.distinct.gone f hpub p hp (Multiset.mem_add.mpr (.inr ?_))
        rw [← hsame]
        exact mem_waitingKeys (hwaits q hq)
      · have hpq := hR.distinct.origin_inj hI (hI.mem_of_waiting (hwaits q hq))
          (hI.mem_of_matched hformed hp) hsame
        rw [hpq] at hq
        exact hI.not_matched (hwaits p hq) hformed hp

/-- **Every effect** leaves the snapshots faithful. -/
theorem Effect.faithful {s : World cfg} {e : WorldEvent cfg} {c : Core cfg} (hR : s.Recoverable)
    (h : Effect s e c) : ∀ snap ∈ c.snapshots, snap.Faithful c.published := by
  intro snap hsnap
  refine Snapshot.Faithful.mono ?_ h.published_prefix
  rcases h.snapshots snap hsnap with hold | rfl | ⟨next, old, hlt, hpc, rfl⟩
  · exact hR.snaps snap hold
  · exact captureStart_faithful s
  · exact add_faithful hR hpc hlt

/-- Entries and matches of a process stay. -/
theorem Effect.grown {s : World cfg} {e : WorldEvent cfg} {c : Core cfg} (hS : Sound s.toCore)
    (h : Effect s e c) (hboot : e ≠ .restart) :
    s.mem.enqueued ⊆ c.mem.enqueued ∧ s.mem.formed ⊆ c.mem.formed := by
  have hmem : ∀ {me mem}, Drives e me → s.mem.step me = some mem →
      s.mem.enqueued ⊆ mem.enqueued ∧ s.mem.formed ⊆ mem.formed := by
    intro me mem hd hstep
    rw [(step_enqueued hS.inv hd.ne_enqueue hstep).1]
    exact ⟨List.Subset.refl _, step_formed_subset hS.inv hstep⟩
  cases h with
  | process hd hstep => exact hmem hd hstep
  | publish hd hstep => exact hmem hd hstep
  | @ingest _ _ call hstep =>
    refine ⟨?_, by rw [apply_formed]; exact List.Subset.refl _⟩
    show s.mem.enqueued ⊆ (s.mem.apply call).enqueued
    rcases apply_entries s.mem (Ingest.threadStep_advance hS.thread hstep) with
      ⟨he, _⟩ | ⟨_, _, _, _, he, _⟩ <;> rw [he]
    · exact List.Subset.refl _
    · exact List.subset_append_left _ _
  | restart => exact absurd rfl hboot
  | _ => exact ⟨List.Subset.refl _, List.Subset.refl _⟩

/-- A capture in progress takes entries of buckets already passed. -/
theorem Effect.underway {s : World cfg} {e : WorldEvent cfg} {c : Core cfg} (hR : s.Recoverable)
    (h : Effect s e c) (hboot : e ≠ .restart) {next : Nat} {snap : Snapshot}
    (hpc : c.snap = .copying next snap) : Underway c next snap := by
  obtain ⟨hentries, hformed⟩ := h.grown hR.sound hboot
  have hpub := h.published_prefix.subset
  -- a step outside the snapshotter leaves the capture where it is
  have hold : s.snap = .copying next snap → Underway c next snap := by
    intro hsame
    have hway := hR.progress next snap hsame
    refine ⟨fun p hp => ⟨hentries (hway.copied p hp).1, (hway.copied p hp).2⟩, fun f hf => ?_⟩
    exact (hway.known f hf).imp (@hpub f) (@hformed f)
  cases h with
  | begin _ =>
    obtain ⟨rfl, rfl⟩ : 0 = next ∧ s.captureStart = snap := by
      rw [← SnapPc.copying.injEq]
      exact hpc
    exact ⟨nofun, fun f hf => List.mem_append.mp hf⟩
  | @copy i old hcopy hlt =>
    obtain ⟨rfl, rfl⟩ : i + 1 = next ∧ old.add (s.mem.buckets ⟨i, hlt⟩) = snap := by
      rw [← SnapPc.copying.injEq]
      exact hpc
    have hway := hR.progress i old hcopy
    refine ⟨fun p hp => ?_, hway.known⟩
    rcases List.mem_append.mp hp with hp | hp
    · exact ⟨(hway.copied p hp).1, Nat.lt_succ_of_lt (hway.copied p hp).2⟩
    · refine ⟨hR.sound.inv.mem_of_waiting (mem_waiting_of_bucket hp), ?_⟩
      rw [hR.sound.inv.homed ⟨i, hlt⟩ p hp]
      exact Nat.lt_succ_self i
  | finish => cases hpc
  | written => cases hpc
  | trimmed => cases hpc
  | restart => exact absurd rfl hboot
  | _ => exact hold hpc

/-! ## The restart -/

/-- What a process boots with: the events behind the cursor, and the players of
the snapshot. -/
theorem restart_engaged (s : World cfg) :
    s.restart.engaged .origin [] = s.restart.aheadKeys .origin
      + (s.recovered.1.map Player.origin : Multiset Nat) := by
  have hboot := restart_restored s
  rw [engaged_nil .origin hboot.inv]
  congr 2
  exact hboot.origins

/-- **Restart** from a current snapshot. -/
theorem restart_distinct {s : World cfg} (hR : s.Recoverable) (hg : s.UpToDate .restart) :
    Distinct s.restart.toCore := by
  have hboot := restart_restored s
  -- nothing is matched yet: what is pending is all there is
  have hpending : s.restart.pendingKeys .origin ≤ s.restart.engaged .origin [] :=
    Multiset.le_add_right _ _
  rcases recovered_cases s with ⟨_, hrec⟩ | ⟨snap, rest, hdisk, hrec⟩
  · have hnone : s.restart.engaged .origin [] = 0 := by
      rw [restart_engaged, hrec]
      have hahead : s.restart.ingest.ahead = [] :=
        Ingest.ahead_none (s := s.restart.ingest) (congrArg Prod.snd hrec)
      unfold Core.aheadKeys
      rw [hahead]
      rfl
    refine ⟨by rw [hnone]; exact Multiset.nodup_zero, fun f hf p hp hmem => ?_⟩
    have := Multiset.mem_of_le hpending hmem
    rw [hnone] at this
    exact Multiset.notMem_zero _ this
  · have hcurrent : snap.Current s.published := hg snap (by rw [hdisk]; rfl)
    have hfaithful := hR.snaps snap (List.mem_append_right _
      (by rw [hdisk]; exact List.mem_cons_self))
    have hahead : ∀ i ∈ s.restart.aheadKeys .origin, ∃ cur ∈ snap.lastStreamId, cur < i := by
      intro i hi
      obtain ⟨x, hx, rfl⟩ := List.mem_map.mp (Multiset.mem_coe.mp hi)
      rcases Option.eq_none_or_eq_some snap.lastStreamId with hcur | ⟨cur, hcur⟩
      · have hpos : s.restart.ingest.position = none := (congrArg Prod.snd hrec).trans hcur
        rw [Ingest.ahead_none hpos] at hx
        cases hx
      · have hpos : s.restart.ingest.position = some cur := (congrArg Prod.snd hrec).trans hcur
        rw [Ingest.ahead_eq hpos] at hx
        exact ⟨cur, hcur, (Log.lt_of_mem_after _ (Log.mem_decoded.mp hx)).1⟩
    have hsorted : (s.restart.aheadKeys .origin).Nodup := by
      have hS := (Effect.restart (s := s)).sound hR.sound
      exact Multiset.coe_nodup.mpr (hS.thread.sorted.imp Nat.ne_of_lt)
    rw [hrec] at hboot
    refine ⟨?_, fun f hf p hp hmem => ?_⟩
    · rw [restart_engaged, hrec]
      refine Multiset.nodup_add.mpr ⟨hsorted, Multiset.coe_nodup.mpr hfaithful.nodup, ?_⟩
      refine Multiset.disjoint_left.mpr fun {i} hi hmem => ?_
      obtain ⟨cur, hcur, hlt⟩ := hahead i hi
      obtain ⟨p, hp, rfl⟩ := List.mem_map.mp (Multiset.mem_coe.mp hmem)
      have := hcurrent.placed cur hcur p hp
      omega
    · have hin := Multiset.mem_of_le hpending hmem
      rw [restart_engaged, hrec] at hin
      rcases Multiset.mem_add.mp hin with hin | hin
      · obtain ⟨cur, hcur, hlt⟩ := hahead _ hin
        have := hcurrent.covered cur hcur f hf p hp
        omega
      · -- the match was known to the capture, or missed by it
        have hf' : f ∈ s.published.take snap.mark ++ s.published.drop snap.mark := by
          rw [List.take_append_drop]
          exact hf
        rcases List.mem_append.mp hf' with hold | hnew
        · exact hfaithful.apart f (hfaithful.marked f hold) p hp hin
        · rcases hcurrent.known f hnew with hknown | hmissed
          · exact hfaithful.apart f hknown p hp hin
          · obtain ⟨q, hq, hsame⟩ := List.mem_map.mp (Multiset.mem_coe.mp hin)
            exact hmissed p hp q hq hsame

theorem init_recoverable : (World.init cfg).Recoverable where
  sound := init_sound
  distinct := by
    refine ⟨?_, nofun⟩
    rw [init_engaged]
    exact Multiset.nodup_zero
  snaps := nofun
  progress := nofun

/-- **Step**. -/
theorem step_recoverable {s s' : World cfg} {e : WorldEvent cfg} (hR : s.Recoverable)
    (hg : s.UpToDate e) (h : s.step e = some s') : s'.Recoverable := by
  have heff := step_effect hR.sound.founded h
  by_cases hboot : e = .restart
  · subst hboot
    simp only [World.step, Option.some.injEq] at h
    subst h
    exact ⟨heff.sound hR.sound, restart_distinct hR hg, heff.faithful hR,
      fun next snap hpc => by cases hpc⟩
  · exact ⟨heff.sound hR.sound, heff.distinct hR.sound hR.distinct hboot, heff.faithful hR,
      fun next snap hpc => heff.underway hR hboot hpc⟩

/-- **Recovery neither resurrects nor duplicates**, in every run, over any number
of restarts, in which each process boots with a current snapshot. -/
theorem no_resurrection {s : World cfg}
    (h : Lts.Run World.step World.UpToDate (World.init cfg) s) : s.NoResurrection := by
  have hR := h.inv (fun hR hg hs => step_recoverable hR hg hs) init_recoverable
  exact ⟨Multiset.nodup_of_le (Multiset.le_add_right _ _) hR.distinct.engaged, hR.distinct.gone⟩

/-- The events of a capture that is written to the disk. -/
def takeSnapshot : List (WorldEvent Config.small) :=
  List.replicate 3 (.snapshot .run) ++ [.snapshot (.written true)]

/-- Eleven users queue, ten are matched and published, the eleventh is captured;
after the restart he waits, alone. -/
theorem no_resurrection_eleven :
    ∃ s : World Config.small, s.published.length = 1 ∧ s.mem.enqueued.length = 1 ∧
      s.NoResurrection := by
  have hexec : (Lts.exec World.step (fun s e => s.UpToDate e) (World.init Config.small)
      (tenArrive (fun i => Int64.ofNat (i + 1)) ++ .signup 1500 :: .ingest .run :: queueCall 10 11
        ++ .ingest (.reply true) :: List.replicate 3 (.ingest .run) ++ formMatch ++ sendCommit
        ++ takeSnapshot ++ [.restart])).any
      (fun s => s.published.length = 1 ∧ s.mem.enqueued.length = 1) = true := by decide +kernel
  obtain ⟨s, hrun, hlen⟩ := Lts.exists_run_of_exec hexec
  obtain ⟨hpub, hone⟩ := of_decide_eq_true hlen
  exact ⟨s, hpub, hone, no_resurrection (hrun.mono of_decide_eq_true)⟩

/-- Ten players are captured, then matched and published; after the restart they
wait again. -/
theorem matched_resurrected :
    ¬ ∀ (cfg : Config) (s : World cfg), Lts.Run World.step Lts.Free (World.init cfg) s →
      s.NoResurrection := by
  intro hclaim
  have hexec : (Lts.exec World.step (fun _ _ => true) (World.init Config.small)
      (tenArrive (fun i => Int64.ofNat (i + 1)) ++ takeSnapshot ++ formMatch ++ sendCommit
        ++ [.restart])).any
      (fun s => s.published.any fun f => f.group.toList.any fun p =>
        p.origin ∈ s.pendingKeys .origin) = true := by decide +kernel
  obtain ⟨s, hrun, hback⟩ := Lts.exists_run_of_exec hexec
  obtain ⟨f, hf, hback⟩ := List.any_eq_true.mp hback
  obtain ⟨p, hp, hmem⟩ := List.any_eq_true.mp hback
  exact (hclaim _ s hrun.free).gone f hf p hp (of_decide_eq_true hmem)

end Supermatchmaker
