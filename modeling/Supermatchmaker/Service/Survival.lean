import Supermatchmaker.Service.Capture
import Supermatchmaker.Service.Recovery

/-!
# Formed matches and crashes

"Formed matches are never discarded — only their write is retried": the players
of an accepted group leave the pool for good, and until its `XADD` is executed
the match exists in the memory of the process only, in a match thread or in the
retry queue. The snapshotter does not know it. A capture taken meanwhile has its
cursor past the players' events and the players in none of its buckets, and when
the process dies then, both the match and the players are gone
(`formed_match_lost`).

They survive when each capture is taken at an actual id, copies a bucket only
while none of its players is in the hands of a match thread or in a match that
is not on the sync stream yet, when matches are only accepted once there is a
snapshot, and when the trim stays behind the newest one (`World.Shielded`):
`formed_match_survives`. `Secures` is the invariant, of the capture in progress
and of the newest snapshot alike: of everyone who would be lost with the memory,
nobody up to the cursor is missing.
-/

namespace Supermatchmaker

variable {cfg : Config}

/-- Booting with the snapshot brings the player back: it is in there, or its event
is on the stream behind the cursor. -/
def Snapshot.Regains (snap : Snapshot) (stream : Log (Option IngestEvent)) (p : Player Nat) :
    Prop :=
  (∃ q ∈ snap.players, q.Same p) ∨
    ∃ cur ∈ snap.lastStreamId, ∃ x ∈ Log.decoded (stream.after cur), p.Made x

/-- Each match this process has formed is on the sync stream, or the newest
snapshot brings its players back. -/
def World.Surviving (s : World cfg) : Prop :=
  ∀ f ∈ s.mem.formed, f ∈ s.published ∨
    ∃ snap ∈ s.disk.head?, ∀ p ∈ f.group.toList, snap.Regains s.ingest.stream p

/-- What that is good for: the process that boots next has them again. -/
theorem World.Surviving.recovers {s : World cfg} (h : s.Surviving) {f : Formed Nat}
    (hf : f ∈ s.mem.formed) (hlost : f ∉ s.published) {p : Player Nat} (hp : p ∈ f.group.toList) :
    s.restart.Recovers p := by
  obtain ⟨snap, hsnap, hall⟩ := (h f hf).resolve_left hlost
  obtain ⟨rest, hdisk⟩ := List.head?_eq_some_iff.mp hsnap
  rcases hall p hp with hin | ⟨cur, hcur, hx⟩
  · exact recovers_of_player hdisk hin
  · exact recovers_of_event hdisk hcur hx

/-! ## Who would be lost -/

/-- The player is in the pool, in the hands of a match thread, or in a match that
is not on the sync stream. -/
def Core.AtStake (c : Core cfg) (p : Player Nat) : Prop :=
  p ∈ waiting c.mem ∨ ∃ f ∈ c.mem.formed, f ∉ c.published ∧ p ∈ f.group.toList

/-- A match was there before, or its players were waiting. -/
theorem step_grouped {m m' : Matcher cfg Nat} {me : MatcherEvent cfg Nat} (hI : Inv m)
    (h : m.step me = some m') {f : Formed Nat} (hf : f ∈ m'.formed) :
    f ∈ m.formed ∨ ∀ p ∈ f.group.toList, p ∈ waiting m := by
  cases step_flow hI h with
  | still _ hsame _ => exact .inl (hsame ▸ hf)
  | arrived _ _ hsame _ => exact .inl (hsame ▸ hf)
  | formed hw hnew _ _ _ _ _ =>
    rw [hnew] at hf
    rcases List.mem_append.mp hf with hold | hlast
    · exact .inl hold
    · right
      intro p hp
      rw [List.mem_singleton.mp hlast] at hp
      rw [hw]
      exact Multiset.mem_add.mpr (.inr (Multiset.mem_coe.mpr hp))

/-- Whoever is at stake was before, or has just been placed. -/
theorem Effect.atStake {s : World cfg} {e : WorldEvent cfg} {c : Core cfg} (hS : Sound s.toCore)
    (h : Effect s e c) (hboot : e ≠ .restart) {p : Player Nat} (hp : c.AtStake p) :
    s.AtStake p ∨ ∃ x ∈ s.ingest.ahead, p.Made x := by
  rcases hp with hwaits | ⟨f, hf, hlost, hp⟩
  · exact (h.waits hS.inv hS.thread hboot p hwaits).imp_left Or.inl
  · left
    cases h with
    | process _ hstep =>
      rcases step_grouped hS.inv hstep hf with hwas | hnew
      · exact .inr ⟨f, hwas, hlost, hp⟩
      · exact .inl (hnew p hp)
    | publish _ hstep _ =>
      rcases step_grouped hS.inv hstep hf with hwas | hnew
      · exact .inr ⟨f, hwas, fun hpub => hlost (List.mem_append_left _ hpub), hp⟩
      · exact .inl (hnew p hp)
    | @ingest _ _ call _ =>
      change f ∈ (s.mem.apply call).formed at hf
      rw [apply_formed] at hf
      exact .inr ⟨f, hf, hlost, hp⟩
    | restart => exact absurd rfl hboot
    | _ => exact .inr ⟨f, hf, hlost, hp⟩

/-! ## What covers them -/

/-- The snapshot, taken at the cursor `cur`, covers those at stake whose home is
one of the first `next` buckets. -/
structure Secures (c : Core cfg) (cur next : Nat) (snap : Snapshot) : Prop where
  retained : c.ingest.stream.trimmed ≤ cur
  behind : ∀ x ∈ c.ingest.ahead, cur < x.1
  covered : ∀ p, c.AtStake p → p.origin ≤ cur → (bucketIndex cfg p.rating).val < next →
    ∃ q ∈ snap.players, q.Same p

/-- A step that leaves the stream's end and the stake as they are. -/
theorem Secures.mono {c c' : Core cfg} {cur next : Nat} {snap : Snapshot}
    (h : Secures c cur next snap)
    (htrim : c'.ingest.stream.trimmed ≤ cur)
    (hahead : ∀ x ∈ c'.ingest.ahead, x ∈ c.ingest.ahead ∨ cur < x.1)
    (hstake : ∀ p, c'.AtStake p → c.AtStake p ∨ cur < p.origin) : Secures c' cur next snap where
  retained := htrim
  behind x hx := by
    rcases hahead x hx with hold | hnew
    · exact h.behind x hold
    · exact hnew
  covered p hp hle hlt := by
    rcases hstake p hp with hold | hnew
    · exact h.covered p hold hle hlt
    · omega

namespace World

variable (s : World cfg)

/-- No player of the bucket, up to the cursor, is in a match that is not on the
sync stream. -/
def NonePending (next cur : Nat) : Prop :=
  ∀ f ∈ s.mem.formed, f ∉ s.published → ∀ p ∈ f.group.toList, p.origin ≤ cur →
    (bucketIndex cfg p.rating).val ≠ next

instance (next cur : Nat) : Decidable (s.NonePending next cur) :=
  List.decidableBAll _ s.mem.formed

/-- What the snapshotter's next step needs. -/
def Covering : SnapPc → Prop
  | .sleeping => ∃ cur ∈ s.ingest.cursor, s.ingest.stream.trimmed ≤ cur
  | .copying next snap => ∀ cur ∈ snap.lastStreamId, s.NoneHeld next cur ∧ s.NonePending next cur
  | .writing _ => True
  | .trimming => True

instance (pc : SnapPc) : Decidable (s.Covering pc) :=
  match pc with
  | .sleeping => decidable_of_iff (s.ingest.cursor.any (s.ingest.stream.trimmed ≤ ·) = true) <| by
      unfold Covering
      cases s.ingest.cursor <;> simp
  | .copying _ snap => Option.decidableForallMem snap.lastStreamId
  | .writing _ => .isTrue trivial
  | .trimming => .isTrue trivial

/-- A capture starts at an actual id the stream reaches back to, and copies a bucket
while none of its players is held or in a match still to be published; the trim
stays behind the newest snapshot; a match is accepted when there is one. -/
def Shielded : WorldEvent cfg → Prop
  | .snapshot .run => s.Covering s.snap
  | .snapshot (.trimmed upTo) => ∀ snap ∈ s.disk.head?, ∀ cur ∈ snap.lastStreamId, upTo ≤ cur
  | .worker w _ => s.mem.Admits (s.mem.workers w) → s.disk.isEmpty = false
  | _ => True

instance (e : WorldEvent cfg) : Decidable (s.Shielded e) :=
  match e with
  | .snapshot .run => inferInstanceAs (Decidable (s.Covering s.snap))
  | .snapshot (.trimmed upTo) =>
    inferInstanceAs (Decidable (∀ snap ∈ s.disk.head?, ∀ cur ∈ snap.lastStreamId, upTo ≤ cur))
  | .worker w _ =>
    inferInstanceAs (Decidable (s.mem.Admits (s.mem.workers w) → s.disk.isEmpty = false))
  | .snapshot (.written _) | .call .. | .restart | .signup _ | .request _ | .ingest _ | .retry _
  | .poller _ | .endMatch .. | .expireStatus _ | .expirePlayer _ | .tick _ => .isTrue trivial

/-- The snapshot has an actual cursor, at which it covers the first `next` buckets. -/
def Shields (c : Core cfg) (next : Nat) (snap : Snapshot) : Prop :=
  ∃ cur ∈ snap.lastStreamId, Secures c cur next snap

/-- The invariant. -/
structure Shielding (s : World cfg) : Prop where
  sound : Sound s.toCore
  traced : Traced s.toCore
  capture : ∀ next snap, s.capture = some (next, snap) → Shields s.toCore next snap
  newest : ∀ snap ∈ s.disk.head?, Shields s.toCore cfg.numBuckets snap
  published : s.disk = [] → ∀ f ∈ s.mem.formed, f ∈ s.published
  pruned : cfg.snapshotsKept = 0 → s.disk = []

end World

/-! ## The invariant -/

/-- A step that leaves the snapshotter alone keeps what a snapshot covers. -/
theorem Effect.secures {s : World cfg} {e : WorldEvent cfg} {c : Core cfg} (hS : Sound s.toCore)
    (h : Effect s e c) (hboot : e ≠ .restart) {cur next : Nat} {snap : Snapshot}
    (hcur : cur ≤ s.ingest.stream.lastId) (hold : Secures s.toCore cur next snap)
    (htrim : ∀ upTo, e = .snapshot (.trimmed upTo) → upTo ≤ cur) : Secures c cur next snap := by
  refine hold.mono ?_ (fun x hx => ?_) fun p hp => ?_
  · rcases h.trimmed_eq with hsame | ⟨upTo, rfl, hnew⟩
    · rw [hsame]
      exact hold.retained
    · have hle := htrim upTo rfl
      have hwas := hold.retained
      omega
  · -- the cursor was read before, and ids only grow
    exact (h.behind hS.thread hboot x hx).imp_right (Nat.lt_of_le_of_lt hcur)
  · rcases h.atStake hS hboot hp with hwas | ⟨x, hx, hmade⟩
    · exact .inl hwas
    · right
      rw [hmade.origin]
      exact hold.behind x hx

/-- The capture begins: nothing is copied yet. -/
theorem begin_secures {s : World cfg} (hS : Sound s.toCore) {c : Core cfg}
    (hc : c.ingest = s.ingest)
    (hg : s.Covering .sleeping) : World.Shields c 0 s.captureStart := by
  obtain ⟨cur, hcur, htrim⟩ := hg
  refine ⟨cur, hcur, ?_, fun x hx => ?_, fun p _ _ hlt => absurd hlt (Nat.not_lt_zero _)⟩
  · rw [hc]
    exact htrim
  · rw [hc] at hx
    exact hS.thread.ahead_gt cur hcur x hx

/-- One more bucket is copied. -/
theorem copy_secures {s : World cfg} (hI : Inv s.mem) {c : Core cfg} (hi : c.ingest = s.ingest)
    (hm : c.mem = s.mem) (hp : c.published = s.published) {next : Nat} {snap : Snapshot}
    (hlt : next < cfg.numBuckets) (hg : s.Covering (.copying next snap))
    (hold : World.Shields s.toCore next snap) :
    World.Shields c (next + 1) (snap.add (s.mem.buckets ⟨next, hlt⟩)) := by
  obtain ⟨cur, hcur, hcov⟩ := hold
  obtain ⟨hheld, hpending⟩ := hg cur hcur
  refine ⟨cur, hcur, by rw [hi]; exact hcov.retained, by rw [hi]; exact hcov.behind,
    fun p hstake hle hhome => ?_⟩
  unfold Core.AtStake at hstake
  rw [hm, hp] at hstake
  by_cases hhere : (bucketIndex cfg p.rating).val = next
  · -- it is in the bucket that is copied now: nobody else has it
    rcases hstake with hwaits | ⟨f, hf, hlost, hmem⟩
    · rcases hI.bucket_or_held hwaits with hbucket | ⟨w, hhand⟩
      · have hindex : bucketIndex cfg p.rating = ⟨next, hlt⟩ := Fin.ext hhere
        rw [hindex] at hbucket
        exact ⟨p, List.mem_append_right _ hbucket, ⟨rfl, rfl, rfl⟩⟩
      · exact absurd hhere (hheld w p hhand hle)
    · exact absurd hhere (hpending f hf hlost p hmem hle)
  · obtain ⟨q, hq, hsame⟩ := hcov.covered p hstake hle (by omega)
    exact ⟨q, List.mem_append_left _ hq, hsame⟩

/-- The process that boots with a snapshot has nothing at stake but its players. -/
theorem restart_shields (s : World cfg) (hS : Sound s.toCore) {snap : Snapshot}
    (hsnap : snap ∈ s.disk.head?) (hold : World.Shields s.toCore cfg.numBuckets snap) :
    World.Shields s.restart.toCore cfg.numBuckets snap := by
  obtain ⟨cur, hcur, hcov⟩ := hold
  obtain ⟨rest, hdisk⟩ := List.head?_eq_some_iff.mp hsnap
  have hrec : s.recovered = (snap.players, snap.lastStreamId) := by
    unfold World.recovered
    rw [hdisk]
  have hboot := restart_restored s
  refine ⟨cur, hcur, hcov.retained, ?_, fun p hstake _ _ => ?_⟩
  · have hthread := (Effect.restart (s := s)).thread hS
    refine hthread.ahead_gt cur ?_
    show s.recovered.2 = some cur
    rw [hrec]
    exact hcur
  · have hnone : s.restart.mem.formed = [] := hboot.formed
    rcases hstake with hwaits | ⟨f, hf, _⟩
    · rcases hboot.entries p (hboot.inv.mem_of_waiting hwaits) with hnil | ⟨q, hq, hsame⟩
      · cases hnil
      · rw [hrec] at hq
        exact ⟨q, hq, ⟨hsame.id.symm, hsame.rating.symm, hsame.origin.symm⟩⟩
    · rw [hnone] at hf
      cases hf

theorem mem_snapshots_of_head {c : Core cfg} {snap : Snapshot} (h : snap ∈ c.disk.head?) :
    snap ∈ c.snapshots :=
  List.mem_append_right _ (List.mem_of_mem_head? h)

/-- **Step**, the capture in progress. -/
theorem Effect.capture_shields {s : World cfg} {e : WorldEvent cfg} {c : Core cfg}
    (hW : s.Shielding) (hg : s.Shielded e) (h : Effect s e c) {next : Nat} {snap : Snapshot}
    (hcap : c.capture = some (next, snap)) : World.Shields c next snap := by
  have hS := hW.sound
  -- a step outside the snapshotter leaves the capture where it is
  have hkeep : c.snap = s.snap → e ≠ .restart → (∀ upTo, e ≠ .snapshot (.trimmed upTo)) →
      World.Shields c next snap := by
    intro hsame hboot hnot
    have hcap' : s.capture = some (next, snap) := by
      unfold Core.capture at hcap ⊢
      rw [← hsame]
      exact hcap
    obtain ⟨cur, hcur, hcov⟩ := hW.capture next snap hcap'
    have hle := (hS.snaps snap (mem_snapshots_of_capture hcap')).cursor_le cur hcur
    exact ⟨cur, hcur, h.secures hS hboot hle hcov fun upTo he => absurd he (hnot upTo)⟩
  cases h with
  | begin hpc =>
    obtain ⟨rfl, rfl⟩ : 0 = next ∧ s.captureStart = snap := by
      rw [← Prod.mk.injEq, ← Option.some.injEq]
      exact hcap
    have hguard : s.Covering .sleeping := by
      rw [← hpc]
      exact hg
    exact begin_secures hS rfl hguard
  | @copy i old hpc hlt =>
    obtain ⟨rfl, rfl⟩ : i + 1 = next ∧ old.add (s.mem.buckets ⟨i, hlt⟩) = snap := by
      rw [← Prod.mk.injEq, ← Option.some.injEq]
      exact hcap
    have hguard : s.Covering (.copying i old) := by
      rw [← hpc]
      exact hg
    have hold := hW.capture i old (by unfold Core.capture; rw [hpc])
    refine copy_secures hS.inv ?_ ?_ ?_ hlt hguard hold <;> rfl
  | @finish i old hpc hge =>
    obtain ⟨rfl, rfl⟩ : cfg.numBuckets = next ∧ old = snap := by
      rw [← Prod.mk.injEq, ← Option.some.injEq]
      exact hcap
    obtain ⟨cur, hcur, hcov⟩ := hW.capture i old (by unfold Core.capture; rw [hpc])
    exact ⟨cur, hcur, hcov.retained, hcov.behind, fun p hp hle hhome =>
      hcov.covered p hp hle (Nat.lt_of_lt_of_le hhome hge)⟩
  | written => cases hcap
  | trimmed => cases hcap
  | restart => cases hcap
  | process hd _ => exact hkeep rfl hd.ne_restart fun _ => hd.ne_snapshot _
  | publish hd _ _ => exact hkeep rfl hd.ne_restart fun _ => hd.ne_snapshot _
  | quiet => exact hW.capture next snap hcap
  | _ => exact hkeep rfl nofun nofun

/-- **Step**, the newest snapshot. -/
theorem Effect.newest_shields {s : World cfg} {e : WorldEvent cfg} {c : Core cfg}
    (hW : s.Shielding) (hg : s.Shielded e) (h : Effect s e c) {snap : Snapshot}
    (hsnap : snap ∈ c.disk.head?) : World.Shields c cfg.numBuckets snap := by
  have hS := hW.sound
  have hkeep : snap ∈ s.disk.head? → e ≠ .restart → World.Shields c cfg.numBuckets snap := by
    intro hsame hboot
    obtain ⟨cur, hcur, hcov⟩ := hW.newest snap hsame
    have hle := (hS.snaps snap (mem_snapshots_of_head hsame)).cursor_le cur hcur
    refine ⟨cur, hcur, h.secures hS hboot hle hcov fun upTo he => ?_⟩
    subst he
    exact hg snap hsame cur hcur
  cases h with
  | @written ok old hpc =>
    change snap ∈ (if ok then (old :: s.disk).take cfg.snapshotsKept else s.disk).head? at hsnap
    split at hsnap
    · -- the capture that has just been written is the newest now
      have hnew := newest_written hsnap
      obtain ⟨cur, hcur, hcov⟩ := hW.capture cfg.numBuckets old (by unfold Core.capture; rw [hpc])
      rw [← hnew] at hcur hcov
      exact ⟨cur, hcur, hcov.retained, hcov.behind, hcov.covered⟩
    · obtain ⟨cur, hcur, hcov⟩ := hW.newest snap hsnap
      exact ⟨cur, hcur, hcov.retained, hcov.behind, hcov.covered⟩
  | restart => exact restart_shields s hS hsnap (hW.newest snap hsnap)
  | quiet => exact hW.newest snap hsnap
  | process hd _ => exact hkeep hsnap hd.ne_restart
  | publish hd _ _ => exact hkeep hsnap hd.ne_restart
  | _ => exact hkeep hsnap nofun

/-- **Step**, while there is no snapshot: no match is accepted. -/
theorem Effect.none_lost {s : World cfg} {e : WorldEvent cfg} {c : Core cfg} (hW : s.Shielding)
    (hg : s.Shielded e) (h : Effect s e c) (hnone : c.disk = []) :
    ∀ f ∈ c.mem.formed, f ∈ c.published := by
  have hI := hW.sound.inv
  have hpub := h.published_prefix.subset
  have hnew : ∀ {me mem}, Drives e me → s.mem.step me = some mem → s.disk = [] →
      ∀ f ∈ mem.formed, f ∈ s.published := by
    intro me mem hd hstep hempty f hf
    by_cases hsame : mem.formed = s.mem.formed
    · rw [hsame] at hf
      exact hW.published hempty f hf
    · obtain ⟨w, we, rfl, hadmits⟩ := step_admits hI hstep hsame
      cases hd
      have hdisk : s.disk.isEmpty = false := hg hadmits
      rw [hempty] at hdisk
      cases hdisk
  cases h with
  | process hd hstep => exact hnew hd hstep hnone
  | publish hd hstep _ => exact fun f hf => hpub (hnew hd hstep hnone f hf)
  | @ingest _ _ call _ =>
    intro f hf
    change f ∈ (s.mem.apply call).formed at hf
    rw [apply_formed] at hf
    exact hW.published hnone f hf
  | @written ok old hpc =>
    change (if ok then (old :: s.disk).take cfg.snapshotsKept else s.disk) = [] at hnone
    split at hnone
    · refine hW.published (hW.pruned ?_)
      rcases List.take_eq_nil_iff.mp hnone with hzero | hcons
      · exact hzero
      · cases hcons
    · exact hW.published hnone
  | restart =>
    intro f hf
    have hformed : s.restart.mem.formed = [] := (restart_restored s).formed
    change f ∈ s.restart.mem.formed at hf
    rw [hformed] at hf
    cases hf
  | _ => exact hW.published hnone

/-- With `SNAPSHOTS_KEPT` at 0 the directory stays empty. -/
theorem Effect.pruned {s : World cfg} {e : WorldEvent cfg} {c : Core cfg} (h : Effect s e c)
    (hkept : cfg.snapshotsKept = 0) (hold : s.disk = []) : c.disk = [] := by
  cases h with
  | @written ok old _ =>
    show (if ok then (old :: s.disk).take cfg.snapshotsKept else s.disk) = []
    rw [hkept, hold]
    split <;> rfl
  | _ => exact hold

theorem init_shielding : (World.init cfg).Shielding where
  sound := init_sound
  traced := init_traced
  capture := nofun
  newest := nofun
  published := nofun
  pruned _ := rfl

/-- **Step**, under the guard. -/
theorem step_shielding {s s' : World cfg} {e : WorldEvent cfg} (hW : s.Shielding)
    (hg : s.Shielded e)
    (h : s.step e = some s') : s'.Shielding := by
  have heff := step_effect hW.sound.founded h
  exact ⟨heff.sound hW.sound, heff.traced hW.sound hW.traced,
    fun next snap hcap => heff.capture_shields hW hg hcap,
    fun snap hsnap => heff.newest_shields hW hg hsnap,
    fun hnone => heff.none_lost hW hg hnone,
    fun hkept => heff.pruned hkept (hW.pruned hkept)⟩

/-! ## Survival -/

/-- **A formed match survives a crash**, at every point of every run in which
captures and acceptances are shielded. -/
theorem formed_match_survives {s : World cfg}
    (h : Lts.Run World.step World.Shielded (World.init cfg) s) : s.Surviving := by
  have hW := h.inv (fun hW hg hs => step_shielding hW hg hs) init_shielding
  intro f hf
  by_cases hpub : f ∈ s.published
  · exact .inl hpub
  right
  cases hdisk : s.disk with
  | nil => exact absurd (hW.published hdisk f hf) hpub
  | cons snap rest =>
    obtain ⟨cur, hcur, hcov⟩ := hW.newest snap (by rw [hdisk]; rfl)
    refine ⟨snap, rfl, fun p hp => ?_⟩
    by_cases hle : p.origin ≤ cur
    · exact .inl (hcov.covered p (.inr ⟨f, hf, hpub, hp⟩) hle (bucketIndex cfg p.rating).isLt)
    · right
      obtain ⟨ev, hev, hid, hrating⟩ := hW.traced.enqueued p (hW.sound.inv.mem_of_matched hf hp)
      refine ⟨cur, hcur, (p.origin, ev), ?_, ⟨hid.symm, hrating.symm, rfl⟩⟩
      exact Log.mem_decoded.mpr (Log.mem_after _ hev (Nat.lt_of_not_le hle) hcov.retained)

/-- Ten players are captured and matched; the match is not published yet. -/
theorem formed_match_survives_captured :
    ∃ s : World Config.small, s.mem.formed.length = 1 ∧ s.published = [] ∧ s.Surviving := by
  have hexec : (Lts.exec World.step (fun s e => s.Shielded e) (World.init Config.small)
      (tenArrive (fun i => Int64.ofNat (i + 1)) ++ takeSnapshot ++ formMatch)).any
      (fun s => s.mem.formed.length = 1 ∧ s.published = []) = true := by decide +kernel
  obtain ⟨s, hrun, hdone⟩ := Lts.exists_run_of_exec hexec
  obtain ⟨hone, hnone⟩ := of_decide_eq_true hdone
  exact ⟨s, hone, hnone, formed_match_survives (hrun.mono of_decide_eq_true)⟩

/-- Ten players are matched and Redis executes nothing; the capture taken
meanwhile has its cursor behind their events, and nobody in it. -/
theorem formed_match_lost :
    ¬ ∀ (cfg : Config) (s : World cfg), Lts.Run World.step Lts.Free (World.init cfg) s →
      s.Surviving := by
  intro hclaim
  have hexec : (Lts.exec World.step (fun _ _ => true) (World.init Config.small)
      (tenArrive (fun i => Int64.ofNat (i + 1)) ++ formMatch ++ takeSnapshot)).any
      (fun s => s.published = [] ∧ s.ingest.stream.lastId = 10 ∧
        (∃ f ∈ s.mem.formed, f.group.toList ≠ []) ∧
        ∀ snap ∈ s.disk.head?, snap.players = [] ∧ snap.lastStreamId = some 10) = true := by
    decide +kernel
  obtain ⟨s, hrun, hlost⟩ := Lts.exists_run_of_exec hexec
  obtain ⟨hnone, hlast, ⟨f, hf, hmembers⟩, hsnap⟩ := of_decide_eq_true hlost
  obtain ⟨p, hp⟩ := List.exists_mem_of_ne_nil _ hmembers
  rcases hclaim _ s hrun.free f hf with hpub | ⟨snap, hmem, hall⟩
  · rw [hnone] at hpub
    cases hpub
  · obtain ⟨hplayers, hcursor⟩ := hsnap snap hmem
    rcases hall p hp with ⟨q, hq, _⟩ | ⟨cur, hcur, x, hx, _⟩
    · rw [hplayers] at hq
      cases hq
    · -- the cursor is the newest id there is
      rw [hcursor, Option.mem_def, Option.some.injEq] at hcur
      rw [← hcur, ← hlast, Log.after_lastId] at hx
      cases hx

end Supermatchmaker
