import Supermatchmaker.Lib.Lts
import Supermatchmaker.Service.Effects

/-!
# What a snapshot captures

The snapshotter reads the cursor, then copies the buckets one after another,
each under its own lock. The comment beside it argues that a replay "can only
ever re-add a player, never skip one".

It can skip one: a match thread that has drained a bucket holds its players
outside every bucket until it forms the match or puts them back, and a copy made
in between misses them (`snapshot_incomplete`). When no thread holds a player
that the copy of a bucket should contain (`World.Steady`), nothing is missed:
`snapshot_complete`.

Two invariants carry the proof. `Traced` is where entries come from: every one
stands for an event on the stream. `Captured` is how far a capture has got: of
the buckets already copied, no waiting entry up to the cursor is missing.
-/

namespace Supermatchmaker

variable {cfg : Config}

/-! ## Where entries come from -/

/-- The event the entry was made from is on the stream. -/
def Player.From (p : Player Nat) (stream : Log (Option IngestEvent)) : Prop :=
  ∃ ev, (p.origin, some ev) ∈ stream.numbered ∧ ev.id = p.id ∧ ev.poolRating = p.rating

/-- Everything the pool, the ingestion thread and the snapshots hold is on the
stream. -/
structure Traced (c : Core cfg) : Prop where
  ahead : ∀ e ∈ c.ingest.ahead, (e.1, some e.2) ∈ c.ingest.stream.numbered
  enqueued : ∀ p ∈ c.mem.enqueued, p.From c.ingest.stream
  snaps : ∀ snap ∈ c.snapshots, ∀ p ∈ snap.players, p.From c.ingest.stream

theorem Player.From.mono {p : Player Nat} {l l' : Log (Option IngestEvent)} (h : p.From l)
    (hsub : l.numbered ⊆ l'.numbered) : p.From l' := by
  obtain ⟨ev, hmem, hid, hrating⟩ := h
  exact ⟨ev, hsub hmem, hid, hrating⟩

/-- **Step**. -/
theorem Effect.traced {s : World cfg} {e : WorldEvent cfg} {c : Core cfg} (hS : Sound s.toCore)
    (hT : Traced s.toCore) (h : Effect s e c) : Traced c := by
  have hsub := h.numbered.subset
  refine ⟨fun x hx => ?_, fun p hp => ?_, fun snap hsnap p hp => ?_⟩
  · rcases h.ahead hS.thread x hx with hold | hnew
    · exact hsub (hT.ahead x hold)
    · exact hnew
  · refine Player.From.mono ?_ hsub
    rcases h.entries hS.inv hS.thread p hp with hold | ⟨x, hx, hmade⟩ | ⟨snap, hsnap, q, hq, hsame⟩
    · exact hT.enqueued p hold
    · exact ⟨x.2, by rw [hmade.origin]; exact hT.ahead x hx, hmade.id.symm, hmade.rating.symm⟩
    · obtain ⟨ev, hev, hid, hrating⟩ := hT.snaps snap (List.mem_append_right _ hsnap) q hq
      exact ⟨ev, by rw [hsame.origin]; exact hev, hid.trans hsame.id.symm,
        hrating.trans hsame.rating.symm⟩
  · refine Player.From.mono ?_ hsub
    rcases h.snapshots snap hsnap with hold | rfl | ⟨next, old, hlt, hpc, rfl⟩
    · exact hT.snaps snap hold p hp
    · cases hp
    · rcases List.mem_append.mp hp with hp | hp
      · exact hT.snaps old (mem_snapshots_of_copying hpc) p hp
      · exact hT.enqueued p (hS.inv.mem_of_waiting (mem_waiting_of_bucket hp))

theorem init_traced : Traced (World.init cfg).toCore where
  ahead := nofun
  enqueued := nofun
  snaps := nofun

/-! ## How far a capture has got -/

/-- The capture in progress, and the buckets it has already copied. -/
def Core.capture (c : Core cfg) : Option (Nat × Snapshot) :=
  match c.snap with
  | .copying next snap => some (next, snap)
  | .writing snap => some (cfg.numBuckets, snap)
  | _ => none

theorem mem_snapshots_of_capture {c : Core cfg} {next : Nat} {snap : Snapshot}
    (h : c.capture = some (next, snap)) : snap ∈ c.snapshots := by
  have hsnap : snap ∈ c.snap.snapshot := by
    unfold Core.capture at h
    split at h <;> simp only [Option.some.injEq, Prod.mk.injEq, reduceCtorEq] at h
    next hpc =>
      rw [hpc, h.2]
      exact List.mem_cons_self
    next hpc =>
      rw [hpc, h.2]
      exact List.mem_cons_self
  exact List.mem_append_left _ hsnap

/-- The capture at the cursor `cur` has missed nothing so far: all that is still
ahead lies behind the cursor, and of the first `next` buckets every waiting entry
up to the cursor was copied. -/
structure Captured (c : Core cfg) (cur next : Nat) (snap : Snapshot) : Prop where
  retained : c.ingest.stream.trimmed ≤ cur
  behind : ∀ x ∈ c.ingest.ahead, cur < x.1
  copied : ∀ p ∈ waiting c.mem, p.origin ≤ cur → (bucketIndex cfg p.rating).val < next →
    p ∈ snap.players

namespace World

variable (s : World cfg)

/-- No match thread holds a player of the bucket that is up to the cursor. -/
def NoneHeld (next cur : Nat) : Prop :=
  ∀ w, ∀ p ∈ (s.mem.workers w).held, p.origin ≤ cur → (bucketIndex cfg p.rating).val ≠ next

instance (next cur : Nat) : Decidable (s.NoneHeld next cur) :=
  @Nat.decidableForallFin cfg.numWorkers _ fun w => List.decidableBAll _ (s.mem.workers w).held

/-- A capture starts while the stream still reaches back to the cursor, and copies
a bucket while no match thread holds any of its players. -/
def Undisturbed : SnapPc → Prop
  | .sleeping => ∀ cur ∈ s.ingest.cursor, s.ingest.stream.trimmed ≤ cur
  | .copying next snap => ∀ cur ∈ snap.lastStreamId, s.NoneHeld next cur
  | .writing _ => True
  | .trimming => True

instance (pc : SnapPc) : Decidable (s.Undisturbed pc) :=
  match pc with
  | .sleeping => Option.decidableForallMem s.ingest.cursor
  | .copying _ snap => Option.decidableForallMem snap.lastStreamId
  | .writing _ => .isTrue trivial
  | .trimming => .isTrue trivial

/-- A step of the snapshotter finds undisturbed what it is about to copy. -/
def Steady : WorldEvent cfg → Prop
  | .snapshot .run => s.Undisturbed s.snap
  | _ => True

instance (e : WorldEvent cfg) : Decidable (s.Steady e) :=
  match e with
  | .snapshot .run => inferInstanceAs (Decidable (s.Undisturbed s.snap))
  | .snapshot (.written _) | .snapshot (.trimmed _) | .call .. | .restart | .signup _ | .request _
  | .ingest _ | .worker .. | .retry _ | .poller _ | .endMatch .. | .expireStatus _
  | .expirePlayer _ | .tick _ => .isTrue trivial

/-- The invariant. -/
structure Capturing (s : World cfg) : Prop where
  sound : Sound s.toCore
  traced : Traced s.toCore
  progress : ∀ next snap cur, s.capture = some (next, snap) → snap.lastStreamId = some cur →
    Captured s.toCore cur next snap

end World

/-- A step that takes nothing out of the pool but into matches. -/
theorem Captured.mono {c c' : Core cfg} {cur next : Nat} {snap : Snapshot}
    (h : Captured c cur next snap) (htrim : c'.ingest.stream.trimmed = c.ingest.stream.trimmed)
    (hahead : ∀ x ∈ c'.ingest.ahead, x ∈ c.ingest.ahead ∨ cur < x.1)
    (hwaiting : ∀ p ∈ waiting c'.mem, p ∈ waiting c.mem ∨ cur < p.origin) :
    Captured c' cur next snap where
  retained := by
    rw [htrim]
    exact h.retained
  behind x hx := by
    rcases hahead x hx with hold | hnew
    · exact h.behind x hold
    · exact hnew
  copied p hp hle hlt := by
    rcases hwaiting p hp with hold | hnew
    · exact h.copied p hold hle hlt
    · omega

/-- **Step**: a guarded step keeps the capture complete. -/
theorem Effect.captured {s : World cfg} {e : WorldEvent cfg} {c : Core cfg} (hC : s.Capturing)
    (hg : s.Steady e) (h : Effect s e c) {next cur : Nat} {snap : Snapshot}
    (hcap : c.capture = some (next, snap)) (hcur : snap.lastStreamId = some cur) :
    Captured c cur next snap := by
  have hS := hC.sound
  -- a step outside the snapshotter leaves the capture where it is
  have hkeep : c.snap = s.snap → e ≠ .restart → c.ingest.stream.trimmed = s.ingest.stream.trimmed →
      Captured c cur next snap := by
    intro hsame hboot htrim
    have hcap' : s.capture = some (next, snap) := by
      unfold Core.capture at hcap ⊢
      rw [← hsame]
      exact hcap
    have hold := hC.progress next snap cur hcap' hcur
    refine hold.mono htrim (fun x hx => ?_) fun p hp => ?_
    · rcases h.behind hS.thread hboot x hx with hwas | hnew
      · exact .inl hwas
      · -- the cursor was read before, and ids only grow
        have hbound : cur ≤ s.ingest.stream.lastId :=
          (hS.snaps snap (mem_snapshots_of_capture hcap')).cursor_le cur hcur
        exact .inr (Nat.lt_of_le_of_lt hbound hnew)
    · rcases h.waits hS.inv hS.thread hboot p hp with hwas | ⟨x, hx, hmade⟩
      · exact .inl hwas
      · right
        rw [hmade.origin]
        exact hold.behind x hx
  cases h with
  | quiet => exact hC.progress next snap cur hcap hcur
  | ended => exact hkeep rfl nofun rfl
  | xadd => exact hkeep rfl nofun rfl
  | ingest hstep =>
    exact hkeep rfl nofun (by rw [show _ = _ from (Ingest.threadStep_frame hstep).1])
  | process hd _ => exact hkeep rfl hd.ne_restart rfl
  | publish hd _ _ => exact hkeep rfl hd.ne_restart rfl
  | begin hpc =>
    obtain ⟨rfl, rfl⟩ : 0 = next ∧ s.captureStart = snap := by
      rw [← Prod.mk.injEq, ← Option.some.injEq]
      exact hcap
    have hguard : s.Undisturbed .sleeping := by
      rw [← hpc]
      exact hg
    exact ⟨hguard cur hcur, hS.thread.ahead_gt cur hcur,
      fun p _ _ hlt => absurd hlt (Nat.not_lt_zero _)⟩
  | @copy i old hpc hlt =>
    obtain ⟨rfl, rfl⟩ : i + 1 = next ∧ old.add (s.mem.buckets ⟨i, hlt⟩) = snap := by
      rw [← Prod.mk.injEq, ← Option.some.injEq]
      exact hcap
    have hguard : s.Undisturbed (.copying i old) := by
      rw [← hpc]
      exact hg
    have hprev := hC.progress i old cur (by unfold Core.capture; rw [hpc]) hcur
    refine ⟨hprev.retained, hprev.behind, fun p hp hle hhome => ?_⟩
    by_cases hhere : (bucketIndex cfg p.rating).val = i
    · -- it is in the bucket that is copied now, unless a match thread holds it
      rcases hS.inv.bucket_or_held hp with hbucket | ⟨w, hheld⟩
      · have hindex : bucketIndex cfg p.rating = ⟨i, hlt⟩ := Fin.ext hhere
        rw [hindex] at hbucket
        exact List.mem_append_right _ hbucket
      · exact absurd hhere (hguard cur hcur w p hheld hle)
    · exact List.mem_append_left _ (hprev.copied p hp hle (by omega))
  | @finish i old hpc hge =>
    obtain ⟨rfl, rfl⟩ : cfg.numBuckets = next ∧ old = snap := by
      rw [← Prod.mk.injEq, ← Option.some.injEq]
      exact hcap
    have hprev := hC.progress i old cur (by unfold Core.capture; rw [hpc]) hcur
    exact ⟨hprev.retained, hprev.behind, fun p hp hle hhome =>
      hprev.copied p hp hle (Nat.lt_of_lt_of_le hhome hge)⟩
  | written => cases hcap
  | trimmed => cases hcap
  | restart => cases hcap

theorem init_capturing : (World.init cfg).Capturing where
  sound := init_sound
  traced := init_traced
  progress := nofun

/-- **Step**, as long as the captures are undisturbed. -/
theorem step_capturing {s s' : World cfg} {e : WorldEvent cfg} (hC : s.Capturing) (hg : s.Steady e)
    (h : s.step e = some s') : s'.Capturing := by
  have heff := step_effect hC.sound.founded h
  exact ⟨heff.sound hC.sound, heff.traced hC.sound hC.traced,
    fun next snap cur hcap hcur => heff.captured hC hg hcap hcur⟩

/-! ## Completeness -/

namespace World

variable (s : World cfg)

/-- The entry is in the pool the process has booted with, or its event is one that
the ingestion thread will replay. -/
def Recovers (boot : World cfg) (p : Player Nat) : Prop :=
  (∃ q ∈ waiting boot.mem, q.Same p) ∨ ∃ x ∈ boot.ingest.ahead, p.Made x

/-- What is promised of a capture when it has finished. -/
structure SnapshotComplete (snap : Snapshot) (lastId : Nat) : Prop where
  /-- no entry from an event up to the cursor is missing, but those matched -/
  captured : ∀ p ∈ s.mem.enqueued, p.origin ≤ lastId → (∀ f ∈ s.mem.formed, p ∉ f.group.toList) →
    p ∈ snap.players
  /-- a process that boots with the snapshot recovers everyone who waits -/
  recovers : ∀ p ∈ waiting s.mem,
    Recovers ({ s with disk := snap :: s.disk } : World cfg).restart p

end World

/-- A process that boots with the snapshot has its players. -/
theorem recovers_of_player {s : World cfg} {snap : Snapshot} {rest : List Snapshot}
    (hdisk : s.disk = snap :: rest) {p : Player Nat} (hp : ∃ q ∈ snap.players, q.Same p) :
    s.restart.Recovers p := by
  obtain ⟨q, hq, hsame⟩ := hp
  have hboot := restart_restored s
  have hrec : s.recovered.1 = snap.players := by
    unfold World.recovered
    rw [hdisk]
  obtain ⟨q', hq', hsame'⟩ := hboot.restored q (hrec ▸ hq)
  left
  refine ⟨q', ?_, ⟨hsame'.id.trans hsame.id, hsame'.rating.trans hsame.rating,
    hsame'.origin.trans hsame.origin⟩⟩
  rw [hboot.inv.waiting_eq hboot.formed]
  exact Multiset.mem_coe.mpr hq'

/-- It will read the events behind the cursor. -/
theorem recovers_of_event {s : World cfg} {snap : Snapshot} {rest : List Snapshot}
    (hdisk : s.disk = snap :: rest) {cur : Nat} (hcur : snap.lastStreamId = some cur)
    {p : Player Nat}
    (hp : ∃ x ∈ Log.decoded (s.ingest.stream.after cur), p.Made x) : s.restart.Recovers p := by
  obtain ⟨x, hx, hmade⟩ := hp
  have hrec : s.recovered.2 = some cur := by
    unfold World.recovered
    rw [hdisk]
    exact hcur
  have hpos : s.restart.ingest.position = some cur := hrec
  right
  refine ⟨x, ?_, hmade⟩
  rw [Ingest.ahead_eq hpos]
  exact hx

/-- **Snapshot completeness**, in every run in which no match thread holds a
player of a bucket that is being copied. -/
theorem snapshot_complete {s : World cfg} (h : Lts.Run World.step World.Steady (World.init cfg) s)
    {snap : Snapshot} {lastId : Nat} (hsnap : s.snap = .writing snap)
    (hcur : snap.lastStreamId = some lastId) : s.SnapshotComplete snap lastId := by
  have hC := h.inv (fun hC hg hs => step_capturing hC hg hs) init_capturing
  have hdone := hC.progress cfg.numBuckets snap lastId (by unfold Core.capture; rw [hsnap]) hcur
  have hcopied : ∀ p ∈ waiting s.mem, p.origin ≤ lastId → p ∈ snap.players := fun p hp hle =>
    hdone.copied p hp hle (bucketIndex cfg p.rating).isLt
  refine ⟨fun p hp hle hfree => ?_, fun p hp => ?_⟩
  · refine hcopied p ?_ hle
    have hmem : p ∈ waiting s.mem + inMatches s.mem := by
      rw [hC.sound.inv.waiting_add]
      exact Multiset.mem_coe.mpr hp
    refine (Multiset.mem_add.mp hmem).resolve_right fun hmatched => ?_
    obtain ⟨f, hf, hpf⟩ := mem_inMatches.mp hmatched
    exact hfree f hf hpf
  · by_cases hle : p.origin ≤ lastId
    · exact recovers_of_player rfl ⟨p, hcopied p hp hle, ⟨rfl, rfl, rfl⟩⟩
    · obtain ⟨ev, hev, hid, hrating⟩ := hC.traced.enqueued p (hC.sound.inv.mem_of_waiting hp)
      refine recovers_of_event rfl hcur ⟨(p.origin, ev), ?_, ⟨hid.symm, hrating.symm, rfl⟩⟩
      exact Log.mem_decoded.mpr (Log.mem_after _ hev (Nat.lt_of_not_le hle) hdone.retained)

/-- The finished capture. -/
def SnapPc.captured : SnapPc → Option Snapshot
  | .writing snap => some snap
  | _ => none

theorem SnapPc.eq_writing {pc : SnapPc} {snap : Snapshot} (h : pc.captured = some snap) :
    pc = .writing snap := by
  cases pc with
  | writing snap' => exact congrArg SnapPc.writing (Option.some.inj h)
  | _ => cases h

/-- Ten players wait when the snapshot is taken. -/
theorem snapshot_complete_ten :
    ∃ (s : World Config.small) (snap : Snapshot), snap.players.length = 10 ∧
      s.SnapshotComplete snap 10 := by
  have hexec : (Lts.exec World.step (fun s e => s.Steady e) (World.init Config.small)
      (tenArrive (fun i => Int64.ofNat (i + 1)) ++ List.replicate 3 (.snapshot .run))).any
      (fun s => s.snap.captured.any fun snap =>
        snap.lastStreamId = some 10 ∧ snap.players.length = 10) = true := by decide +kernel
  obtain ⟨s, hrun, hdone⟩ := Lts.exists_run_of_exec hexec
  obtain ⟨snap, hsnap, hdone⟩ := (Option.any_eq_true ..).mp hdone
  obtain ⟨hcur, hlen⟩ := of_decide_eq_true hdone
  exact ⟨s, snap, hlen,
    snapshot_complete (hrun.mono of_decide_eq_true) (SnapPc.eq_writing hsnap) hcur⟩

/-- The bucket is copied while the match thread holds its ten players. -/
theorem snapshot_incomplete :
    ¬ ∀ (cfg : Config) (s : World cfg) (snap : Snapshot) (lastId : Nat),
      Lts.Run World.step Lts.Free (World.init cfg) s → s.snap = .writing snap →
      snap.lastStreamId = some lastId → s.SnapshotComplete snap lastId := by
  intro hclaim
  have hexec : (Lts.exec World.step (fun _ _ => true) (World.init Config.small)
      (tenArrive (fun i => Int64.ofNat (i + 1)) ++ List.replicate 7 (.worker (0 : Fin 1) .run)
        ++ List.replicate 3 (.snapshot .run))).any
      (fun s => s.snap.captured.any fun snap =>
        snap.lastStreamId = some 10 ∧ snap.players = [] ∧ s.mem.formed = [] ∧
          s.mem.enqueued.any fun p => p.origin ≤ 10) = true := by decide +kernel
  obtain ⟨s, hrun, hmissed⟩ := Lts.exists_run_of_exec hexec
  obtain ⟨snap, hsnap, hmissed⟩ := (Option.any_eq_true ..).mp hmissed
  obtain ⟨hcur, hnone, hformed, hwaits⟩ := of_decide_eq_true hmissed
  obtain ⟨p, hp, hle⟩ := List.any_eq_true.mp hwaits
  have hin := (hclaim _ s snap 10 hrun.free (SnapPc.eq_writing hsnap) hcur).captured p hp
    (of_decide_eq_true hle) (by rw [hformed]; exact List.forall_mem_nil _)
  rw [hnone] at hin
  cases hin

end Supermatchmaker
