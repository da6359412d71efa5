import Supermatchmaker.Lib.Lts
import Supermatchmaker.Service.Effects

/-!
# How long the ingest stream is kept

The snapshotter sleeps for `SNAPSHOT_INTERVAL_SECS`, writes a snapshot, keeps the
last `SNAPSHOTS_KEPT` files and trims the stream to twice the interval,
"guaranteeing the newest snapshot's offset is never trimmed away". Nothing ties
the trim to the offset: it goes by age alone, and it runs whether or not the
snapshot was written. When the writes fail for two intervals, the entries behind
the newest snapshot's offset are gone (`unwritten_trimmed`), and with
`SNAPSHOTS_KEPT=0`, which the startup check admits, so is every snapshot
(`all_pruned`).

`Timed` is the service with the clock of the stream: when each entry was
appended, hence what `XTRIM MINID` may remove, and when the snapshotter went to
sleep. Nothing needed is ever removed in the runs that keep at least one file
and trim only while whatever the newest snapshot, the cursor or the ingestion
thread has behind it is younger than the retention (`recovery_retained`). The
invariant is one inequality: the stream was trimmed up to none of these ids
(`Core.Resuming`).
-/

namespace Supermatchmaker

/-! ## Clocks -/

/-- `stream_retain_ms`; the product wraps, as it does in a release build. -/
def Config.streamRetainMs (cfg : Config) : UInt64 := cfg.snapshotSecs * 2 * 1000

/-- The least the snapshotter sleeps, a second at a time, in nanoseconds. -/
def Config.napNanos (cfg : Config) : Nat := max 1 cfg.snapshotSecs.toNat * 1000000000

/-- The clock in milliseconds, as Redis and `trim_ingest` read it. -/
def nowMs (nanos : Nat) : UInt64 := UInt64.ofNat (nanos / 1000000)

/-- `now_ms.saturating_sub(max_age_ms)`. -/
def trimCutoff (cfg : Config) (nanos : Nat) : UInt64 :=
  if cfg.streamRetainMs ≤ nowMs nanos then nowMs nanos - cfg.streamRetainMs else 0

variable {cfg : Config}

/-- The service with the clock parts of its ingest ids and of the snapshotter's sleep. -/
structure Timed (cfg : Config) where
  world : World cfg
  /-- the millisecond part of each entry's id, oldest first -/
  stamps : List UInt64
  /-- when the snapshotter went to sleep -/
  asleep : Nat
  /-- ghost: a snapshot was written -/
  saved : Bool

namespace Timed

/-- Nothing was appended or written yet. -/
def init (cfg : Config) : Timed cfg := ⟨World.init cfg, [], 0, false⟩

variable (s : Timed cfg)

/-- A snapshotter that sleeps has slept long enough. -/
def Rested : SnapPc → Prop
  | .sleeping => s.asleep + cfg.napNanos ≤ s.world.mem.now
  | .copying .. => True
  | .writing _ => True
  | .trimming => True

instance (pc : SnapPc) : Decidable (s.Rested pc) :=
  match pc with
  | .sleeping => inferInstanceAs (Decidable (_ ≤ _))
  | .copying .. | .writing _ | .trimming => .isTrue trivial

/-- What the clock permits: an iteration after the sleep, and a trim of entries
that are older than the cutoff (`"~"`: not necessarily of all of them). -/
def Permits : WorldEvent cfg → Prop
  | .snapshot .run => s.Rested s.world.snap
  | .snapshot (.trimmed upTo) =>
    ∀ ms ∈ (s.stamps.take upTo).drop s.world.ingest.stream.trimmed,
      ms < trimCutoff cfg s.world.mem.now
  | _ => True

instance (e : WorldEvent cfg) : Decidable (s.Permits e) :=
  match e with
  | .snapshot .run => inferInstanceAs (Decidable (s.Rested s.world.snap))
  | .snapshot (.trimmed upTo) =>
    List.decidableBAll _ ((s.stamps.take upTo).drop s.world.ingest.stream.trimmed)
  | .snapshot (.written _) | .call .. | .restart | .signup _ | .request _ | .ingest _ | .worker ..
  | .retry _ | .poller _ | .endMatch .. | .expireStatus _ | .expirePlayer _ | .tick _ =>
    .isTrue trivial

/-- When the snapshotter last went to sleep: at the end of an iteration, or at boot. -/
def asleepAfter : WorldEvent cfg → Nat
  | .snapshot (.trimmed _) => s.world.mem.now
  | .restart => s.world.mem.now
  | _ => s.asleep

/-- Whether a snapshot was ever written. -/
def savedAfter : WorldEvent cfg → Bool
  | .snapshot (.written ok) => s.saved || ok
  | _ => s.saved

/-- A step of the service that the clock permits; what it appends is stamped. -/
def step (e : WorldEvent cfg) : Option (Timed cfg) :=
  if s.Permits e then
    (s.world.step e).map fun world =>
      { world := world
        stamps := s.stamps ++ List.replicate
          (world.ingest.stream.lastId - s.world.ingest.stream.lastId) (nowMs s.world.mem.now)
        asleep := s.asleepAfter e
        saved := s.savedAfter e }
  else none

/-- What the retention is for: once a snapshot was written there is one to boot
from, and all that lies behind its offset, or behind the ingestion thread, is
still on the stream. -/
structure Retained (s : Timed cfg) : Prop where
  available : s.saved = true → s.world.disk ≠ []
  newest : ∀ snap ∈ s.world.disk.head?, ∀ cur ∈ snap.lastStreamId,
    ∀ x ∈ s.world.ingest.stream.numbered, cur < x.1 → x ∈ s.world.ingest.stream.after cur
  thread : ∀ p ∈ s.world.ingest.position,
    ∀ x ∈ s.world.ingest.stream.numbered, p < x.1 → x ∈ s.world.ingest.stream.after p

end Timed

/-! ## The ids behind which something is still to be read -/

/-- `P` holds of the newest snapshot's offset, of the shared cursor and of the
ingestion thread's position. -/
structure Core.Resuming (c : Core cfg) (P : Nat → Prop) : Prop where
  newest : ∀ snap ∈ c.disk.head?, ∀ cur ∈ snap.lastStreamId, P cur
  cursor : ∀ cur ∈ c.ingest.cursor, P cur
  position : ∀ p ∈ c.ingest.position, P p

instance (c : Core cfg) (P : Nat → Prop) [DecidablePred P] : Decidable (c.Resuming P) :=
  have : Decidable (∀ snap ∈ c.disk.head?, ∀ cur ∈ snap.lastStreamId, P cur) :=
    @Option.decidableForallMem _ _ (fun snap => Option.decidableForallMem snap.lastStreamId)
      c.disk.head?
  have : Decidable (∀ cur ∈ c.ingest.cursor, P cur) := Option.decidableForallMem c.ingest.cursor
  have : Decidable (∀ p ∈ c.ingest.position, P p) := Option.decidableForallMem c.ingest.position
  decidable_of_iff ((∀ snap ∈ c.disk.head?, ∀ cur ∈ snap.lastStreamId, P cur) ∧
      (∀ cur ∈ c.ingest.cursor, P cur) ∧ ∀ p ∈ c.ingest.position, P p)
    ⟨fun h => ⟨h.1, h.2.1, h.2.2⟩, fun h => ⟨h.newest, h.cursor, h.position⟩⟩

namespace Timed

variable (s : Timed cfg)

/-- Everything behind the id is younger than the retention. -/
def Young (c : Nat) : Prop := ∀ ms ∈ s.stamps.drop c, trimCutoff cfg s.world.mem.now ≤ ms

instance : DecidablePred s.Young := fun c => List.decidableBAll _ (s.stamps.drop c)

/-- At least one file is kept, and the trim runs while all that is still to be read
is younger than the retention. -/
def Lasting : WorldEvent cfg → Prop
  | .snapshot (.written ok) => ok = true → 0 < cfg.snapshotsKept
  | .snapshot (.trimmed _) => s.world.Resuming s.Young
  | _ => True

instance (e : WorldEvent cfg) : Decidable (s.Lasting e) :=
  match e with
  | .snapshot (.written ok) => inferInstanceAs (Decidable (ok = true → 0 < cfg.snapshotsKept))
  | .snapshot (.trimmed _) => inferInstanceAs (Decidable (s.world.Resuming s.Young))
  | .snapshot .run | .call .. | .restart | .signup _ | .request _ | .ingest _ | .worker ..
  | .retry _
  | .poller _ | .endMatch .. | .expireStatus _ | .expirePlayer _ | .tick _ => .isTrue trivial

/-- The invariant. -/
structure Keeping (s : Timed cfg) : Prop where
  sound : Sound s.world.toCore
  stamped : s.stamps.length = s.world.ingest.stream.lastId
  available : s.saved = true → s.world.disk ≠ []
  resuming : s.world.Resuming (s.world.ingest.stream.trimmed ≤ ·)
  capture : ∀ snap ∈ s.world.snap.snapshot, ∀ cur ∈ snap.lastStreamId,
    s.world.ingest.stream.trimmed ≤ cur

end Timed

/-! ## What is written -/

/-- A snapshot that is written comes first, and the oldest may go. -/
theorem written_disk {s t : World cfg} {ok : Bool} (h : s.step (.snapshot (.written ok)) = some t) :
    ∃ snap, t.disk = if ok then (snap :: s.disk).take cfg.snapshotsKept else s.disk := by
  simp only [World.step, World.snapStep] at h
  split at h <;> simp only [Option.some.injEq, reduceCtorEq] at h
  subst h
  exact ⟨_, rfl⟩

/-- Only the snapshotter trims. -/
theorem trimming_of_trimmed {s t : World cfg} {upTo : Nat}
    (h : s.step (.snapshot (.trimmed upTo)) = some t) : s.snap = .trimming := by
  simp only [World.step, World.snapStep] at h
  split at h <;> simp only [Option.some.injEq, reduceCtorEq] at h
  assumption

/-! ## Steps -/

/-- A timed step is a step at its time. -/
theorem Timed.step_eq_some {s t : Timed cfg} {e : WorldEvent cfg} (h : s.step e = some t) :
    s.Permits e ∧ s.world.step e = some t.world ∧
      t.stamps = s.stamps ++ List.replicate
        (t.world.ingest.stream.lastId - s.world.ingest.stream.lastId) (nowMs s.world.mem.now) ∧
      t.saved = s.savedAfter e := by
  unfold Timed.step at h
  split at h
  next hpermits =>
    obtain ⟨world, hworld, rfl⟩ := Option.map_eq_some_iff.mp h
    exact ⟨hpermits, hworld, rfl, rfl⟩
  next => cases h

/-- **What is to be resumed** moves forward only: where all of it lay at `k` or
later, it still does. -/
theorem Effect.resuming {s : World cfg} {e : WorldEvent cfg} {c : Core cfg} {k : Nat}
    (hS : Sound s.toCore) (h : Effect s e c) (hk : k ≤ s.ingest.stream.lastId)
    (hr : s.Resuming (k ≤ ·))
    (hcap : ∀ snap ∈ s.snap.snapshot, ∀ cur ∈ snap.lastStreamId, k ≤ cur) :
    c.Resuming (k ≤ ·) ∧ ∀ snap ∈ c.snap.snapshot, ∀ cur ∈ snap.lastStreamId, k ≤ cur := by
  cases h with
  | @ingest _ ingest _ hstep =>
    refine ⟨⟨hr.newest, fun cur hcur => ?_, fun p hp => ?_⟩, hcap⟩
    · change ingest.cursor = some cur at hcur
      rcases (Ingest.threadStep_frame hstep).2 with hsame | ⟨newest, hpc, _, hnew⟩
      · exact hr.cursor cur (hsame.symm.trans hcur)
      · -- at the end of a batch the cursor moves to the position
        exact hr.position cur ((Ingest.ahead_placing hpc).2.trans (hnew.symm.trans hcur))
    · rcases Ingest.threadStep_position hS.thread hstep hp with ⟨p₀, hp₀, hle⟩ | hend
      · exact (hr.position p₀ hp₀).trans hle
      · rw [hend]
        exact hk
  | begin _ =>
    refine ⟨⟨hr.newest, hr.cursor, hr.position⟩, fun snap hsnap cur hcur => ?_⟩
    rw [List.mem_singleton.mp hsnap] at hcur
    exact hr.cursor cur hcur
  | @copy next old hpc hlt =>
    refine ⟨⟨hr.newest, hr.cursor, hr.position⟩, fun snap hsnap cur hcur => ?_⟩
    rw [List.mem_singleton.mp hsnap] at hcur
    exact hcap old (by rw [hpc]; exact List.mem_cons_self) cur hcur
  | @finish next old hpc hge =>
    refine ⟨⟨hr.newest, hr.cursor, hr.position⟩, fun snap hsnap cur hcur => ?_⟩
    rw [List.mem_singleton.mp hsnap] at hcur
    exact hcap old (by rw [hpc]; exact List.mem_cons_self) cur hcur
  | @written ok old hpc =>
    refine ⟨⟨fun snap hsnap cur hcur => ?_, hr.cursor, hr.position⟩, nofun⟩
    change snap ∈ (if ok then (old :: s.disk).take cfg.snapshotsKept else s.disk).head? at hsnap
    split at hsnap
    · rw [newest_written hsnap] at hcur
      exact hcap old (by rw [hpc]; exact List.mem_cons_self) cur hcur
    · exact hr.newest snap hsnap cur hcur
  | trimmed _ => exact ⟨⟨hr.newest, hr.cursor, hr.position⟩, nofun⟩
  | restart =>
    have hboot : ∀ cur ∈ s.recovered.2, k ≤ cur := by
      intro cur hcur
      rcases recovered_cases s with ⟨_, hrec⟩ | ⟨snap, rest, hdisk, hrec⟩ <;> rw [hrec] at hcur
      · cases hcur
      · exact hr.newest snap (by rw [hdisk]; rfl) cur hcur
    exact ⟨⟨hr.newest, hboot, hboot⟩, nofun⟩
  | _ => exact ⟨⟨hr.newest, hr.cursor, hr.position⟩, hcap⟩

/-- A trim removes nothing that is young enough. -/
theorem Timed.Keeping.trim_le {s : Timed cfg} (hK : s.Keeping) {upTo c : Nat}
    (hpermits : s.Permits (.snapshot (.trimmed upTo))) (hyoung : s.Young c)
    (hle : s.world.ingest.stream.trimmed ≤ c) :
    max s.world.ingest.stream.trimmed (min upTo s.world.ingest.stream.lastId) ≤ c := by
  by_contra hlt
  have hlen := hK.stamped
  have hc : c < s.stamps.length := by omega
  -- the entry right behind `c` would be removed, and is not old enough for that
  have hold : s.stamps[c] < trimCutoff cfg s.world.mem.now := by
    refine hpermits _ (List.mem_drop_iff_getElem.mpr ⟨c - s.world.ingest.stream.trimmed, ?_, ?_⟩)
    · rw [List.length_take]
      omega
    · rw [List.getElem_take]
      congr 1
      omega
  have hnew : trimCutoff cfg s.world.mem.now ≤ s.stamps[c] := by
    refine hyoung _ (List.mem_drop_iff_getElem.mpr ⟨0, ?_, ?_⟩)
    · omega
    · congr 1
  exact absurd hold (UInt64.not_lt.mpr hnew)

/-- The disk changes when a snapshot is written. -/
theorem Effect.disk_eq {s : World cfg} {e : WorldEvent cfg} {c : Core cfg} (h : Effect s e c)
    (hne : ∀ ok, e ≠ .snapshot (.written ok)) : c.disk = s.disk := by
  cases h with
  | written => exact absurd rfl (hne _)
  | _ => rfl

/-- A file that was written and kept is there. -/
theorem Timed.step_available {s t : Timed cfg} {e : WorldEvent cfg} (hK : s.Keeping)
    (hg : s.Lasting e) (hworld : s.world.step e = some t.world) (hsaved : t.saved = s.savedAfter e)
    (h : t.saved = true) : t.world.disk ≠ [] := by
  rw [hsaved] at h
  by_cases hwrite : ∃ ok, e = .snapshot (.written ok)
  · obtain ⟨ok, rfl⟩ := hwrite
    obtain ⟨snap, hdisk⟩ := written_disk hworld
    rw [hdisk]
    split
    next hok =>
      intro hnil
      rcases List.take_eq_nil_iff.mp hnil with hzero | hcons
      · have hkept : 0 < cfg.snapshotsKept := hg hok
        omega
      · cases hcons
    next hok =>
      refine hK.available ?_
      have hor : (s.saved || ok) = true := h
      rw [Bool.or_eq_true] at hor
      exact hor.resolve_right hok
  · have hne : ∀ ok, e ≠ .snapshot (.written ok) := fun ok heq => hwrite ⟨ok, heq⟩
    rw [(step_effect hK.sound.founded hworld).disk_eq hne]
    refine hK.available ?_
    unfold Timed.savedAfter at h
    split at h
    next ok => exact absurd rfl (hne ok)
    next => exact h

/-- **Step**. -/
theorem Timed.step_keeping {s t : Timed cfg} {e : WorldEvent cfg} (hK : s.Keeping)
    (hg : s.Lasting e)
    (h : s.step e = some t) : t.Keeping := by
  obtain ⟨hpermits, hworld, hstamps, hsaved⟩ := Timed.step_eq_some h
  have heff := step_effect hK.sound.founded hworld
  have hS := hK.sound
  -- what the stream is trimmed up to now lies before all that was to be resumed
  have hbefore : t.world.ingest.stream.trimmed ≤ s.world.ingest.stream.lastId ∧
      s.world.Resuming (t.world.ingest.stream.trimmed ≤ ·) ∧
      ∀ snap ∈ s.world.snap.snapshot, ∀ cur ∈ snap.lastStreamId,
        t.world.ingest.stream.trimmed ≤ cur := by
    have hend : s.world.ingest.stream.trimmed ≤ s.world.ingest.stream.lastId :=
      s.world.ingest.stream.trimmed_le
    rcases heff.trimmed_eq with hsame | ⟨upTo, rfl, htrim⟩
    · rw [hsame]
      exact ⟨hend, hK.resuming, hK.capture⟩
    · rw [htrim]
      have hyoung : s.world.Resuming s.Young := hg
      refine ⟨by omega, ⟨fun snap hsnap cur hcur => ?_, fun cur hcur => ?_, fun p hp => ?_⟩, ?_⟩
      · exact hK.trim_le hpermits (hyoung.newest snap hsnap cur hcur)
          (hK.resuming.newest snap hsnap cur hcur)
      · exact hK.trim_le hpermits (hyoung.cursor cur hcur) (hK.resuming.cursor cur hcur)
      · exact hK.trim_le hpermits (hyoung.position p hp) (hK.resuming.position p hp)
      · -- no capture is in progress then
        rw [trimming_of_trimmed hworld]
        nofun
  obtain ⟨hresuming, hcapture⟩ := heff.resuming hS hbefore.1 hbefore.2.1 hbefore.2.2
  refine ⟨heff.sound hS, ?_, Timed.step_available hK hg hworld hsaved, hresuming, hcapture⟩
  have hle := heff.lastId_le
  have hlen := hK.stamped
  rw [hstamps, List.length_append, List.length_replicate]
  omega

theorem Timed.init_keeping : (Timed.init cfg).Keeping where
  sound := init_sound
  stamped := rfl
  available := nofun
  resuming := ⟨nofun, nofun, nofun⟩
  capture := nofun

/-! ## Retention -/

/-- **Retention covers recovery**, after every iteration and in between, in the
runs that keep a file and trim nothing young that is still to be read. -/
theorem recovery_retained {s : Timed cfg}
    (h : Lts.Run Timed.step Timed.Lasting (Timed.init cfg) s) :
    s.Retained := by
  have hK := h.inv (fun hK hg hs => Timed.step_keeping hK hg hs) Timed.init_keeping
  refine ⟨hK.available, fun snap hsnap cur hcur x hx hlt => ?_, fun p hp x hx hlt => ?_⟩
  · exact Log.mem_after _ hx hlt (hK.resuming.newest snap hsnap cur hcur)
  · exact Log.mem_after _ hx hlt (hK.resuming.position p hp)

/-- The events of call `i` of a new user, and the ingestion thread placing it. -/
def arrive (i : Nat) : List (WorldEvent cfg) :=
  [.signup 1500, .ingest .run] ++ queueCall i (Int64.ofNat (i + 1)) ++ .ingest (.reply true) ::
    List.replicate 3 (.ingest .run)

/-- The sleep of a minute and an iteration of the snapshotter. -/
def iterate (ok : Bool) (upTo : Nat) : List (WorldEvent cfg) :=
  .tick 60000000000 :: List.replicate 3 (.snapshot .run)
    ++ [.snapshot (.written ok), .snapshot (.trimmed upTo)]

/-- Two users arrive a minute apart; three minutes later their entries are old,
captured, and trimmed. -/
theorem recovery_retained_trimmed :
    ∃ s : Timed Config.small, s.saved = true ∧ s.world.ingest.stream.trimmed = 2 ∧ s.Retained := by
  have hexec : (Lts.exec Timed.step (fun s e => s.Lasting e) (Timed.init Config.small)
      (arrive 0 ++ iterate true 0 ++ arrive 1 ++ iterate true 0 ++ iterate true 0
        ++ iterate true 2)).any
      (fun s => s.saved = true ∧ s.world.ingest.stream.trimmed = 2) = true := by decide +kernel
  obtain ⟨s, hrun, hdone⟩ := Lts.exists_run_of_exec hexec
  obtain ⟨hsaved, htrimmed⟩ := of_decide_eq_true hdone
  exact ⟨s, hsaved, htrimmed, recovery_retained (hrun.mono of_decide_eq_true)⟩

/-- The first snapshot is written, the next three are not: the second user's entry,
behind the offset of the only snapshot, is trimmed with the third. -/
theorem unwritten_trimmed :
    ¬ ∀ (cfg : Config) (s : Timed cfg), Lts.Run Timed.step Lts.Free (Timed.init cfg) s →
      s.world.snap = .sleeping → s.Retained := by
  intro hclaim
  have hexec : (Lts.exec Timed.step (fun _ _ => true) (Timed.init Config.small)
      (arrive 0 ++ iterate true 0 ++ arrive 1 ++ iterate false 0 ++ iterate false 0
        ++ iterate false 2)).any
      (fun s => (match s.world.snap with | .sleeping => true | _ => false) &&
        (s.world.disk.head?.any fun snap => snap.lastStreamId = some 1) &&
        s.world.ingest.stream.after 1 = [] && s.world.ingest.stream.lastId = 2) = true := by
    decide +kernel
  obtain ⟨s, hrun, hlost⟩ := Lts.exists_run_of_exec hexec
  simp only [Bool.and_eq_true, decide_eq_true_eq, Option.any_eq_true] at hlost
  obtain ⟨⟨⟨hsleep, snap, hsnap, hcur⟩, hnone⟩, hlast⟩ := hlost
  split at hsleep
  next hpc =>
    have hlen : 1 < s.world.ingest.stream.numbered.length := by
      rw [Log.length_numbered]
      omega
    have hid := s.world.ingest.stream.getElem_numbered hlen
    have hkept := (hclaim _ s hrun.free hpc).newest snap hsnap 1 hcur _ (List.getElem_mem hlen)
      (by rw [hid]; decide)
    rw [hnone] at hkept
    cases hkept
  next => cases hsleep

/-- Startup accepts it. -/
def Config.keepNone : Config where
  toSettings := { Config.small.toSettings with snapshotsKept := 0 }
  accepted := by decide

/-- `prune` removes the file that has just been written. -/
theorem all_pruned :
    ∃ s : Timed Config.keepNone, Lts.Run Timed.step Lts.Free (Timed.init Config.keepNone) s ∧
      s.saved = true ∧ s.world.disk = [] := by
  have hexec : (Lts.exec Timed.step (fun _ _ => true) (Timed.init Config.keepNone)
      (iterate true 0)).any (fun s => s.saved && s.world.disk.isEmpty) = true := by decide +kernel
  obtain ⟨s, hrun, hdone⟩ := Lts.exists_run_of_exec hexec
  rw [Bool.and_eq_true] at hdone
  exact ⟨s, hrun.free, hdone.1, List.isEmpty_iff.mp hdone.2⟩

end Supermatchmaker
