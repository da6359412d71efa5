import Supermatchmaker.Lib.Cells
import Supermatchmaker.Service.Effects
import Supermatchmaker.Snapshots.Store

/-!
# Snapshot and restore

`snapshot_players` reads the buckets one after the other into one list of
`(id, rating)` pairs, and `restore_players` enqueues the pairs of such a list into an
empty pool, where the rating of each decides on its bucket. That the pool comes back
rests on two facts: every entry of a reachable pool is in the bucket its rating maps to
(`Inv.homed`), and enqueueing keeps the order of the list within each bucket
(`restorePlayers_bucket`). What is left is general (`Cells`): `spread` undoes the
reading, and reading undoes `spread` up to the order.

A pool with other bounds keeps the same players, and they end up where their ratings
map to there.
-/

namespace Supermatchmaker

variable {cfg : Config} {τ : Type}

/-- What a snapshot says about an entry. -/
def Player.pair (p : Player τ) : Int64 × UInt32 := (p.id, p.rating)

/-- `Pool::snapshot_players`, of a pool that stands still. -/
def Buckets.snapshotPlayers (bs : Buckets cfg τ) : List (Int64 × UInt32) :=
  (List.finRange cfg.numBuckets).flatMap fun b => (bs b).map Player.pair

/-- The bucket of a pair in the pool of `cfg`. -/
def pairHome (cfg : Config) (x : Int64 × UInt32) : Fin cfg.numBuckets := bucketIndex cfg x.2

/-- Players at home, seen as pairs. -/
theorem Buckets.Homed.pairs {bs : Buckets cfg τ} (h : bs.Homed) :
    Cells.Homed (pairHome cfg) fun b => (bs b).map Player.pair := by
  intro b x hx
  obtain ⟨p, hp, rfl⟩ := List.mem_map.mp hx
  exact h b p hp

/-- Where they are is decided by the pairs. -/
theorem Buckets.homed_of_pairs {bs : Buckets cfg τ}
    (h : Cells.Homed (pairHome cfg) fun b => (bs b).map Player.pair) : bs.Homed :=
  fun b _ hp => h b _ (List.mem_map_of_mem hp)

/-! ## The capture -/

/-- A snapshotter that nobody gets in between of copies what `snapshotPlayers` reads. -/
theorem capture_copies {s : World cfg} {snap : Snapshot} (hsnap : s.snap = .copying 0 snap)
    (hnone : snap.players = []) {k : Nat} (hk : k ≤ cfg.numBuckets) :
    ∃ t snap', Lts.Run World.step (fun _ e => e = .snapshot .run) s t ∧
      t.snap = .copying k snap' ∧ t.mem = s.mem ∧
      snap'.players = ((List.finRange cfg.numBuckets).take k).flatMap s.mem.buckets := by
  induction k with
  | zero => exact ⟨s, snap, .refl, hsnap, rfl, hnone⟩
  | succ k ih =>
    obtain ⟨t, snap', hrun, ht, hmem, hplayers⟩ := ih (Nat.le_of_succ_le hk)
    have hstep : World.step t (.snapshot .run) =
        some { t with snap := .copying (k + 1) (snap'.add (t.mem.buckets ⟨k, hk⟩)) } := by
      show t.snapStep .run = _
      unfold World.snapStep
      rw [ht]
      exact dif_pos hk
    refine ⟨_, _, .tail hrun rfl hstep, rfl, hmem, ?_⟩
    have hlen : k < (List.finRange cfg.numBuckets).length := by rwa [List.length_finRange]
    have hget : (List.finRange cfg.numBuckets)[k] = ⟨k, hk⟩ := List.getElem_finRange hlen
    rw [List.take_succ_eq_append_getElem hlen, hget, List.flatMap_append, ← hplayers, ← hmem]
    exact congrArg _ (List.flatMap_singleton _ _).symm

/-- A capture that nobody disturbs copies the pool bucket by bucket. -/
theorem captured_pairs {s : World cfg} {snap : Snapshot} (hsnap : s.snap = .copying 0 snap)
    (hnone : snap.players = []) :
    ∃ t snap', Lts.Run World.step (fun _ e => e = .snapshot .run) s t ∧
      t.snap = .writing snap' ∧
      snap'.players.map Player.pair = s.mem.buckets.snapshotPlayers := by
  obtain ⟨t, snap', hrun, ht, hmem, hplayers⟩ := capture_copies hsnap hnone (Nat.le_refl _)
  have hstep : World.step t (.snapshot .run) = some { t with snap := .writing snap' } := by
    show t.snapStep .run = _
    unfold World.snapStep
    rw [ht]
    exact dif_neg (Nat.lt_irrefl _)
  refine ⟨_, snap', .tail hrun rfl hstep, rfl, ?_⟩
  rw [hplayers, List.take_of_length_le (by rw [List.length_finRange]), List.map_flatMap]
  rfl

/-! ## Restoring -/

/-- `enqueue` goes to the end of one bucket. -/
theorem enqueue_bucket (m : Matcher cfg τ) (id : Int64) (rating : UInt32) (origin : τ)
    (b : Fin cfg.numBuckets) : ((m.enqueue id rating origin).buckets b).map Player.pair =
      (m.buckets b).map Player.pair ++
        if pairHome cfg (id, rating) = b then [(id, rating)] else [] := by
  let home := pairHome cfg (id, rating)
  have hbuckets : (m.enqueue id rating origin).buckets =
      m.buckets.set home (m.buckets home ++ [⟨id, rating, m.now, m.enqueued.length, origin⟩]) :=
    rfl
  rw [hbuckets]
  by_cases hb : home = b
  · rw [hb, Buckets.set_self, List.map_append, if_pos hb]
    rfl
  · rw [Buckets.set_of_ne _ fun hne => hb hne.symm, if_neg hb, List.append_nil]

/-- Each bucket gets its players at the back, in the order of the list. -/
theorem restorePlayers_bucket (players : List (Player Nat)) (b : Fin cfg.numBuckets) :
    ∀ m : Matcher cfg Nat, ((restorePlayers m players).buckets b).map Player.pair =
      (m.buckets b).map Player.pair ++
        Cells.spread (pairHome cfg) (players.map Player.pair) b := by
  induction players with
  | nil => exact fun m => (List.append_nil _).symm
  | cons p players ih =>
    intro m
    show ((restorePlayers (m.enqueue p.id p.rating p.origin) players).buckets b).map _ = _
    rw [ih, enqueue_bucket, List.map_cons, Cells.spread_cons, List.append_assoc]
    rfl

/-- Into an empty pool, each bucket gets just those of its players. -/
theorem restorePlayers_empty {m : Matcher cfg Nat} (hempty : ∀ b, m.buckets b = [])
    (players : List (Player Nat)) (b : Fin cfg.numBuckets) :
    ((restorePlayers m players).buckets b).map Player.pair =
      Cells.spread (pairHome cfg) (players.map Player.pair) b := by
  rw [restorePlayers_bucket, hempty b]
  rfl

/-- Restored players are at home. -/
theorem restorePlayers_homed {m : Matcher cfg Nat} (hempty : ∀ b, m.buckets b = [])
    (players : List (Player Nat)) : (restorePlayers m players).buckets.Homed := by
  have hpairs := funext (restorePlayers_empty hempty players)
  refine Buckets.homed_of_pairs ?_
  rw [hpairs]
  exact Cells.spread_homed _ _

/-- The pool that was restored holds the players it was restored from. -/
theorem restorePlayers_perm {m : Matcher cfg Nat} (hempty : ∀ b, m.buckets b = [])
    (players : List (Player Nat)) :
    (restorePlayers m players).buckets.snapshotPlayers.Perm (players.map Player.pair) := by
  have hread : (restorePlayers m players).buckets.snapshotPlayers =
      (List.finRange cfg.numBuckets).flatMap
        (Cells.spread (pairHome cfg) (players.map Player.pair)) :=
    List.flatMap_congr fun b _ => restorePlayers_empty hempty players b
  rw [hread]
  exact Cells.flatMap_spread (List.nodup_finRange _) fun x _ => List.mem_finRange _

/-- Two pools with the same bounds agree on where a rating belongs. -/
theorem pairHome_eq_iff {cfg' : Config} (hn : cfg'.numBuckets = cfg.numBuckets)
    (hwidth : cfg'.bucketWidth = cfg.bucketWidth) (x : Int64 × UInt32)
    (b : Fin cfg'.numBuckets) : pairHome cfg' x = b ↔ pairHome cfg x = b.cast hn := by
  rw [Fin.ext_iff, Fin.ext_iff]
  simp only [pairHome, bucketIndex, Fin.val_cast, hn, hwidth]

/-- The pool a process boots with. -/
theorem restart_bucket (s : World cfg) (b : Fin cfg.numBuckets) :
    (s.restart.mem.buckets b).map Player.pair =
      Cells.spread (pairHome cfg) (s.recovered.1.map Player.pair) b :=
  restorePlayers_empty (m := Matcher.init cfg Nat s.mem.now) (fun _ => rfl) s.recovered.1 b

/-! ## The files -/

/-- The file of a capture: its cursor as text, and the pairs of its players. -/
structure Records (idText : Cursor → String) (file : Snapshots.Snapshot) (snap : Snapshot) :
    Prop where
  lastStreamId : file.lastStreamId = idText snap.lastStreamId
  players : file.players = snap.players.map Player.pair

/-- The snapshotter's write is `write_snapshot` on the directory. -/
theorem written_files {idText : Cursor → String} {J : Snapshots.Json} {dir : Snapshots.Files}
    {files : List Snapshots.Snapshot} {file : Snapshots.Snapshot} {s t : World cfg}
    {snap : Snapshot} (hsnap : s.snap = .writing snap)
    (hstep : s.step (.snapshot (.written true)) = some t)
    (hholds : Snapshots.Holds J dir files) (hdisk : List.Forall₂ (Records idText) files s.disk)
    (hrec : Records idText file snap) (hnew : Snapshots.Newer file files)
    (hdec : J.Decodes file) :
    ∃ files', Snapshots.Holds J (Snapshots.writeSnapshot J dir file cfg.snapshotsKept) files' ∧
      List.Forall₂ (Records idText) files' t.disk := by
  have ht : t.disk = (snap :: s.disk).take cfg.snapshotsKept := by
    simp only [World.step, World.snapStep, hsnap, if_true, Option.some.injEq] at hstep
    rw [← hstep]
  refine ⟨_, hholds.writeSnapshot hnew hdec cfg.snapshotsKept, ?_⟩
  rw [ht]
  exact List.forall₂_take _ (.cons hrec hdisk)

/-- Boot recovers what `load_latest` finds. -/
theorem recovered_files {idText : Cursor → String} {J : Snapshots.Json} {dir : Snapshots.Files}
    {files : List Snapshots.Snapshot} {s : World cfg} (hholds : Snapshots.Holds J dir files)
    (hdisk : List.Forall₂ (Records idText) files s.disk) :
    (Snapshots.loadLatest J dir = none ∧ s.recovered = ([], none)) ∨
      ∃ file, Snapshots.loadLatest J dir = some file ∧
        file.players = s.recovered.1.map Player.pair ∧
        file.lastStreamId = idText s.recovered.2 := by
  rw [hholds.loadLatest]
  rcases recovered_cases s with ⟨hnone, hrec⟩ | ⟨snap, rest, hsome, hrec⟩
  · rw [hnone] at hdisk
    cases hdisk
    exact .inl ⟨rfl, hrec⟩
  · rw [hsome] at hdisk
    cases hdisk with
    | cons hfile _ =>
      refine .inr ⟨_, rfl, ?_⟩
      rw [hrec]
      exact ⟨hfile.players, hfile.lastStreamId⟩

/-! ## There and back -/

/-- **Snapshot, then restore**: a reachable pool comes back bucket by bucket in a pool
with the same bounds; in any other, the same players are all where they belong. Only
the pairs of `players` matter. -/
theorem restore_snapshot {now : Nat} {m : Matcher cfg τ}
    (hrun : Lts.Run Matcher.step Lts.Free (Matcher.init cfg τ now) m) {cfg' : Config}
    {m₀ : Matcher cfg' Nat} (hempty : ∀ b, m₀.buckets b = []) {players : List (Player Nat)}
    (hplayers : players.map Player.pair = m.buckets.snapshotPlayers) :
    (∀ hn : cfg'.numBuckets = cfg.numBuckets, cfg'.bucketWidth = cfg.bucketWidth → ∀ b,
      ((restorePlayers m₀ players).buckets b).map Player.pair =
        (m.buckets (b.cast hn)).map Player.pair) ∧
    (restorePlayers m₀ players).buckets.snapshotPlayers.Perm m.buckets.snapshotPlayers ∧
    (restorePlayers m₀ players).buckets.Homed := by
  refine ⟨fun hn hwidth b => ?_, hplayers ▸ restorePlayers_perm hempty players,
    restorePlayers_homed hempty players⟩
  have hsame : Cells.spread (pairHome cfg') (players.map Player.pair) b =
      Cells.spread (pairHome cfg) (players.map Player.pair) (b.cast hn) :=
    List.filter_congr fun x _ => decide_eq_decide.mpr (pairHome_eq_iff hn hwidth x b)
  rw [restorePlayers_empty hempty, hsame, hplayers]
  exact Cells.spread_flatMap (run_inv hrun).homed.pairs (List.nodup_finRange _)
    (List.mem_finRange _)

/-- Three players of two buckets, restored into two and into one. -/
theorem restore_snapshot_three :
    ∃ (m : Matcher Config.pair Nat) (players : List (Player Nat)),
      m.buckets.snapshotPlayers = [(1, 50), (3, 70), (2, 150)] ∧
      (∀ b, ((restorePlayers (Matcher.init Config.pair Nat 5) players).buckets b).map
        Player.pair = (m.buckets b).map Player.pair) ∧
      (restorePlayers (Matcher.init Config.small Nat 5) players).buckets.Homed := by
  let m := (((Matcher.init Config.pair Nat 0).enqueue 1 50 0).enqueue 2 150 1).enqueue 3 70 2
  have hrun : Lts.Run Matcher.step Lts.Free (Matcher.init Config.pair Nat 0) m :=
    .tail (.tail (.tail .refl (e := .enqueue 1 50 0) trivial rfl)
      (e := .enqueue 2 150 1) trivial rfl) (e := .enqueue 3 70 2) trivial rfl
  let players := (List.finRange 2).flatMap m.buckets
  have hplayers : players.map Player.pair = m.buckets.snapshotPlayers := by decide
  have hpair : ∀ b, (Matcher.init Config.pair Nat 5).buckets b = [] := fun _ => rfl
  have hsmall : ∀ b, (Matcher.init Config.small Nat 5).buckets b = [] := fun _ => rfl
  exact ⟨m, players, by decide, (restore_snapshot hrun hpair hplayers).1 rfl rfl,
    (restore_snapshot hrun hsmall hplayers).2.2⟩

end Supermatchmaker
