/-!
# Startup configuration

`main` reads every setting from the environment, collects the problems it finds
and refuses to start when there is one. `Settings` are the parsed values (the
ones the modelled code reads), `Settings.errors` is the range check of
`main.rs` that follows the parsing, and a `Config` is a `Settings` that passed:
the service never runs with anything else.

A `usize` is a `Nat` here: the only arithmetic on these values is on indices of
vectors that were allocated, which stays below `2 ^ 64`. The `u32` and `u64`
settings keep their width.
-/

namespace Supermatchmaker

/-- The settings the modelled threads and handlers read. -/
structure Settings where
  statusTtlSecs : UInt64
  playerCacheTtlSecs : UInt64
  numBuckets : Nat
  bucketWidth : UInt32
  numWorkers : Nat
  stride : Nat
  snapshotSecs : UInt64
  snapshotsKept : Nat
  deriving DecidableEq, Repr

/-- The sanity constraints "beyond mere presence", in the order `main` checks
them. -/
def Settings.errors (s : Settings) : List String :=
  (if s.numBuckets = 0 then ["NUM_BUCKETS must be > 0"] else [])
    ++ (if s.bucketWidth = 0 then ["BUCKET_WIDTH must be > 0"] else [])
    ++ (if s.numWorkers = 0 then ["NUM_WORKERS must be > 0"] else [])
    ++ (if s.stride = 0 then ["STRIDE must be > 0"] else [])

/-- Settings `main` starts with. -/
structure Config extends Settings where
  accepted : toSettings.errors = []

namespace Config

variable (cfg : Config)

/-- Each constraint by itself. -/
theorem constraints : cfg.numBuckets ≠ 0 ∧ cfg.bucketWidth ≠ 0 ∧ cfg.numWorkers ≠ 0 ∧
    cfg.stride ≠ 0 := by
  have h := cfg.accepted
  simp only [Settings.errors, List.append_eq_nil_iff, ite_eq_right_iff, reduceCtorEq,
    imp_false] at h
  exact ⟨h.1.1.1, h.1.1.2, h.1.2, h.2⟩

theorem numBuckets_pos : 0 < cfg.numBuckets := Nat.pos_of_ne_zero cfg.constraints.1

/-- The smallest service that matches anyone: one bucket, one match thread. -/
def small : Config where
  statusTtlSecs := 60
  playerCacheTtlSecs := 60
  numBuckets := 1
  bucketWidth := 100
  numWorkers := 1
  stride := 1
  snapshotSecs := 60
  snapshotsKept := 3
  accepted := by decide

/-- Two match threads whose windows are the same two buckets. -/
def pair : Config where
  statusTtlSecs := 60
  playerCacheTtlSecs := 60
  numBuckets := 2
  bucketWidth := 100
  numWorkers := 2
  stride := 2
  snapshotSecs := 60
  snapshotsKept := 3
  accepted := by decide

/-- One match thread over seven buckets in windows of two: some windows wrap. -/
def seven : Config where
  statusTtlSecs := 60
  playerCacheTtlSecs := 60
  numBuckets := 7
  bucketWidth := 100
  numWorkers := 1
  stride := 2
  snapshotSecs := 60
  snapshotsKept := 3
  accepted := by decide

end Config

/-- The two threads of `Config.pair`, and the first of its buckets. -/
def firstThread : Fin Config.pair.numWorkers := (0 : Fin 2)

/-- The other one. -/
def secondThread : Fin Config.pair.numWorkers := (1 : Fin 2)

/-- The lower of its two buckets. -/
def firstBucket : Fin Config.pair.numBuckets := (0 : Fin 2)

/-- The thread of `Config.small`. -/
def smallThread : Fin Config.small.numWorkers := (0 : Fin 1)

/-- The thread of `Config.seven`. -/
def onlyThread : Fin Config.seven.numWorkers := (0 : Fin 1)

end Supermatchmaker
