import Supermatchmaker.Lib.Arc
import Supermatchmaker.Matcher.Lone

/-!
# The carousel

The tickets of all match threads come from one counter that goes up by `STRIDE`, and
a ticket's window is `STRIDE` buckets from its value on, counted round and round
(`window_eq_arc`). So the windows of consecutive tickets lie end to end on a ring of
`NUM_BUCKETS`, whatever the two numbers are, and the facts of `Lib.Arc` are facts
about the carousel (`carousel_covers`): one revolution scans every bucket, and
threads that are less than a revolution apart never claim a bucket twice.

The counter is a `u64`. Where it wraps around the windows are not end to end any
more, unless `NUM_BUCKETS` divides `2 ^ 64`.

`run_claims` is what this says about the service: whichever threads take the tickets
and whatever happens in between, the windows claimed in a run are the windows of
consecutive tickets, in their order.
-/

namespace Supermatchmaker

variable {cfg : Config} {τ : Type}

/-- How many tickets take the carousel once around. -/
def revolution (cfg : Config) : Nat := (cfg.numBuckets + cfg.stride - 1) / cfg.stride

/-- The last window of a revolution begins less than a ring after the first. -/
theorem revolution_lt (cfg : Config) : (revolution cfg - 1) * cfg.stride < cfg.numBuckets := by
  have hn := cfg.numBuckets_pos
  have hle := Nat.div_mul_le_self (cfg.numBuckets + cfg.stride - 1) cfg.stride
  unfold revolution
  rw [Nat.sub_mul, Nat.one_mul]
  omega

theorem window_eq_arc (cfg : Config) (start : Nat) :
    window cfg start = Ring.arc cfg.numBuckets_pos start cfg.stride := rfl

/-- A revolution is long enough to go once around. -/
theorem numBuckets_le_revolution (cfg : Config) : cfg.numBuckets ≤ revolution cfg * cfg.stride := by
  have hs : 0 < cfg.stride := Nat.pos_of_ne_zero cfg.constraints.2.2.2
  have hdiv := Nat.div_add_mod (cfg.numBuckets + cfg.stride - 1) cfg.stride
  have hmod := Nat.mod_lt (cfg.numBuckets + cfg.stride - 1) hs
  unfold revolution
  rw [Nat.mul_comm]
  omega

namespace Matcher

/-- The window of the `k`-th ticket from now, `k = 0` being the next. -/
def nthWindow (m : Matcher cfg τ) (k : Nat) : List (Fin cfg.numBuckets) :=
  window cfg ((m.ticket + UInt64.ofNat k * UInt64.ofNat cfg.stride).toNat % cfg.numBuckets)

/-- As long as the counter does not wrap around, the `k`-th window from now lies `k`
strides on. -/
theorem nthWindow_eq_arc (m : Matcher cfg τ) {k : Nat}
    (h : m.ticket.toNat + k * cfg.stride < 18446744073709551616) :
    m.nthWindow k = Ring.arc cfg.numBuckets_pos (m.ticket.toNat + k * cfg.stride) cfg.stride := by
  have hvalue : (m.ticket + UInt64.ofNat k * UInt64.ofNat cfg.stride).toNat
      = m.ticket.toNat + k * cfg.stride := by
    rw [← UInt64.ofNat_mul, UInt64.toNat_add,
      UInt64.toNat_ofNat_of_lt' (by unfold UInt64.size; omega)]
    exact Nat.mod_eq_of_lt h
  unfold nthWindow
  rw [hvalue, window_eq_arc, Ring.arc_mod]

/-- The windows of `k` consecutive tickets are one arc. -/
theorem flatMap_nthWindow (m : Matcher cfg τ) {k : Nat}
    (h : m.ticket.toNat + (k - 1) * cfg.stride < 18446744073709551616) :
    (List.range k).flatMap m.nthWindow
      = Ring.arc cfg.numBuckets_pos m.ticket.toNat (k * cfg.stride) := by
  rw [← Ring.flatMap_arc]
  refine List.flatMap_congr fun j hj => m.nthWindow_eq_arc ?_
  have hle : j * cfg.stride ≤ (k - 1) * cfg.stride :=
    Nat.mul_le_mul_right _ (Nat.le_sub_one_of_lt (List.mem_range.mp hj))
  omega

/-- Each bucket is in a window of the next revolution. -/
theorem exists_nthWindow (m : Matcher cfg τ)
    (hspan : m.ticket.toNat + (revolution cfg - 1) * cfg.stride < 18446744073709551616)
    (b : Fin cfg.numBuckets) : ∃ k < revolution cfg, b ∈ m.nthWindow k := by
  have hmem := Ring.mem_arc cfg.numBuckets_pos m.ticket.toNat (numBuckets_le_revolution cfg) b
  rw [← m.flatMap_nthWindow hspan] at hmem
  obtain ⟨k, hk, hb⟩ := List.mem_flatMap.mp hmem
  exact ⟨k, List.mem_range.mp hk, hb⟩

/-! ## The windows of a run -/

/-- The windows a step claims. -/
def claims (m : Matcher cfg τ) :
    MatcherEvent cfg τ → Matcher cfg τ → List (List (Fin cfg.numBuckets))
  | .worker w .run, _ =>
    match m.workers w with
    | .idle => [m.claimed]
    | _ => []
  | _, _ => []

theorem claims_of_not_idle {m m' : Matcher cfg τ} {w : Fin cfg.numWorkers}
    (h : m.workers w ≠ .idle) : m.claims (.worker w .run) m' = [] := by
  cases hpc : m.workers w with
  | idle => exact absurd hpc h
  | _ => simp only [claims, hpc]

/-- The retry thread draws no tickets. -/
theorem retryStep_ticket {m m' : Matcher cfg τ} {e : WorkerEvent} (h : m.retryStep e = some m') :
    m'.ticket = m.ticket := by
  cases e <;> simp only [retryStep, retryRun] at h <;> repeat' split at h
  all_goals first | cases h; rfl | cases h

/-- A step takes the next ticket and claims its window, or leaves the counter alone. -/
theorem step_claims {m m' : Matcher cfg τ} {e : MatcherEvent cfg τ} (h : m.step e = some m') :
    (m.claims e m' = [] ∧ m'.ticket = m.ticket) ∨
      (m.claims e m' = [m.claimed] ∧ m'.ticket = m.ticket + UInt64.ofNat cfg.stride) := by
  cases e with
  | enqueue id rating origin | counted | tick nanos =>
    cases h
    exact Or.inl ⟨rfl, rfl⟩
  | retry e => exact Or.inl ⟨rfl, retryStep_ticket h⟩
  | worker w e =>
    rcases (workerStep_frame h).ticket with ⟨rfl, hidle, hticket⟩ | ⟨hidle, hticket⟩
    · exact Or.inr ⟨by simp only [claims, hidle], hticket⟩
    · refine Or.inl ⟨?_, hticket⟩
      cases e with
      | run => exact claims_of_not_idle (hidle rfl)
      | busy | cmd ok | reply ok => rfl

/-- The log holds the windows of the tickets taken since `m₀`, in their order. -/
structure Claimed (m₀ : Matcher cfg τ) (s : Matcher cfg τ × List (List (Fin cfg.numBuckets))) :
    Prop where
  ticket : s.1.ticket = m₀.ticket + UInt64.ofNat s.2.length * UInt64.ofNat cfg.stride
  windows : s.2 = (List.range s.2.length).map m₀.nthWindow

/-- **Step** of any thread. -/
theorem step_claimed {m₀ : Matcher cfg τ} {s t : Matcher cfg τ × List (List (Fin cfg.numBuckets))}
    {e : MatcherEvent cfg τ} (h : Claimed m₀ s) (hstep : Lts.record step claims s e = some t) :
    Claimed m₀ t := by
  obtain ⟨hs, hlog⟩ := Lts.record_eq_some.mp hstep
  rcases step_claims hs with ⟨hnone, hticket⟩ | ⟨hone, hticket⟩
  · rw [hnone, List.append_nil] at hlog
    exact ⟨by rw [hticket, hlog, h.ticket], by rw [hlog, ← h.windows]⟩
  · rw [hone] at hlog
    have hclaimed : s.1.claimed = m₀.nthWindow s.2.length := by
      unfold Matcher.claimed nthWindow
      rw [h.ticket]
    constructor
    · rw [hticket, hlog, List.length_append, List.length_singleton, UInt64.ofNat_add,
        UInt64.add_mul, ← UInt64.add_assoc, ← h.ticket]
      simp
    · rw [hlog, List.length_append, List.length_singleton, List.range_succ, List.map_append,
        ← h.windows, hclaimed]
      rfl

/-- **Whichever threads take the tickets**, the windows claimed in a run are the windows
of consecutive tickets, in their order. -/
theorem run_claims {m₀ : Matcher cfg τ} {s : Matcher cfg τ × List (List (Fin cfg.numBuckets))}
    (hrun : Lts.Run (Lts.record step claims) Lts.Free (m₀, []) s) : Claimed m₀ s :=
  hrun.inv (fun h _ hs => step_claimed h hs) ⟨by simp, rfl⟩

end Matcher

/-- **Coverage of the carousel**, as long as the ticket counter does not wrap around:
the windows of a revolution's tickets hold every bucket; every index in a window is
one of a bucket; and the windows of `k` tickets that fit into the ring hold no bucket
twice, neither one of them nor two. -/
theorem carousel_covers (m : Matcher cfg τ) :
    (m.ticket.toNat + (revolution cfg - 1) * cfg.stride < 18446744073709551616 →
      ∀ b, ∃ k < revolution cfg, b ∈ m.nthWindow k) ∧
    (∀ k, ∀ b ∈ m.nthWindow k, b.val < cfg.numBuckets) ∧
    ∀ k, m.ticket.toNat + (k - 1) * cfg.stride < 18446744073709551616 →
      k * cfg.stride ≤ cfg.numBuckets →
      (∀ i < k, (m.nthWindow i).Nodup) ∧
      ∀ i < k, ∀ j < k, i ≠ j → (m.nthWindow i).Disjoint (m.nthWindow j) := by
  refine ⟨fun hspan b => ?_, fun k b _ => b.isLt, fun k hspan hfit => ?_⟩
  · exact m.exists_nthWindow hspan b
  · have hnodup := Ring.nodup_arc cfg.numBuckets_pos m.ticket.toNat hfit
    rw [← m.flatMap_nthWindow hspan, List.nodup_flatMap] at hnodup
    obtain ⟨heach, hpairs⟩ := hnodup
    refine ⟨fun i hi => heach i (List.mem_range.mpr hi), fun i hi j hj hne => ?_⟩
    have hsymm : Std.Symm (Function.onFun List.Disjoint m.nthWindow) :=
      ⟨fun _ _ hdisjoint => hdisjoint.symm⟩
    exact hpairs.forall (List.mem_range.mpr hi) (List.mem_range.mpr hj) hne

/-- Seven buckets in windows of two: the fourth ticket of the revolution has the last
bucket, and the first two share none. -/
theorem carousel_covers_seven :
    (∃ k < revolution Config.seven, (6 : Fin 7) ∈ (Matcher.init Config.seven Nat 0).nthWindow k) ∧
    ((Matcher.init Config.seven Nat 0).nthWindow 0).Disjoint
      ((Matcher.init Config.seven Nat 0).nthWindow 1) := by
  obtain ⟨hcovers, _, hapart⟩ := carousel_covers (Matcher.init Config.seven Nat 0)
  exact ⟨hcovers (by decide) (6 : Fin 7),
    (hapart 2 (by decide) (by decide)).2 0 (by decide) 1 (by decide) (by decide)⟩

end Supermatchmaker
