import Supermatchmaker.Matcher.Formation

/-!
# The shared counters

`metrics.rs` is a record of atomic counters, each bumped by a step of its own
next to the event it counts. `Metered` says what a step of a thread of the
matcher does to the two that count matches and waiting players: forming a match
adds one to `matches_formed` and takes ten from `waiting`, and nothing else
touches either.

Both are `u64` and wrap, so they are compared with the real numbers as `UInt64`.
-/

namespace Supermatchmaker

variable {cfg : Config} {τ : Type}

/-- What a step of a match thread or of the retry thread does to the counters. -/
inductive Metered (m m' : Matcher cfg τ) : Prop
  | kept (hf : m'.formed = m.formed) (hn : m'.metrics.matchesFormed = m.metrics.matchesFormed)
      (hw : m'.metrics.waiting = m.metrics.waiting)
  | formed {f : Formed τ} (hf : m'.formed = m.formed ++ [f])
      (hn : m'.metrics.matchesFormed = m.metrics.matchesFormed + 1)
      (hw : m'.metrics.waiting = m.metrics.waiting - 10)

theorem harvested_metered (m : Matcher cfg τ) (w : Fin cfg.numWorkers)
    (taken : List (Fin cfg.numBuckets × Player τ)) : Metered m (m.harvested w taken) := by
  unfold Matcher.harvested
  split
  · exact .kept rfl rfl rfl
  · split <;> exact .kept rfl rfl rfl

/-- The gate counts the match and its players, or nothing. -/
theorem gateStep_metered (m : Matcher cfg τ) (w : Fin cfg.numWorkers) (g : MatchGroup τ) :
    Metered m (m.gateStep w g) := by
  unfold Matcher.gateStep
  by_cases hgap : (optimizeSplit g m.nextMatchId).2 ≤ maxTeamGap (m.anchorWait g)
  · simp only [if_pos hgap]
    exact .formed rfl rfl rfl
  · simp only [if_neg hgap]
    exact .kept rfl rfl rfl

/-- Nothing else in the loop touches the counters. -/
theorem workerRun_metered {m m' : Matcher cfg τ} {w : Fin cfg.numWorkers}
    (h : m.workerRun w = some m') : Metered m m' := by
  unfold Matcher.workerRun at h
  cases hpc : m.workers w with
  | commit f attempt todo clean => simp only [hpc, reduceCtorEq] at h
  | idle | defer f =>
    simp only [hpc, Option.some.injEq] at h
    subst h
    exact .kept rfl rfl rfl
  | density win todo approx | rollback todo | giveBack todo =>
    cases todo <;> simp only [hpc, Option.some.injEq] at h <;> subst h <;> exact .kept rfl rfl rfl
  | gate g =>
    simp only [hpc, Option.some.injEq] at h
    subst h
    exact gateStep_metered m w g
  | peek win todo anchor =>
    cases todo with
    | nil =>
      cases anchor <;> simp only [hpc, Option.some.injEq] at h <;> subst h <;>
        exact .kept rfl rfl rfl
    | cons b todo =>
      simp only [hpc] at h
      split at h
      · cases h
        exact .kept rfl rfl rfl
      · split at h <;> cases h <;> exact .kept rfl rfl rfl
  | drain windowLen pos todo taken =>
    cases todo with
    | nil =>
      simp only [hpc, ite_self, Option.some.injEq] at h
      subst h
      exact harvested_metered m w taken
    | cons b rest =>
      simp only [hpc] at h
      split at h <;> simp only [Option.some.injEq] at h <;> subst h
      · exact harvested_metered m w taken
      · exact .kept rfl rfl rfl

/-- **Every step of a match thread** counts the matches it forms. -/
theorem workerStep_metered {m m' : Matcher cfg τ} {w : Fin cfg.numWorkers} {e : WorkerEvent}
    (h : m.workerStep w e = some m') : Metered m m' := by
  cases e with
  | run => exact workerRun_metered h
  | busy =>
    simp only [Matcher.workerStep] at h
    split at h
    · split at h <;> cases h
      exact .kept rfl rfl rfl
    · cases h
  | cmd ok =>
    simp only [Matcher.workerStep] at h
    split at h <;> cases h
    exact .kept rfl rfl rfl
  | reply ok =>
    simp only [Matcher.workerStep] at h
    split at h
    · split at h
      · split at h <;> cases h
        exact .kept rfl rfl rfl
      · split at h <;> cases h <;> exact .kept rfl rfl rfl
    · cases h

/-- The retry thread counts its own attempts, in other counters. -/
theorem retryStep_metered {m m' : Matcher cfg τ} {e : WorkerEvent} (h : m.retryStep e = some m') :
    Metered m m' := by
  cases e with
  | run =>
    simp only [Matcher.retryStep, Matcher.retryRun] at h
    split at h
    · split at h <;> cases h <;> exact .kept rfl rfl rfl
    · cases h
    · cases h
      exact .kept rfl rfl rfl
  | busy => cases h
  | cmd ok =>
    simp only [Matcher.retryStep] at h
    split at h <;> cases h
    exact .kept rfl rfl rfl
  | reply ok =>
    simp only [Matcher.retryStep] at h
    split at h
    · split at h
      · split at h <;> cases h
        exact .kept rfl rfl rfl
      · cases h
        exact .kept rfl rfl rfl
    · cases h

/-! ## `matches_formed` -/

/-- `matches_formed` counts the matches. -/
def Matcher.Numbered (m : Matcher cfg τ) : Prop :=
  m.metrics.matchesFormed = UInt64.ofNat m.formed.length

theorem Metered.numbered {m m' : Matcher cfg τ} (h : Metered m m') (hm : m.Numbered) :
    m'.Numbered := by
  unfold Matcher.Numbered at hm ⊢
  cases h with
  | kept hf hn _ => rw [hf, hn, hm]
  | formed hf hn _ =>
    rw [hf, hn, hm, List.length_append, List.length_singleton, UInt64.ofNat_add]
    rfl

theorem step_matchesFormed {m m' : Matcher cfg τ} {e : MatcherEvent cfg τ} (hm : m.Numbered)
    (h : m.step e = some m') : m'.Numbered := by
  cases e with
  | worker w e => exact (workerStep_metered h).numbered hm
  | retry e => exact (retryStep_metered h).numbered hm
  | enqueue id rating origin | counted | tick nanos =>
    simp only [Matcher.step, Option.some.injEq] at h
    subst h
    exact hm

/-! ## `waiting` -/

/-- The equation behind `waiting`: together with the players enqueued and not yet
counted (`due`) and ten for each match, it makes up the players enqueued. -/
def Matcher.Balanced (m : Matcher cfg τ) (due : Nat) : Prop :=
  m.metrics.waiting + UInt64.ofNat (due + 10 * m.formed.length) = UInt64.ofNat m.enqueued.length

/-- The queue depth stays balanced when no entry comes in. -/
theorem Metered.balanced {m m' : Matcher cfg τ} {due : Nat} (h : Metered m m')
    (he : m'.enqueued = m.enqueued) (hm : m.Balanced due) : m'.Balanced due := by
  unfold Matcher.Balanced at hm ⊢
  cases h with
  | kept hf _ hw => rw [hf, hw, he, hm]
  | formed hf _ hw =>
    have hten : due + 10 * (m.formed.length + 1) = due + 10 * m.formed.length + 10 := by omega
    rw [hf, hw, he, List.length_append, List.length_singleton, hten, ← hm,
      UInt64.ofNat_add (due + 10 * m.formed.length) 10]
    show m.metrics.waiting - 10 + (_ + 10) = _
    rw [UInt64.add_comm _ 10, ← UInt64.add_assoc, UInt64.sub_add_cancel]

/-- An enqueued player is due. -/
theorem enqueue_balanced {m : Matcher cfg τ} {due : Nat} (hm : m.Balanced due) (id : Int64)
    (rating : UInt32) (origin : τ) : (m.enqueue id rating origin).Balanced (due + 1) := by
  unfold Matcher.Balanced at hm ⊢
  have hsum : due + 1 + 10 * m.formed.length = due + 10 * m.formed.length + 1 := by omega
  show m.metrics.waiting + UInt64.ofNat (due + 1 + 10 * m.formed.length)
    = UInt64.ofNat (m.enqueued ++ [_]).length
  rw [List.length_append, List.length_singleton, UInt64.ofNat_add m.enqueued.length 1, ← hm, hsum,
    UInt64.ofNat_add _ 1, UInt64.add_assoc]

/-- Counting pays off what is due. -/
theorem count_balanced {m : Matcher cfg τ} {due n : Nat} (hm : m.Balanced (due + n)) :
    (m.count (UInt64.ofNat n)).Balanced due := by
  unfold Matcher.Balanced at hm ⊢
  have hsum : due + n + 10 * m.formed.length = n + (due + 10 * m.formed.length) := by omega
  show m.metrics.waiting + UInt64.ofNat n + UInt64.ofNat (due + 10 * m.formed.length)
    = UInt64.ofNat m.enqueued.length
  rw [← hm, hsum, UInt64.ofNat_add n, UInt64.add_assoc]

theorem init_balanced (now : Nat) : (Matcher.init cfg τ now).Balanced 0 := rfl

end Supermatchmaker
