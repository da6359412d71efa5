import Supermatchmaker.Matcher.Formation

/-!
# The order of the queues

The peek and the choice of the anchor rest on every queue being sorted by
`enqueued_at`, the longest-waiting player in front. Appending keeps that, and so
does popping. `rollback` and `return_group` put each player in front of whatever
the queue is by then: with an older player there, put back by another thread in
the meantime, the order is gone.

`sorted_iff_inFront` says exactly which put-back breaks it. `sorted_of_exclusive`
is the reason one would expect it to hold: as long as no thread takes players from
a bucket of which another thread has some in hand, what a thread has in hand still
fits in front of the queue it came from.
-/

namespace Supermatchmaker

variable {cfg : Config} {τ : Type}

/-! ## Sorted queues -/

/-- Oldest first. -/
def Aged (q : List (Player τ)) : Prop := q.Pairwise fun x y => x.enqueuedAt ≤ y.enqueuedAt

instance (q : List (Player τ)) : Decidable (Aged q) :=
  inferInstanceAs (Decidable (List.Pairwise _ _))

/-- Every bucket is sorted, so its front is the longest-waiting player in it. -/
def Matcher.Sorted (m : Matcher cfg τ) : Prop := ∀ b, Aged (m.buckets b)

instance (m : Matcher cfg τ) : Decidable m.Sorted :=
  @Nat.decidableForallFin cfg.numBuckets _ fun b => inferInstanceAs (Decidable (Aged (m.buckets b)))

/-- The player has waited at least as long as the front of the queue, if there is one. -/
def Ahead (p : Player τ) (q : List (Player τ)) : Prop := ∀ x ∈ q.head?, p.enqueuedAt ≤ x.enqueuedAt

instance (p : Player τ) (q : List (Player τ)) : Decidable (Ahead p q) :=
  inferInstanceAs (Decidable (∀ x ∈ q.head?, p.enqueuedAt ≤ x.enqueuedAt))

/-- In front of an aged queue only its head needs to be compared. -/
theorem aged_cons {p : Player τ} {q : List (Player τ)} (hq : Aged q) :
    Aged (p :: q) ↔ Ahead p q := by
  unfold Aged at hq ⊢
  rw [List.pairwise_cons]
  constructor
  · rintro ⟨hall, _⟩ x hx
    exact hall x (List.mem_of_mem_head? hx)
  · intro hfront
    refine ⟨fun y hy => ?_, hq⟩
    cases q with
    | nil => cases hy
    | cons x rest =>
      have hx : p.enqueuedAt ≤ x.enqueuedAt := hfront x rfl
      rcases List.mem_cons.mp hy with rfl | hy
      · exact hx
      · exact hx.trans ((List.pairwise_cons.mp hq).1 y hy)

/-- A queue stays aged when an entry no older than any is put at its end. -/
theorem aged_concat {p : Player τ} {q : List (Player τ)} (hq : Aged q)
    (hp : ∀ x ∈ q, x.enqueuedAt ≤ p.enqueuedAt) : Aged (q ++ [p]) := by
  unfold Aged at hq ⊢
  rw [List.pairwise_append]
  refine ⟨hq, List.pairwise_singleton .., fun x hx y hy => ?_⟩
  rw [List.mem_singleton.mp hy]
  exact hp x hx

/-- Nobody was enqueued in the future. -/
def Matcher.Past (m : Matcher cfg τ) : Prop := ∀ p ∈ m.enqueued, p.enqueuedAt ≤ m.now

/-! ## Which put-back breaks it -/

/-- A player that is put back fits in front of the queue. -/
def Matcher.InFront (m : Matcher cfg τ) : MatcherEvent cfg τ → Prop
  | .worker w _ => ∀ bp ∈ (m.workers w).puts, Ahead bp.2 (m.buckets bp.1)
  | .enqueue .. | .counted | .retry _ | .tick _ => True

instance (m : Matcher cfg τ) (e : MatcherEvent cfg τ) : Decidable (m.InFront e) :=
  match e with
  | .worker w _ => inferInstanceAs
      (Decidable (∀ bp ∈ (m.workers w).puts, Ahead bp.2 (m.buckets bp.1)))
  | .enqueue .. | .counted | .retry _ | .tick _ => .isTrue trivial

/-- The step of a thread that is about to put a player back. -/
theorem workerStep_puts {m m' : Matcher cfg τ} {w : Fin cfg.numWorkers} {e : WorkerEvent}
    {b : Fin cfg.numBuckets} {p : Player τ} (hp : (m.workers w).puts = some (b, p))
    (h : m.workerStep w e = some m') : m'.buckets = m.buckets.pushFront b p := by
  cases hpc : m.workers w with
  | rollback todo =>
    cases todo with
    | nil => rw [hpc] at hp; cases hp
    | cons bp todo =>
      rw [hpc] at hp
      cases hp
      cases e with
      | run =>
        simp only [Matcher.workerStep, Matcher.workerRun, hpc, Option.some.injEq] at h
        subst h
        rfl
      | busy | cmd ok | reply ok => simp only [Matcher.workerStep, hpc, reduceCtorEq] at h
  | giveBack todo =>
    cases todo with
    | nil => rw [hpc] at hp; cases hp
    | cons q todo =>
      rw [hpc] at hp
      cases hp
      cases e with
      | run =>
        simp only [Matcher.workerStep, Matcher.workerRun, hpc, Option.some.injEq] at h
        subst h
        rfl
      | busy | cmd ok | reply ok => simp only [Matcher.workerStep, hpc, reduceCtorEq] at h
  | _ =>
    rw [hpc] at hp
    cases hp

theorem retryStep_now {m m' : Matcher cfg τ} {e : WorkerEvent} (h : m.retryStep e = some m') :
    m'.now = m.now := by
  cases e with
  | run =>
    simp only [Matcher.retryStep, Matcher.retryRun] at h
    split at h
    · split at h <;> cases h <;> rfl
    · cases h
    · cases h
      rfl
  | busy => cases h
  | cmd ok =>
    simp only [Matcher.retryStep] at h
    split at h <;> cases h
    rfl
  | reply ok =>
    simp only [Matcher.retryStep] at h
    split at h
    · split at h
      · split at h <;> cases h
        rfl
      · cases h
        rfl
    · cases h

/-- **Step**: nobody came in later than now. -/
theorem step_past {m m' : Matcher cfg τ} {e : MatcherEvent cfg τ} (hI : Inv m) (hp : m.Past)
    (h : m.step e = some m') : m'.Past := by
  cases e with
  | enqueue id rating origin =>
    simp only [Matcher.step, Option.some.injEq] at h
    subst h
    intro p hmem
    rcases List.mem_append.mp hmem with hmem | hmem
    · exact hp p hmem
    · rw [List.mem_singleton.mp hmem]
      exact Nat.le_refl _
  | counted =>
    simp only [Matcher.step, Option.some.injEq] at h
    subst h
    exact hp
  | worker w e =>
    obtain ⟨pc, hm⟩ := workerStep_move (hI.wf w) hI.homed h
    unfold Matcher.Past
    rw [hm.enqueued, hm.now]
    exact hp
  | retry e =>
    unfold Matcher.Past
    rw [(retryStep_frame h).enqueued, retryStep_now h]
    exact hp
  | tick nanos =>
    simp only [Matcher.step, Option.some.injEq] at h
    subst h
    intro p hmem
    exact (hp p hmem).trans (Nat.le_add_right _ _)

/-- One bucket is rewritten: the order is kept exactly when its new queue is sorted. -/
theorem sorted_set {m m' : Matcher cfg τ} (hs : m.Sorted) {b : Fin cfg.numBuckets}
    {q : List (Player τ)} (hb : m'.buckets = m.buckets.set b q) : m'.Sorted ↔ Aged q := by
  unfold Matcher.Sorted
  rw [hb]
  constructor
  · intro h
    have hq := h b
    rwa [Buckets.set_self] at hq
  · intro hq c
    by_cases hc : c = b
    · subst hc
      rwa [Buckets.set_self]
    · rw [Buckets.set_of_ne _ hc]
      exact hs c

/-- **Step**: the order survives exactly the steps that put nobody in front of an
older player. -/
theorem step_sorted {m m' : Matcher cfg τ} {e : MatcherEvent cfg τ} (hI : Inv m) (hp : m.Past)
    (hs : m.Sorted) (h : m.step e = some m') : m'.Sorted ↔ m.InFront e := by
  have hkeep : m'.buckets = m.buckets → m'.Sorted := by
    intro hb
    unfold Matcher.Sorted
    rw [hb]
    exact hs
  cases e with
  | enqueue id rating origin =>
    simp only [Matcher.step, Option.some.injEq] at h
    subst h
    refine iff_of_true ((sorted_set hs rfl).mpr (aged_concat (hs _) fun x hx => ?_)) trivial
    exact hp x (hI.mem_of_waiting (mem_waiting_of_bucket hx))
  | counted | tick nanos =>
    simp only [Matcher.step, Option.some.injEq] at h
    subst h
    exact iff_of_true hs trivial
  | retry e => exact iff_of_true (hkeep (retryStep_frame h).buckets) trivial
  | worker w e =>
    show m'.Sorted ↔ ∀ bp ∈ (m.workers w).puts, Ahead bp.2 (m.buckets bp.1)
    rcases Option.eq_none_or_eq_some (m.workers w).puts with hputs | ⟨⟨b, p⟩, hputs⟩
    · rw [hputs]
      refine iff_of_true ?_ (fun bp hbp => by cases hbp)
      obtain ⟨pc, hm⟩ := workerStep_move (hI.wf w) hI.homed h
      cases hm.delta with
      | keep hb | form _ hb => exact hkeep hb
      | take b popped q hq hb =>
        -- what is left of a sorted queue is sorted
        have hbucket := hs b
        rw [hq] at hbucket
        exact (sorted_set hs hb).mpr (List.pairwise_append.mp hbucket).2.1
      | give p _ _ _ hp =>
        rw [hputs] at hp
        cases hp
    · rw [hputs, sorted_set hs (workerStep_puts hputs h), aged_cons (hs b)]
      constructor
      · intro hfront bp hbp
        cases hbp
        exact hfront
      · exact fun hall => hall (b, p) rfl

/-- **The order of the queues**: in a run that puts nobody in front of an older
player every bucket is sorted in every state, so that its front has waited
longest, and from there the next step breaks the order exactly when it does. -/
theorem sorted_iff_inFront {now : Nat} {m : Matcher cfg τ}
    (h : Lts.Run Matcher.step Matcher.InFront (Matcher.init cfg τ now) m) :
    m.Sorted ∧
      (∀ b, ∀ x ∈ (m.buckets b).head?, ∀ p ∈ m.buckets b, x.enqueuedAt ≤ p.enqueuedAt) ∧
      ∀ e m', m.step e = some m' → (m'.Sorted ↔ m.InFront e) := by
  have hinv : Inv m ∧ m.Past ∧ m.Sorted :=
    h.inv (I := fun m => Inv m ∧ m.Past ∧ m.Sorted)
      (fun hm hg hs => ⟨step_inv hm.1 hs, step_past hm.1 hm.2.1 hs,
        (step_sorted hm.1 hm.2.1 hm.2.2 hs).mpr hg⟩)
      ⟨init_inv now, nofun, fun _ => List.Pairwise.nil⟩
  obtain ⟨hI, hp, hs⟩ := hinv
  refine ⟨hs, fun b x hx p hmem => ?_, fun e m' hstep => step_sorted hI hp hs hstep⟩
  have hbucket := hs b
  cases hq : m.buckets b with
  | nil =>
    rw [hq] at hx
    cases hx
  | cons y q =>
    rw [hq] at hx hmem hbucket
    cases hx
    rcases List.mem_cons.mp hmem with rfl | hmem
    · exact Nat.le_refl _
    · exact (List.pairwise_cons.mp hbucket).1 p hmem

/-! ## Two threads at the same two buckets -/

/-- Five players in each bucket; both threads have chosen their anchor. -/
def bothPeeked : List (MatcherEvent Config.pair Nat) :=
  (List.range 5).map (fun i => .enqueue (Int64.ofNat i) 50 i)
    ++ (List.range 5).map (fun i => .enqueue (Int64.ofNat (i + 5)) 150 (i + 5))
    ++ List.replicate 7 (.worker firstThread .run) ++ List.replicate 7 (.worker secondThread .run)

/-- Each thread takes one bucket, finds the other one empty, and rolls back. -/
theorem sorted_iff_inFront_pair :
    ∃ m : Matcher Config.pair Nat, (m.buckets (0 : Fin 2)).length = 5 ∧ m.Sorted ∧
      (∀ b, ∀ x ∈ (m.buckets b).head?, ∀ p ∈ m.buckets b, x.enqueuedAt ≤ p.enqueuedAt) ∧
      ∀ e m', m.step e = some m' → (m'.Sorted ↔ m.InFront e) := by
  have hexec : (Lts.exec Matcher.step (fun m e => m.InFront e) (Matcher.init Config.pair Nat 0)
      (bothPeeked ++ .worker (0 : Fin 2) .run :: List.replicate 3 (.worker (1 : Fin 2) .run)
        ++ List.replicate 7 (.worker (0 : Fin 2) .run)
        ++ List.replicate 5 (.worker (1 : Fin 2) .run))).any
      (fun m => (m.buckets (0 : Fin 2)).length = 5) = true := by decide +kernel
  obtain ⟨m, hrun, hfive⟩ := Lts.exists_run_of_exec hexec
  exact ⟨m, of_decide_eq_true hfive, sorted_iff_inFront (hrun.mono of_decide_eq_true)⟩

/-- While the first thread has the old players of the first bucket in hand, a new
one arrives there, and the second thread takes and returns it: after the old ones
are back it is put in front of them. -/
theorem sorted_fails :
    ¬ ∀ cfg, ∀ m : Matcher cfg Nat, Lts.Run Matcher.step Lts.Free (Matcher.init cfg Nat 0) m →
      m.Sorted := by
  intro hclaim
  have hexec : (Lts.exec Matcher.step (fun _ _ => true) (Matcher.init Config.pair Nat 0)
      (bothPeeked ++ [.worker (0 : Fin 2) .run, .tick 1, .enqueue 10 50 10]
        ++ List.replicate 3 (.worker (1 : Fin 2) .run)
        ++ List.replicate 7 (.worker (0 : Fin 2) .run)
        ++ List.replicate 6 (.worker (1 : Fin 2) .run))).any
      (fun m => ¬ m.Sorted) = true := by decide +kernel
  obtain ⟨m, hrun, hbroken⟩ := Lts.exists_run_of_exec hexec
  exact of_decide_eq_true hbroken (hclaim Config.pair m hrun.free)

/-! ## Exclusive use of the buckets -/

/-- No thread pops a bucket of which another thread has players in hand. -/
def Matcher.Exclusive (m : Matcher cfg τ) : MatcherEvent cfg τ → Prop
  | .worker w _ => ∀ windowLen pos b todo taken,
    m.workers w = .drain windowLen pos (b :: todo) taken →
      ∀ w', w' ≠ w → ∀ p ∈ (m.workers w').inOrder, bucketIndex cfg p.rating ≠ b
  | .enqueue .. | .counted | .retry _ | .tick _ => True

/-- The entries of one bucket in a list. -/
def fromBucket (b : Fin cfg.numBuckets) (ps : List (Player τ)) : List (Player τ) :=
  ps.filter fun p => bucketIndex cfg p.rating = b

/-- What each thread has in hand fits in front of the buckets, and no two threads
have players of the same bucket. -/
structure Fits (m : Matcher cfg τ) : Prop where
  fits : ∀ w b, Aged (fromBucket b (m.workers w).inOrder ++ m.buckets b)
  apart : ∀ w w', w ≠ w' → ∀ p ∈ (m.workers w).inOrder, ∀ p' ∈ (m.workers w').inOrder,
    bucketIndex cfg p.rating ≠ bucketIndex cfg p'.rating

theorem fromBucket_append (b : Fin cfg.numBuckets) (ps qs : List (Player τ)) :
    fromBucket b (ps ++ qs) = fromBucket b ps ++ fromBucket b qs :=
  List.filter_append ..

theorem fromBucket_self {b : Fin cfg.numBuckets} {l : List (Player τ)}
    (h : ∀ p ∈ l, bucketIndex cfg p.rating = b) : fromBucket b l = l :=
  List.filter_eq_self.mpr fun p hp => decide_eq_true (h p hp)

theorem fromBucket_none {b : Fin cfg.numBuckets} {l : List (Player τ)}
    (h : ∀ p ∈ l, bucketIndex cfg p.rating ≠ b) : fromBucket b l = [] :=
  List.filter_eq_nil_iff.mpr fun p hp heq => h p hp (of_decide_eq_true heq)

/-- The queue itself is sorted, whatever fits in front of it. -/
theorem Fits.sorted {m : Matcher cfg τ} (hf : Fits m) (w : Fin cfg.numWorkers) : m.Sorted :=
  fun b => (List.pairwise_append.mp (hf.fits w b)).2.1

/-- A move reorders the hand of its own thread only. -/
theorem Move.inOrder {m m' : Matcher cfg τ} {w : Fin cfg.numWorkers} {pc : Pc cfg τ}
    (hm : Move m w pc m') (w' : Fin cfg.numWorkers) :
    (w' = w ∧ (m'.workers w').inOrder = pc.inOrder) ∨
      (w' ≠ w ∧ (m'.workers w').inOrder = (m.workers w').inOrder) := by
  rw [hm.workers]
  by_cases hw : w' = w
  · subst hw
    rw [Function.update_self]
    exact .inl ⟨rfl, rfl⟩
  · rw [Function.update_of_ne hw]
    exact .inr ⟨hw, rfl⟩

/-- Only the hands of `w` changed, and they have players of no bucket that another
thread has players of. -/
theorem Fits.apart_move {m m' : Matcher cfg τ} {w : Fin cfg.numWorkers} {pc : Pc cfg τ}
    (hf : Fits m) (hm : Move m w pc m')
    (hpc : ∀ p ∈ pc.inOrder, ∀ w', w' ≠ w → ∀ p' ∈ (m.workers w').inOrder,
      bucketIndex cfg p.rating ≠ bucketIndex cfg p'.rating) :
    ∀ w₁ w₂, w₁ ≠ w₂ → ∀ p ∈ (m'.workers w₁).inOrder, ∀ p' ∈ (m'.workers w₂).inOrder,
      bucketIndex cfg p.rating ≠ bucketIndex cfg p'.rating := by
  intro w₁ w₂ hne p hp p' hp'
  rcases hm.inOrder w₁ with ⟨rfl, h₁⟩ | ⟨hw₁, h₁⟩ <;> rw [h₁] at hp <;>
    rcases hm.inOrder w₂ with ⟨rfl, h₂⟩ | ⟨hw₂, h₂⟩ <;> rw [h₂] at hp'
  · exact absurd rfl hne
  · exact hpc p hp w₂ hw₂ p' hp'
  · exact (hpc p' hp' w₁ hw₁ p hp).symm
  · exact hf.apart w₁ w₂ hne p hp p' hp'

/-- A move of a thread that is the only one to hold players of the bucket keeps what it holds in
front of the bucket. -/
theorem Move.fits {m m' : Matcher cfg τ} {w : Fin cfg.numWorkers} {e : WorkerEvent} {pc : Pc cfg τ}
    (hI : Inv m) (hf : Fits m) (hg : m.Exclusive (.worker w e)) (hm : Move m w pc m') :
    Fits m' := by
  have hsorted := hf.sorted w
  cases hm.delta with
  | keep hb _ ho =>
    refine ⟨fun w' b => ?_, hf.apart_move hm fun p hp w' hw' => ?_⟩
    · rw [hb]
      rcases hm.inOrder w' with ⟨rfl, h⟩ | ⟨_, h⟩ <;> rw [h]
      · rw [ho]
        exact hf.fits w' b
      · exact hf.fits w' b
    · rw [ho] at hp
      exact hf.apart w w' hw'.symm p hp
  | form f hb _ _ hpc =>
    have hnone : pc.inOrder = [] := by rw [hpc]; rfl
    refine ⟨fun w' b => ?_, hf.apart_move hm fun p hp => ?_⟩
    · rw [hb]
      rcases hm.inOrder w' with ⟨rfl, h⟩ | ⟨_, h⟩ <;> rw [h]
      · rw [hnone]
        exact hsorted b
      · exact hf.fits w' b
    · rw [hnone] at hp
      cases hp
  | take b popped q hq hb _ ho hd =>
    obtain ⟨windowLen, pos, todo, taken, hdrain⟩ := hd
    have hothers := hg windowLen pos b todo taken hdrain
    have hhome : ∀ p ∈ popped, bucketIndex cfg p.rating = b := fun p hp =>
      hI.homed b p (by rw [hq]; exact List.mem_append_left _ hp)
    refine ⟨fun w' c => ?_, hf.apart_move hm fun p hp w' hw' p' hp' => ?_⟩
    · rw [hb]
      rcases hm.inOrder w' with ⟨rfl, h⟩ | ⟨hw, h⟩ <;> rw [h]
      · rw [ho, fromBucket_append]
        by_cases hc : c = b
        · -- what was popped moves from the front of the queue to the end of the hand
          have hfits := hf.fits w' b
          rw [hq] at hfits
          rw [hc, Buckets.set_self, fromBucket_self hhome, List.append_assoc]
          exact hfits
        · rw [Buckets.set_of_ne _ hc,
            fromBucket_none fun p hp heq => hc (heq.symm.trans (hhome p hp)),
            List.append_nil]
          exact hf.fits w' c
      · by_cases hc : c = b
        · have hbucket := hsorted b
          rw [hq] at hbucket
          rw [hc, Buckets.set_self, fromBucket_none (hothers w' hw)]
          exact (List.pairwise_append.mp hbucket).2.1
        · rw [Buckets.set_of_ne _ hc]
          exact hf.fits w' c
    · rw [ho] at hp
      rcases List.mem_append.mp hp with hp | hp
      · exact hf.apart w w' hw'.symm p hp p' hp'
      · rw [hhome p hp]
        exact (hothers w' hw' p' hp').symm
  | give p hb _ ho =>
    have hin : p ∈ (m.workers w).inOrder := by
      rw [ho]
      exact List.mem_append_right _ List.mem_cons_self
    have hfront : Aged (fromBucket (bucketIndex cfg p.rating) pc.inOrder
        ++ p :: m.buckets (bucketIndex cfg p.rating)) := by
      have hfits := hf.fits w (bucketIndex cfg p.rating)
      rw [ho, fromBucket_append, fromBucket_self (l := [p]) (fun x hx => by
        rw [List.mem_singleton.mp hx]), List.append_assoc] at hfits
      exact hfits
    refine ⟨fun w' c => ?_, hf.apart_move hm fun x hx w' hw' => ?_⟩
    · rw [hb]
      unfold Buckets.pushFront
      rcases hm.inOrder w' with ⟨rfl, h⟩ | ⟨hw, h⟩ <;> rw [h]
      · by_cases hc : c = bucketIndex cfg p.rating
        · rw [hc, Buckets.set_self]
          exact hfront
        · have hfits := hf.fits w' c
          rw [ho, fromBucket_append, fromBucket_none (l := [p]) (fun x hx => by
            rw [List.mem_singleton.mp hx]
            exact fun heq => hc heq.symm), List.append_nil] at hfits
          rw [Buckets.set_of_ne _ hc]
          exact hfits
      · by_cases hc : c = bucketIndex cfg p.rating
        · -- nobody else has players of this bucket
          rw [hc, Buckets.set_self, fromBucket_none fun x hx => hf.apart w' w hw x hx p hin]
          exact (List.pairwise_append.mp hfront).2.1
        · rw [Buckets.set_of_ne _ hc]
          exact hf.fits w' c
    · refine hf.apart w w' hw'.symm x ?_
      rw [ho]
      exact List.mem_append_left _ hx

/-- **Step**: so what is put back fits in front. -/
theorem step_fits {m m' : Matcher cfg τ} {e : MatcherEvent cfg τ} (hI : Inv m) (hp : m.Past)
    (hf : Fits m) (hg : m.Exclusive e) (h : m.step e = some m') : Fits m' := by
  cases e with
  | enqueue id rating origin =>
    simp only [Matcher.step, Option.some.injEq] at h
    subst h
    refine ⟨fun w b => ?_, hf.apart⟩
    show Aged (fromBucket b (m.workers w).inOrder ++ m.buckets.enqueue _ b)
    unfold Buckets.enqueue
    by_cases hb : b = bucketIndex cfg rating
    · rw [hb, Buckets.set_self, ← List.append_assoc]
      refine aged_concat (hf.fits w _) fun x hx => hp x ?_
      rcases List.mem_append.mp hx with hx | hx
      · have hheld : x ∈ content m (.inr (.inl w)) :=
          (m.workers w).held_perm.symm.subset (List.mem_of_mem_filter hx)
        exact hI.mem_enqueued hheld
      · exact hI.mem_of_waiting (mem_waiting_of_bucket hx)
    · rw [Buckets.set_of_ne _ hb]
      exact hf.fits w b
  | counted | tick nanos =>
    simp only [Matcher.step, Option.some.injEq] at h
    subst h
    exact ⟨hf.fits, hf.apart⟩
  | retry e =>
    have hframe := retryStep_frame h
    refine ⟨fun w b => ?_, ?_⟩
    · rw [hframe.workers, hframe.buckets]
      exact hf.fits w b
    · rw [hframe.workers]
      exact hf.apart
  | worker w e =>
    obtain ⟨pc, hm⟩ := workerStep_move (hI.wf w) hI.homed h
    exact hm.fits hI hf hg

/-- **With exclusive use of the buckets** every bucket is sorted in every state; in
particular with a single match thread. -/
theorem sorted_of_exclusive {now : Nat} {m : Matcher cfg τ}
    (h : Lts.Run Matcher.step Matcher.Exclusive (Matcher.init cfg τ now) m) : m.Sorted := by
  have hinv : Inv m ∧ m.Past ∧ Fits m :=
    h.inv (I := fun m => Inv m ∧ m.Past ∧ Fits m)
      (fun hm hg hs => ⟨step_inv hm.1 hs, step_past hm.1 hm.2.1 hs,
        step_fits hm.1 hm.2.1 hm.2.2 hg hs⟩)
      ⟨init_inv now, nofun, ⟨fun _ _ => List.Pairwise.nil, nofun⟩⟩
  have hw : 0 < cfg.numWorkers := Nat.pos_of_ne_zero cfg.constraints.2.2.1
  exact hinv.2.2.sorted ⟨0, hw⟩

end Supermatchmaker
