import Supermatchmaker.Matcher.Counters

/-!
# Who has a formed match

From the gate on a match is never in two hands and never in none: the thread
that formed it has it until `commit_match` returns `Ok` or the match is pushed to
the retry queue, and from then on the queue and the retry thread pass it back and
forth until an `Ok`. The matches that were given an `Ok` are not part of the
memory, so the run is recorded (`Matcher.note`), and the log is the fourth
holder.

`Transfer` is the inversion: one step takes at most one match from one holder to
another. With it the holders together have exactly the matches that were formed
(`Custody.tally`), each as it was formed.
-/

namespace Supermatchmaker

variable {cfg : Config} {τ : Type}

/-! ## The record of a run -/

/-- What the log keeps: who formed which match, and the commits that succeeded. -/
inductive CommitNote (cfg : Config) (τ : Type)
  | formed (w : Fin cfg.numWorkers) (f : Formed τ)
  | returnedOk (f : Formed τ)

/-- The match a thread has in hand. -/
def Pc.hand (pc : Pc cfg τ) : List (Formed τ) := (pc.carried.map Prod.fst).toList

/-- The match the retry thread is working on. -/
def RetryPc.hand (pc : RetryPc τ) : List (Formed τ) := (pc.carried.map Prod.fst).toList

/-- What a step from `m` to `m'` adds to the log. -/
def Matcher.note (m : Matcher cfg τ) : MatcherEvent cfg τ → Matcher cfg τ → List (CommitNote cfg τ)
  | .worker w .run, m' => (m'.formed.drop m.formed.length).map (.formed w)
  | .worker w (.reply true), _ => (m.workers w).hand.map .returnedOk
  | .retry (.reply true), _ => m.retry.hand.map .returnedOk
  | _, _ => []

/-- The matches with an `Ok`. -/
def finished (log : List (CommitNote cfg τ)) : List (Formed τ) :=
  log.filterMap fun
    | .formed _ _ => none
    | .returnedOk f => some f

/-! ## The holders -/

/-- Where a match can be that no match thread has. -/
inductive Shelf
  | queue
  | retry
  | finished
  deriving DecidableEq

instance : Fintype Shelf := ⟨{.queue, .retry, .finished}, fun s => by cases s <;> decide⟩

/-- A match thread, the retry queue, the retry thread, or nobody any more. -/
abbrev Holder (cfg : Config) := Fin cfg.numWorkers ⊕ Shelf

/-- The match each match thread is committing or about to defer. -/
def hands (m : Matcher cfg τ) : Fin cfg.numWorkers → List (Formed τ) := fun w => (m.workers w).hand

/-- The matches in the retry queue. -/
def queued (m : Matcher cfg τ) : List (Formed τ) := m.retryQ.map PendingCommit.result

/-- The matches each holder has. -/
def holding (m : Matcher cfg τ) (log : List (CommitNote cfg τ)) : Holder cfg → List (Formed τ)
  | .inl w => hands m w
  | .inr .queue => queued m
  | .inr .retry => m.retry.hand
  | .inr .finished => finished log

/-! ## One step -/

/-- **What a step does to the matches in custody.** -/
inductive Transfer (m m' : Matcher cfg τ) (notes : List (CommitNote cfg τ)) : Prop
  | still (hh : hands m' = hands m) (hq : queued m' = queued m) (hr : m'.retry.hand = m.retry.hand)
      (hf : m'.formed = m.formed) (hn : notes = [])
  | formed {w : Fin cfg.numWorkers} {f : Formed τ} (hold : hands m w = [])
      (hh : hands m' = Function.update (hands m) w [f]) (hq : queued m' = queued m)
      (hr : m'.retry.hand = m.retry.hand) (hf : m'.formed = m.formed ++ [f])
      (hn : notes = [.formed w f])
  | deferred {w : Fin cfg.numWorkers} {f : Formed τ} (hold : hands m w = [f])
      (hh : hands m' = Function.update (hands m) w []) (hq : queued m' = queued m ++ [f])
      (hr : m'.retry.hand = m.retry.hand) (hf : m'.formed = m.formed) (hn : notes = [])
  | done {w : Fin cfg.numWorkers} {f : Formed τ} (hold : hands m w = [f])
      (hh : hands m' = Function.update (hands m) w []) (hq : queued m' = queued m)
      (hr : m'.retry.hand = m.retry.hand) (hf : m'.formed = m.formed) (hn : notes = [.returnedOk f])
  | taken {f : Formed τ} (hold : m.retry.hand = []) (hr : m'.retry.hand = [f])
      (hq : queued m = f :: queued m') (hh : hands m' = hands m) (hf : m'.formed = m.formed)
      (hn : notes = [])
  | requeued {f : Formed τ} (hold : m.retry.hand = [f]) (hr : m'.retry.hand = [])
      (hq : queued m' = queued m ++ [f]) (hh : hands m' = hands m) (hf : m'.formed = m.formed)
      (hn : notes = [])
  | retried {f : Formed τ} (hold : m.retry.hand = [f]) (hr : m'.retry.hand = [])
      (hq : queued m' = queued m) (hh : hands m' = hands m) (hf : m'.formed = m.formed)
      (hn : notes = [.returnedOk f])

theorem hands_update {m m' : Matcher cfg τ} {w : Fin cfg.numWorkers} (pc : Pc cfg τ)
    (h : m'.workers = Function.update m.workers w pc) :
    hands m' = Function.update (hands m) w pc.hand := by
  funext w'
  unfold hands
  rw [h]
  by_cases hw : w' = w
  · subst hw
    rw [Function.update_self, Function.update_self]
  · rw [Function.update_of_ne hw, Function.update_of_ne hw]

/-- A thread that goes on with the match it has in hand. -/
theorem hands_update_same {m m' : Matcher cfg τ} {w : Fin cfg.numWorkers} {pc : Pc cfg τ}
    (h : m'.workers = Function.update m.workers w pc) (hpc : pc.hand = (m.workers w).hand) :
    hands m' = hands m := by
  rw [hands_update pc h, hpc]
  exact Function.update_eq_self w (hands m)

/-- A step of a match thread that is not committing: it may form a match. -/
theorem transfer_of_move {m m' : Matcher cfg τ} {w : Fin cfg.numWorkers} {pc : Pc cfg τ}
    (hm : Move m w pc m') (hnone : (m.workers w).carried = none) :
    (m'.formed = m.formed ∧ Transfer m m' []) ∨
      ∃ f, m'.formed = m.formed ++ [f] ∧ Transfer m m' [.formed w f] := by
  have hold : (m.workers w).hand = [] := by
    unfold Pc.hand
    rw [hnone]
    rfl
  have hretry : m'.retry.hand = m.retry.hand := by rw [hm.retry]
  have hqueue : m'.retryQ = m.retryQ → queued m' = queued m := by
    intro hq
    unfold queued
    rw [hq]
  cases hm.carry with
  | same hsome => rw [hnone] at hsome; cases hsome
  | deferred hsome => rw [hnone] at hsome; cases hsome
  | none hp hq =>
    have hpc : pc.hand = (m.workers w).hand := by
      rw [hold]
      unfold Pc.hand
      rw [hp]
      rfl
    have hsame : m'.formed = m.formed := by
      cases hm.delta with
      | keep _ hf _ => exact hf
      | take _ _ _ _ _ hf _ => exact hf
      | give _ _ hf _ => exact hf
      | form f _ _ _ hpc' =>
        rw [hpc'] at hp
        cases hp
    exact .inl ⟨hsame, .still (hands_update_same hm.workers hpc) (hqueue hq) hretry hsame rfl⟩
  | @formed f hp hf hq =>
    have hpc : pc.hand = [f] := by
      unfold Pc.hand
      rw [hp]
      rfl
    refine .inr ⟨f, hf, .formed hold ?_ (hqueue hq) hretry hf rfl⟩
    rw [hands_update pc hm.workers, hpc]

/-- A match thread makes a match, keeps it, gets `Ok` for it or puts it into the queue. -/
theorem workerStep_transfer {m m' : Matcher cfg τ} {w : Fin cfg.numWorkers} {e : WorkerEvent}
    (hI : Inv m) (h : m.workerStep w e = some m') : Transfer m m' (m.note (.worker w e) m') := by
  cases e with
  | run =>
    show Transfer m m' ((m'.formed.drop m.formed.length).map (.formed w))
    have hmove : (m.workers w).carried = none →
        Transfer m m' ((m'.formed.drop m.formed.length).map (.formed w)) := by
      intro hnone
      obtain ⟨pc, hm⟩ := workerStep_move (hI.wf w) hI.homed h
      rcases transfer_of_move hm hnone with ⟨hf, ht⟩ | ⟨f, hf, ht⟩
      · rw [hf, List.drop_length]
        exact ht
      · rw [hf, List.drop_left]
        exact ht
    cases hpc : m.workers w with
    | commit f attempt todo clean =>
      simp only [Matcher.workerStep, Matcher.workerRun, hpc, reduceCtorEq] at h
    | defer f =>
      simp only [Matcher.workerStep, Matcher.workerRun, hpc, Option.some.injEq] at h
      subst h
      refine .deferred (w := w) (f := f) ?_ (hands_update .idle rfl) ?_ rfl rfl ?_
      · unfold hands
        rw [hpc]
        rfl
      · unfold queued
        exact List.map_append ..
      · show List.map _ (m.formed.drop m.formed.length) = []
        rw [List.drop_length]
        rfl
    | _ => exact hmove (by rw [hpc]; rfl)
  | busy =>
    simp only [Matcher.workerStep] at h
    split at h
    next hpc =>
      split at h <;> cases h
      refine .still (hands_update_same rfl ?_) rfl rfl rfl rfl
      rw [hpc]
      rfl
    · cases h
  | cmd ok =>
    simp only [Matcher.workerStep] at h
    split at h <;> cases h
    next hpc =>
      refine .still (hands_update_same rfl ?_) rfl rfl rfl rfl
      rw [hpc]
      rfl
  | reply ok =>
    simp only [Matcher.workerStep] at h
    split at h
    next f attempt todo clean hpc =>
      have hold : (m.workers w).hand = [f] := by rw [hpc]; rfl
      by_cases hok : ok
      · subst hok
        rw [if_pos rfl] at h
        split at h <;> cases h
        refine .done (w := w) (f := f) hold (hands_update .idle rfl) rfl rfl rfl ?_
        show (m.workers w).hand.map _ = _
        rw [hold]
        rfl
      · rw [if_neg hok] at h
        rw [Bool.not_eq_true] at hok
        subst hok
        split at h <;> cases h <;>
          exact .still (hands_update_same rfl hold.symm) rfl rfl rfl rfl
    · cases h

/-- The retry thread takes a match out of the queue, keeps it, gets `Ok` for it or puts it back. -/
theorem retryStep_transfer {m m' : Matcher cfg τ} {e : WorkerEvent} (h : m.retryStep e = some m') :
    Transfer m m' (m.note (.retry e) m') := by
  have hm := retryStep_frame h
  have hh : hands m' = hands m := by
    unfold hands
    rw [hm.workers]
  cases e with
  | run =>
    simp only [Matcher.retryStep, Matcher.retryRun] at h
    cases hpc : m.retry with
    | idle =>
      have hold : m.retry.hand = [] := by rw [hpc]; rfl
      simp only [hpc] at h
      split at h <;> cases h
      · exact .still rfl rfl rfl rfl rfl
      next p rest hqueue =>
        refine .taken (f := p.result) hold rfl ?_ rfl rfl rfl
        unfold queued
        rw [hqueue]
        rfl
    | commit p todo clean => simp only [hpc, reduceCtorEq] at h
    | backoff p =>
      simp only [hpc, Option.some.injEq] at h
      subst h
      refine .requeued (f := p.result) ?_ rfl ?_ rfl rfl rfl
      · rw [hpc]
        rfl
      · unfold queued
        exact List.map_append ..
  | busy => cases h
  | cmd ok =>
    simp only [Matcher.retryStep] at h
    split at h <;> cases h
    next hpc =>
      refine .still rfl rfl ?_ rfl rfl
      rw [hpc]
      rfl
  | reply ok =>
    simp only [Matcher.retryStep] at h
    split at h
    next p todo clean hpc =>
      have hold : m.retry.hand = [p.result] := by rw [hpc]; rfl
      by_cases hok : ok
      · subst hok
        rw [if_pos rfl] at h
        split at h <;> cases h
        refine .retried (f := p.result) hold rfl rfl rfl rfl ?_
        show m.retry.hand.map _ = _
        rw [hold]
        rfl
      · rw [if_neg hok] at h
        rw [Bool.not_eq_true] at hok
        subst hok
        cases h
        exact .still rfl rfl hold.symm rfl rfl
    · cases h

/-- **Step**: at most one match changes hands. -/
theorem step_transfer {m m' : Matcher cfg τ} {e : MatcherEvent cfg τ} (hI : Inv m)
    (h : m.step e = some m') : Transfer m m' (m.note e m') := by
  cases e with
  | worker w e => exact workerStep_transfer hI h
  | retry e => exact retryStep_transfer h
  | enqueue id rating origin | counted | tick nanos =>
    simp only [Matcher.step, Option.some.injEq] at h
    subst h
    exact .still rfl rfl rfl rfl rfl

/-! ## The invariant -/

/-- All the matches anyone has, or had until an `Ok`. -/
def custody (m : Matcher cfg τ) (log : List (CommitNote cfg τ)) : Multiset (Formed τ) :=
  (∑ w, (hands m w : Multiset (Formed τ))) + queued m + m.retry.hand + finished log

theorem finished_append (log notes : List (CommitNote cfg τ)) :
    finished (log ++ notes) = finished log ++ finished notes :=
  List.filterMap_append ..

/-- One match moves, or none; or one is added. -/
theorem Transfer.custody {m m' : Matcher cfg τ} {log notes : List (CommitNote cfg τ)}
    (h : Transfer m m' notes) (hc : custody m log = m.formed) :
    custody m' (log ++ notes) = m'.formed := by
  have hsum : ∀ {w l}, hands m' = Function.update (hands m) w l →
      (∑ w, (hands m' w : Multiset (Formed τ))) + (hands m w : Multiset (Formed τ))
        = (∑ w, (hands m w : Multiset (Formed τ))) + (l : Multiset (Formed τ)) := by
    intro w l hh
    rw [hh]
    exact Tally.sum_update (fun l : List (Formed τ) => (l : Multiset (Formed τ))) (hands m) w l
  unfold Supermatchmaker.custody at hc ⊢
  rw [finished_append]
  cases h with
  | still hh hq hr hf hn =>
    rw [hh, hq, hr, hf, hn, ← hc]
    exact congrArg _ (congrArg _ (List.append_nil _))
  | @formed w f hold hh hq hr hf hn =>
    have hw := hsum hh
    rw [hold, Multiset.coe_nil, add_zero] at hw
    rw [hw, hq, hr, hf, hn, ← Multiset.coe_add, ← Multiset.coe_add, ← hc]
    show _ + _ + _ + _ + (_ + 0) = _
    abel
  | @deferred w f hold hh hq hr hf hn =>
    have hw := hsum hh
    rw [hold, Multiset.coe_nil, add_zero] at hw
    rw [hq, hr, hf, hn, ← Multiset.coe_add, ← Multiset.coe_add, ← hc, ← hw]
    show _ + _ + _ + (_ + 0) = _
    abel
  | @done w f hold hh hq hr hf hn =>
    have hw := hsum hh
    rw [hold, Multiset.coe_nil, add_zero] at hw
    rw [hq, hr, hf, hn, ← Multiset.coe_add, ← hc, ← hw]
    show _ + _ + _ + (_ + ([f] : Multiset (Formed τ))) = _
    abel
  | @taken f hold hr hq hh hf hn =>
    have hfirst : (queued m : Multiset (Formed τ)) = [f] + queued m' := by
      rw [hq, ← Multiset.cons_coe, Multiset.coe_singleton, Multiset.singleton_add]
    rw [hh, hr, hf, hn, ← hc, hfirst, hold, ← Multiset.coe_add]
    show _ + _ + _ + (_ + 0) = _ + _ + 0 + _
    abel
  | @requeued f hold hr hq hh hf hn =>
    rw [hh, hr, hf, hn, ← hc, hq, hold, ← Multiset.coe_add, ← Multiset.coe_add]
    show _ + _ + 0 + (_ + 0) = _
    abel
  | @retried f hold hr hq hh hf hn =>
    rw [hh, hr, hf, hn, ← hc, hq, hold, ← Multiset.coe_add]
    show _ + _ + 0 + (_ + ([f] : Multiset (Formed τ))) = _
    abel

/-- Who formed what is in the log. -/
structure Authored (m : Matcher cfg τ) (log : List (CommitNote cfg τ)) : Prop where
  born : ∀ f ∈ m.formed, ∃ w, .formed w f ∈ log
  own : ∀ w, ∀ f ∈ hands m w, .formed w f ∈ log

/-- The log has a note for each match made and none besides. -/
theorem Transfer.authored {m m' : Matcher cfg τ} {log notes : List (CommitNote cfg τ)}
    (h : Transfer m m' notes) (ha : Authored m log) : Authored m' (log ++ notes) := by
  -- what a step that forms nothing and puts nothing into a thread's hands has to show
  have hkeep : m'.formed = m.formed → (∀ w, hands m' w ⊆ hands m w) →
      Authored m' (log ++ notes) := by
    intro hf hsub
    refine ⟨fun f hmem => ?_, fun w f hmem => List.mem_append_left _ (ha.own w f (hsub w hmem))⟩
    rw [hf] at hmem
    obtain ⟨w, hw⟩ := ha.born f hmem
    exact ⟨w, List.mem_append_left _ hw⟩
  have hempty : ∀ {w}, hands m' = Function.update (hands m) w [] →
      ∀ w', hands m' w' ⊆ hands m w' := by
    intro w hh w' f hmem
    rw [hh] at hmem
    by_cases hw : w' = w
    · rw [hw, Function.update_self] at hmem
      cases hmem
    · rwa [Function.update_of_ne hw] at hmem
  cases h with
  | still hh _ _ hf | taken _ _ _ hh hf | requeued _ _ _ hh hf | retried _ _ _ hh hf =>
    exact hkeep hf fun w => by rw [hh]; exact List.Subset.refl _
  | deferred _ hh _ _ hf | done _ hh _ _ hf => exact hkeep hf (hempty hh)
  | @formed w f _ hh _ _ hf hn =>
    rw [hn]
    refine ⟨fun g hmem => ?_, fun w' g hmem => ?_⟩
    · rw [hf] at hmem
      rcases List.mem_append.mp hmem with hmem | hmem
      · obtain ⟨w', hw'⟩ := ha.born g hmem
        exact ⟨w', List.mem_append_left _ hw'⟩
      · rw [List.mem_singleton.mp hmem]
        exact ⟨w, List.mem_append_right _ List.mem_cons_self⟩
    · rw [hh] at hmem
      by_cases hw : w' = w
      · rw [hw, Function.update_self] at hmem
        rw [hw, List.mem_singleton.mp hmem]
        exact List.mem_append_right _ List.mem_cons_self
      · rw [Function.update_of_ne hw] at hmem
        exact List.mem_append_left _ (ha.own w' g hmem)

/-- The whole invariant of a recorded run. -/
structure Custody (m : Matcher cfg τ) (log : List (CommitNote cfg τ)) : Prop where
  inv : Inv m
  founded : Founded m
  numbered : m.Numbered
  tally : custody m log = m.formed
  authored : Authored m log

theorem init_custody (now : Nat) : Custody (Matcher.init cfg τ now) [] where
  inv := init_inv now
  founded := init_founded now
  numbered := rfl
  tally := by simp [custody, hands, queued, finished, Matcher.init, Pc.hand, Pc.carried,
    RetryPc.hand, RetryPc.carried]
  authored := ⟨nofun, nofun⟩

/-- **Step** of the invariant. -/
theorem step_custody {s t : Matcher cfg τ × List (CommitNote cfg τ)} {e : MatcherEvent cfg τ}
    (hc : Custody s.1 s.2) (h : Lts.record Matcher.step Matcher.note s e = some t) :
    Custody t.1 t.2 := by
  obtain ⟨hstep, hlog⟩ := Lts.record_eq_some.mp h
  have htransfer := step_transfer hc.inv hstep
  rw [hlog]
  exact ⟨step_inv hc.inv hstep, step_founded hc.inv hc.founded hstep,
    step_matchesFormed hc.numbered hstep, htransfer.custody hc.tally,
      htransfer.authored hc.authored⟩

/-! ## What it says of each match -/

/-- What "no formed match is dropped or formed again" means. -/
structure Kept (m : Matcher cfg τ) (log : List (CommitNote cfg τ)) : Prop where
  /-- the counter counts the matches, and they are all different -/
  counted : m.metrics.matchesFormed = UInt64.ofNat m.formed.length
  distinct : m.formed.Nodup
  /-- each is with exactly one holder, once, and is what its thread formed -/
  once : ∀ f ∈ m.formed, ∃! h : Holder cfg, f ∈ holding m log h
  nodup : ∀ h : Holder cfg, (holding m log h).Nodup
  born : ∀ f ∈ m.formed, ∃ w, .formed w f ∈ log
  /-- nobody has anything else -/
  known : ∀ h : Holder cfg, ∀ f ∈ holding m log h, f ∈ m.formed
  /-- a match thread has none but its own -/
  own : ∀ w, ∀ f ∈ holding m log (.inl w), .formed w f ∈ log
  /-- after an `Ok` nobody is left to write it -/
  sealed : ∀ f ∈ finished log, ∀ h : Holder cfg, f ∈ holding m log h → h = .inr .finished

/-- A match is made once. -/
theorem Founded.formed_nodup {m : Matcher cfg τ} (hF : Founded m) : m.formed.Nodup :=
  hF.ordinals.of_map _

/-- All holders together. -/
theorem sum_holding (m : Matcher cfg τ) (log : List (CommitNote cfg τ)) :
    ∑ h : Holder cfg, (holding m log h : Multiset (Formed τ)) = custody m log := by
  have hshelf : (Finset.univ : Finset Shelf) = {.queue, .retry, .finished} := rfl
  rw [Fintype.sum_sum_type, hshelf, Finset.sum_insert (by decide), Finset.sum_insert (by decide),
    Finset.sum_singleton]
  show _ + (_ + (_ + _)) = _ + _ + _ + _
  abel

/-- One custodian for each match: what the invariant means. -/
theorem Custody.kept {m : Matcher cfg τ} {log : List (CommitNote cfg τ)} (hc : Custody m log) :
    Kept m log := by
  classical
  have hsum : ∑ h : Holder cfg, (holding m log h : Multiset (Formed τ)) = m.formed := by
    rw [sum_holding, hc.tally]
  have hdistinct := hc.founded.formed_nodup
  have hknown : ∀ h : Holder cfg, ∀ f ∈ holding m log h, f ∈ m.formed := by
    intro h f hf
    rw [← Multiset.mem_coe, ← hsum]
    exact Tally.mem_sum_of_mem (i := h) (Multiset.mem_coe.mpr hf)
  have hplace : ∀ f ∈ m.formed, ∃ h : Holder cfg, (holding m log h).count f = 1 ∧
      ∀ h', f ∈ holding m log h' → h' = h := by
    intro f hf
    have hone : (∑ h : Holder cfg, (holding m log h : Multiset (Formed τ))).count f = 1 := by
      rw [hsum, Multiset.coe_count]
      exact List.count_eq_one_of_mem hdistinct hf
    obtain ⟨h, hcount, huniq⟩ := Tally.count_sum_eq_one hone
    exact ⟨h, by rwa [Multiset.coe_count] at hcount,
      fun h' hf' => huniq h' (Multiset.mem_coe.mpr hf')⟩
  refine ⟨hc.numbered, hdistinct, fun f hf => ?_, fun h => ?_, hc.authored.born, hknown,
    hc.authored.own, fun f hf h hh => ?_⟩
  · obtain ⟨h, hcount, huniq⟩ := hplace f hf
    exact ⟨h, List.count_pos_iff.mp (by omega), huniq⟩
  · rw [List.nodup_iff_count_le_one]
    intro f
    by_cases hf : f ∈ holding m log h
    · obtain ⟨h', hcount, huniq⟩ := hplace f (hknown h f hf)
      rw [huniq h hf, hcount]
    · rw [List.count_eq_zero_of_not_mem hf]
      exact Nat.zero_le _
  · have hin : f ∈ holding m log (.inr .finished) := hf
    obtain ⟨h', _, huniq⟩ := hplace f (hknown _ f hin)
    rw [huniq h hh, huniq _ hin]

/-- **Custody**, in every state of every run of a process: any pattern of failed
commits, any interleaving of the threads. -/
theorem matches_kept {now : Nat} {s : Matcher cfg τ × List (CommitNote cfg τ)}
    (h : Lts.Run (Lts.record Matcher.step Matcher.note) Lts.Free (Matcher.init cfg τ now, []) s) :
    Kept s.1 s.2 := by
  have hc : Custody s.1 s.2 :=
    h.inv (I := fun s => Custody s.1 s.2) (fun hc _ hs => step_custody hc hs) (init_custody now)
  exact hc.kept

/-- Ten players are enqueued and matched, both inline attempts to write the match fail,
and so does the first one of the retry thread; the second one succeeds. -/
def retriedCommit : List (MatcherEvent Config.small Nat) :=
  List.flatten [
    (List.range 10).map fun i => .enqueue (Int64.ofNat i) 100 i,
    List.replicate 8 (.worker smallThread .run),
    [.worker smallThread (.reply false), .worker smallThread (.cmd true),
      .worker smallThread (.reply false), .worker smallThread .run],
    [.retry .run, .retry (.reply false), .retry .run, .retry .run],
    List.replicate 11 (.retry (.cmd true)),
    [.retry (.reply true)]]

/-- A commit fails twice, is deferred, and is finished by the retry thread. -/
theorem matches_kept_retried :
    ∃ s : Matcher Config.small Nat × List (CommitNote Config.small Nat),
      (finished s.2).length = 1 ∧ Kept s.1 s.2 := by
  have hexec : (Lts.exec (Lts.record Matcher.step Matcher.note) (fun _ _ => true)
      (Matcher.init Config.small Nat 0, []) retriedCommit).any
      (fun s => (finished s.2).length = 1) = true := by decide +kernel
  obtain ⟨s, hrun, hdone⟩ := Lts.exists_run_of_exec hexec
  exact ⟨s, of_decide_eq_true hdone, matches_kept hrun.free⟩

end Supermatchmaker
