import Supermatchmaker.Lib.Lts
import Supermatchmaker.Lib.Tally
import Supermatchmaker.Matcher.Moves

/-!
# Conservation of queue entries

At every moment each entry that was ever enqueued is in exactly one place: one
bucket, the hands of one match thread, or one formed match. The places are a
finite family (`Place`), their contents sum to a multiset, and each step of the
process only moves entries between two places (`Delta`), so the sum stays equal
to the log of `enqueue` calls (`Inv.tally`). Entries are distinguishable (their
serials count the calls), so the log has no repetition, and "counted once in the
sum" is "in exactly one place" (`Tally.count_sum_eq_one`).

`Inv` is the whole inductive invariant, `step_inv` one step, `entries_conserved`
the run: any number of match threads, any interleaving with the ingestion
thread, any outcome of a border `try_lock`.
-/

namespace Supermatchmaker

variable {cfg : Config} {τ : Type}

/-! ## Places -/

/-- A bucket, a match thread, or a formed match. -/
abbrev Place (m : Matcher cfg τ) :=
  Fin cfg.numBuckets ⊕ Fin cfg.numWorkers ⊕ Fin m.formed.length

/-- The entries at a place. -/
def content (m : Matcher cfg τ) : Place m → List (Player τ)
  | .inl b => m.buckets b
  | .inr (.inl w) => (m.workers w).held
  | .inr (.inr j) => m.formed[j].group.toList

/-- The entries waiting in the buckets. -/
def inBuckets (m : Matcher cfg τ) : Multiset (Player τ) := ∑ b, (m.buckets b : Multiset _)

/-- The entries match threads have taken out. -/
def inHands (m : Matcher cfg τ) : Multiset (Player τ) := ∑ w, ((m.workers w).held : Multiset _)

/-- The entries of the groups that were accepted. -/
def inMatches (m : Matcher cfg τ) : Multiset (Player τ) :=
  (m.formed.map fun f => (f.group.toList : Multiset (Player τ))).sum

/-- The contents of all places together. -/
theorem sum_content (m : Matcher cfg τ) :
    ∑ pl, (content m pl : Multiset (Player τ)) = inBuckets m + (inHands m + inMatches m) := by
  rw [Fintype.sum_sum_type, Fintype.sum_sum_type]
  congr 2
  exact Fin.sum_univ_fun_getElem m.formed fun f => (f.group.toList : Multiset (Player τ))

/-! ## The invariant -/

/-- The invariant: threads are where their code lets them be, entries are in the bucket of their
rating, serial numbers count the enqueue calls, and every entry is in exactly one place. -/
structure Inv (m : Matcher cfg τ) : Prop where
  wf : ∀ w, (m.workers w).Wf
  homed : m.buckets.Homed
  serials : m.enqueued.map Player.serial = List.range m.enqueued.length
  tally : inBuckets m + (inHands m + inMatches m) = (m.enqueued : Multiset _)

/-- Rewriting one bucket: new total + old queue = old total + new queue. -/
theorem inBuckets_set {m m' : Matcher cfg τ} {b : Fin cfg.numBuckets} {q : List (Player τ)}
    (h : m'.buckets = m.buckets.set b q) :
    inBuckets m' + (m.buckets b : Multiset _) = inBuckets m + (q : Multiset _) := by
  rw [inBuckets, h]
  exact Tally.sum_update (fun l : List (Player τ) => (l : Multiset (Player τ))) m.buckets b q

/-- One thread moves on: new total + old hand = old total + new hand. -/
theorem inHands_update {m m' : Matcher cfg τ} {w : Fin cfg.numWorkers} {pc : Pc cfg τ}
    (h : m'.workers = Function.update m.workers w pc) :
    inHands m' + ((m.workers w).held : Multiset _) = inHands m + (pc.held : Multiset _) := by
  rw [inHands, h]
  exact Tally.sum_update (fun pc : Pc cfg τ => (pc.held : Multiset (Player τ))) m.workers w pc

theorem inBuckets_congr {m m' : Matcher cfg τ} (h : m'.buckets = m.buckets) :
    inBuckets m' = inBuckets m := by
  rw [inBuckets, h, inBuckets]

theorem inMatches_congr {m m' : Matcher cfg τ} (h : m'.formed = m.formed) :
    inMatches m' = inMatches m := by
  rw [inMatches, h, inMatches]

/-- A step of a match thread moves entries and loses none. -/
theorem Delta.tally {m m' : Matcher cfg τ} {w : Fin cfg.numWorkers} {pc : Pc cfg τ}
    (d : Delta m w pc m') (hw : m'.workers = Function.update m.workers w pc) :
    inBuckets m' + (inHands m' + inMatches m') = inBuckets m + (inHands m + inMatches m) := by
  have hands := inHands_update hw
  have hcoe : ∀ pc : Pc cfg τ, (pc.held : Multiset (Player τ)) = pc.inOrder := fun pc =>
    Multiset.coe_eq_coe.mpr pc.held_perm
  rw [hcoe, hcoe] at hands
  cases d with
  | keep hb hf ho =>
    rw [ho] at hands
    rw [inBuckets_congr hb, inMatches_congr hf, add_right_cancel hands]
  | take b popped q hq hb hf ho =>
    have buckets := inBuckets_set hb
    rw [hq, ← Multiset.coe_add, ← add_assoc, add_left_inj] at buckets
    rw [ho, ← Multiset.coe_add, add_comm, add_left_comm, add_right_inj] at hands
    rw [inMatches_congr hf, ← buckets, hands]
    abel
  | give p hb hf ho =>
    have buckets := inBuckets_set hb
    rw [← Multiset.cons_coe, ← Multiset.singleton_add, ← add_assoc, add_left_inj] at buckets
    rw [ho, ← Multiset.coe_add, add_comm _ (([p] : List (Player τ)) : Multiset (Player τ)),
      ← add_assoc, add_left_inj, Multiset.coe_singleton] at hands
    rw [inMatches_congr hf, buckets, ← hands]
    abel
  | form f hb hf ho hpc =>
    have hnone : pc.inOrder = [] := by rw [hpc]; rfl
    rw [hnone, ho, Multiset.coe_nil, add_zero] at hands
    have matches' : inMatches m' = inMatches m + (f.group.toList : Multiset _) := by
      rw [inMatches, hf, List.map_append, List.sum_append, List.map_singleton, List.sum_singleton,
        inMatches]
    rw [inBuckets_congr hb, matches', ← hands]
    abel

/-- Entries are only ever put back where they belong. -/
theorem Delta.homed {m m' : Matcher cfg τ} {w : Fin cfg.numWorkers} {pc : Pc cfg τ}
    (d : Delta m w pc m') (h : m.buckets.Homed) : m'.buckets.Homed := by
  cases d with
  | keep hb => rwa [hb]
  | take b popped q hq hb =>
    rw [hb]
    exact h.set_of_subset fun p hp => by rw [hq]; exact List.mem_append_right _ hp
  | give p hb =>
    rw [hb]
    exact h.pushFront rfl
  | form f hb => rwa [hb]

/-- Every entry stays in, or is held for, the bucket its rating maps to. -/
theorem step_home {m m' : Matcher cfg τ} {e : MatcherEvent cfg τ} (hwf : ∀ w, (m.workers w).Wf)
    (hhome : m.buckets.Homed) (h : m.step e = some m') :
    (∀ w, (m'.workers w).Wf) ∧ m'.buckets.Homed := by
  cases step_change hwf hhome h with
  | enqueued p _ hb _ hw =>
    rw [hw, hb]
    exact ⟨hwf, hhome.enqueue p⟩
  | worker w pc hm =>
    refine ⟨fun w' => ?_, hm.delta.homed hhome⟩
    rw [hm.workers]
    by_cases hww : w' = w
    · subst hww
      rw [Function.update_self]
      exact hm.wf
    · rw [Function.update_of_ne hww]
      exact hwf w'
  | frame hm =>
    rw [hm.workers, hm.buckets]
    exact ⟨hwf, hhome⟩

/-- **Step**: every step of the process preserves the invariant. -/
theorem step_inv {m m' : Matcher cfg τ} {e : MatcherEvent cfg τ} (hI : Inv m)
    (h : m.step e = some m') : Inv m' := by
  obtain ⟨hwf, hhome⟩ := step_home hI.wf hI.homed h
  cases step_change hI.wf hI.homed h with
  | enqueued p hs hb he hw hf _ =>
    refine ⟨hwf, hhome, ?_, ?_⟩
    · rw [he, List.map_append, hI.serials, List.length_append, List.length_singleton,
        List.range_succ, List.map_singleton, hs]
    · have buckets := inBuckets_set hb
      rw [← Multiset.coe_add, add_comm, add_left_comm, add_right_inj] at buckets
      have hands : inHands m' = inHands m := by rw [inHands, hw, inHands]
      rw [he, ← Multiset.coe_add, ← hI.tally, hands, inMatches_congr hf, buckets]
      abel
  | worker w pc hm =>
    obtain ⟨_, hw, he, _, _, _, _, d⟩ := hm
    refine ⟨hwf, hhome, by rw [he]; exact hI.serials, ?_⟩
    rw [d.tally hw, hI.tally, he]
  | frame hm =>
    refine ⟨hwf, hhome, by rw [hm.enqueued]; exact hI.serials, ?_⟩
    have hands : inHands m' = inHands m := by rw [inHands, hm.workers, inHands]
    rw [inBuckets_congr hm.buckets, hands, inMatches_congr hm.formed, hm.enqueued]
    exact hI.tally

theorem init_inv (now : Nat) : Inv (Matcher.init cfg τ now) where
  wf _ := trivial
  homed _ _ h := absurd h List.not_mem_nil
  serials := rfl
  tally := by simp [inBuckets, inHands, inMatches, Matcher.init, Pc.held]

/-- **Run**: the invariant holds in every state a process reaches. -/
theorem run_inv {now : Nat} {m : Matcher cfg τ}
    (h : Lts.Run Matcher.step Lts.Free (Matcher.init cfg τ now) m) : Inv m :=
  h.inv (fun hI _ hs => step_inv hI hs) (init_inv now)

/-! ## What the invariant says of each entry -/

/-- Serial numbers tell the entries apart. -/
theorem Inv.enqueued_nodup {m : Matcher cfg τ} (hI : Inv m) : m.enqueued.Nodup := by
  have hr := List.nodup_range (n := m.enqueued.length)
  rw [← hI.serials] at hr
  exact hr.of_map _

/-- Whoever is anywhere has come in by `enqueue`. -/
theorem Inv.mem_enqueued {m : Matcher cfg τ} (hI : Inv m) {pl : Place m} {p : Player τ}
    (hp : p ∈ content m pl) : p ∈ m.enqueued := by
  have hsum : p ∈ ∑ pl, (content m pl : Multiset (Player τ)) :=
    Tally.mem_sum_of_mem (i := pl) (Multiset.mem_coe.mpr hp)
  rw [sum_content, hI.tally] at hsum
  exact Multiset.mem_coe.mp hsum

/-- An enqueued entry is in exactly one place, and there once. -/
theorem Inv.place {m : Matcher cfg τ} [DecidableEq τ] (hI : Inv m) {p : Player τ}
    (hp : p ∈ m.enqueued) :
    ∃ pl : Place m, (content m pl).count p = 1 ∧ ∀ pl', p ∈ content m pl' → pl' = pl := by
  have hone : (∑ pl, (content m pl : Multiset (Player τ))).count p = 1 := by
    rw [sum_content, hI.tally, Multiset.coe_count]
    exact List.count_eq_one_of_mem hI.enqueued_nodup hp
  obtain ⟨pl, hcount, huniq⟩ := Tally.count_sum_eq_one hone
  exact ⟨pl, by rwa [Multiset.coe_count] at hcount,
    fun pl' hp' => huniq pl' (Multiset.mem_coe.mpr hp')⟩

/-- No place holds an entry twice. -/
theorem Inv.content_nodup {m : Matcher cfg τ} (hI : Inv m) (pl : Place m) :
    (content m pl).Nodup := by
  classical
  rw [List.nodup_iff_count_le_one]
  intro p
  by_cases hp : p ∈ content m pl
  · obtain ⟨pl', hone, huniq⟩ := hI.place (hI.mem_enqueued hp)
    rw [huniq pl hp, hone]
  · rw [List.count_eq_zero_of_not_mem hp]
    exact Nat.zero_le _

/-- What "no entry is lost, duplicated or put in two matches" means. -/
structure Conserved (m : Matcher cfg τ) : Prop where
  /-- entries of different `enqueue` calls are different entries -/
  distinct : m.enqueued.Nodup
  /-- each is in exactly one place, and only once there -/
  once : ∀ p ∈ m.enqueued, ∃! pl : Place m, p ∈ content m pl
  nodup : ∀ pl : Place m, (content m pl).Nodup
  /-- nothing else is anywhere -/
  known : ∀ pl : Place m, ∀ p ∈ content m pl, p ∈ m.enqueued
  /-- a formed match has exactly ten distinct entries -/
  ten : ∀ f ∈ m.formed, f.group.toList.length = 10 ∧ f.group.toList.Nodup
  /-- the final `try_into().ok()` of a drain that took ten never yields `None` -/
  converts : ∀ w windowLen pos todo taken, m.workers w = .drain windowLen pos todo taken →
    10 ≤ taken.length → (tryInto (taken.map Prod.snd)).isSome
  /-- every entry of bucket `i` has `bucket_index(rating) = i` -/
  homed : ∀ b, ∀ p ∈ m.buckets b, bucketIndex cfg p.rating = b

/-- **Conservation of queue entries**, in every reachable state of a process. -/
theorem entries_conserved {now : Nat} {m : Matcher cfg τ}
    (h : Lts.Run Matcher.step Lts.Free (Matcher.init cfg τ now) m) : Conserved m := by
  have hI := run_inv h
  refine ⟨hI.enqueued_nodup, ?_, hI.content_nodup, fun pl p hp => hI.mem_enqueued hp, ?_, ?_,
    hI.homed⟩
  · intro p hp
    classical
    obtain ⟨pl, hone, huniq⟩ := hI.place hp
    exact ⟨pl, List.count_pos_iff.mp (by omega), huniq⟩
  · intro f hf
    refine ⟨f.group.length_toList, ?_⟩
    obtain ⟨j, hj, rfl⟩ := List.getElem_of_mem hf
    exact hI.content_nodup (.inr (.inr ⟨j, hj⟩))
  · intro w windowLen pos todo taken hpc hge
    have hwf := hI.wf w
    rw [hpc] at hwf
    have hten : (taken.map Prod.snd).length = 10 := by
      have := hwf.1
      rw [List.length_map]
      omega
    obtain ⟨g, hg, _⟩ := tryInto_eq_some hten
    rw [hg]
    rfl

/-- Ten players arrive and one match thread forms their match. -/
theorem entries_conserved_small :
    ∃ m : Matcher Config.small Nat, m.formed.length = 1 ∧ Conserved m := by
  have hexec : (Lts.exec Matcher.step (fun _ _ => true) (Matcher.init Config.small Nat 0)
      ((List.range 10).map (fun i => .enqueue (Int64.ofNat i) 100 i)
        ++ List.replicate 8 (.worker (0 : Fin 1) .run))).any
      (fun m => m.formed.length = 1) = true := by decide +kernel
  obtain ⟨m, hrun, hformed⟩ := Lts.exists_run_of_exec hexec
  exact ⟨m, of_decide_eq_true hformed, entries_conserved hrun.free⟩

end Supermatchmaker
