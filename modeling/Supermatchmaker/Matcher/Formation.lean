import Supermatchmaker.Matcher.Conserve

/-!
# Formed matches

What the rest of the service needs to know about the matches of one process, as
consequences of the inversion of its step:

- `Flow`: a step lets an entry arrive, turns ten waiting entries into a match, or
  leaves the waiting entries (buckets and hands together) alone;
- `Founded`: each match is the split of its group under the id of its ordinal,
  ordinals are not repeated, and whatever a thread is about to write to Redis
  belongs to a match that was formed.
-/

namespace Supermatchmaker

variable {cfg : Config} {τ : Type}

/-! ## Waiting entries -/

/-- The entries in the buckets and in the hands of the match threads. -/
def waiting (m : Matcher cfg τ) : Multiset (Player τ) := inBuckets m + inHands m

/-- What an event does to the waiting entries. -/
inductive Flow (m : Matcher cfg τ) (e : MatcherEvent cfg τ) (m' : Matcher cfg τ) : Prop
  | still (hw : waiting m' = waiting m) (hf : m'.formed = m.formed) (he : m'.enqueued = m.enqueued)
  | arrived {p : Player τ} (hp : e = .enqueue p.id p.rating p.origin)
      (hw : waiting m' = waiting m + {p}) (hf : m'.formed = m.formed)
      (he : m'.enqueued = m.enqueued ++ [p])
  | formed {f : Formed τ} (hw : waiting m = waiting m' + (f.group.toList : Multiset (Player τ)))
      (hf : m'.formed = m.formed ++ [f]) (he : m'.enqueued = m.enqueued)
      (hr : f.result = (optimizeSplit f.group m.nextMatchId).1) (ho : f.ordinal = m.drawn)
      (hd : m'.drawn = m.drawn + 1)
      (hg : ∃ w we, e = .worker w we ∧ m.Admits (m.workers w))

theorem waiting_congr {m m' : Matcher cfg τ} (hb : m'.buckets = m.buckets)
    (hw : m'.workers = m.workers) : waiting m' = waiting m := by
  unfold waiting inBuckets inHands
  rw [hb, hw]

/-- `enqueue` adds one entry. -/
theorem enqueue_waiting (m : Matcher cfg τ) (id : Int64) (rating : UInt32) (origin : τ) :
    waiting (m.enqueue id rating origin)
      = waiting m + {(⟨id, rating, m.now, m.enqueued.length, origin⟩ : Player τ)} := by
  have hbuckets : (m.enqueue id rating origin).buckets
      = m.buckets.enqueue ⟨id, rating, m.now, m.enqueued.length, origin⟩ := rfl
  have hset := inBuckets_set hbuckets
  rw [← Multiset.coe_add, add_comm, add_left_comm, add_right_inj] at hset
  show inBuckets (m.enqueue id rating origin) + inHands m = inBuckets m + inHands m + _
  rw [hset, Multiset.coe_singleton]
  abel

/-- **Every step** moves entries in one of these ways. -/
theorem step_flow {m m' : Matcher cfg τ} {e : MatcherEvent cfg τ} (hI : Inv m)
    (h : m.step e = some m') : Flow m e m' := by
  have htally := (step_inv hI h).tally
  rw [← add_assoc] at htally
  cases e with
  | enqueue id rating origin =>
    simp only [Matcher.step, Option.some.injEq] at h
    subst h
    exact .arrived (p := ⟨id, rating, m.now, m.enqueued.length, origin⟩) rfl
      (enqueue_waiting m id rating origin) rfl rfl
  | counted =>
    simp only [Matcher.step, Option.some.injEq] at h
    subst h
    exact .still rfl rfl rfl
  | tick nanos =>
    simp only [Matcher.step, Option.some.injEq] at h
    subst h
    exact .still rfl rfl rfl
  | retry e =>
    have hm := retryStep_frame h
    exact .still (waiting_congr hm.buckets hm.workers) hm.formed hm.enqueued
  | worker w e =>
    obtain ⟨pc, hm⟩ := workerStep_move (hI.wf w) hI.homed h
    -- the total did not change, so the waiting entries lost what the matches won
    have htotal : waiting m' + inMatches m' = waiting m + inMatches m := by
      unfold waiting
      rw [add_assoc, add_assoc]
      exact hm.delta.tally hm.workers
    have hsame : m'.formed = m.formed → waiting m' = waiting m := by
      intro hf
      rw [inMatches_congr hf] at htotal
      exact add_right_cancel htotal
    cases hm.delta with
    | keep _ hf _ => exact .still (hsame hf) hf hm.enqueued
    | take _ _ _ _ _ hf _ => exact .still (hsame hf) hf hm.enqueued
    | give _ _ hf _ => exact .still (hsame hf) hf hm.enqueued
    | form f _ hf _ _ hr ho hd hg =>
      refine .formed ?_ hf hm.enqueued hr ho hd ⟨w, e, rfl, hg⟩
      have hmatches : inMatches m' = inMatches m + (f.group.toList : Multiset _) := by
        unfold inMatches
        rw [hf, List.map_append, List.sum_append, List.map_singleton, List.sum_singleton]
      rw [hmatches, ← add_assoc, add_right_comm] at htotal
      exact (add_right_cancel htotal).symm

/-- The matches of a process are only ever added to, one at a time. -/
theorem step_formed {m m' : Matcher cfg τ} {e : MatcherEvent cfg τ} (hI : Inv m)
    (h : m.step e = some m') :
    m'.formed = m.formed ∨ ∃ f, m'.formed = m.formed ++ [f] ∧ f.ordinal = m.drawn := by
  cases step_flow hI h with
  | still _ hf _ => exact .inl hf
  | arrived _ _ hf _ => exact .inl hf
  | @formed f _ hf _ _ ho _ _ => exact .inr ⟨f, hf, ho⟩

/-- A match is formed by a thread at the gate. -/
theorem step_admits {m m' : Matcher cfg τ} {e : MatcherEvent cfg τ} (hI : Inv m)
    (h : m.step e = some m') (hnew : m'.formed ≠ m.formed) :
    ∃ w we, e = .worker w we ∧ m.Admits (m.workers w) := by
  cases step_flow hI h with
  | still _ hf _ => exact absurd hf hnew
  | arrived _ _ hf _ => exact absurd hf hnew
  | formed _ _ _ _ _ _ hg => exact hg

/-- A match formed stays formed. -/
theorem step_formed_subset {m m' : Matcher cfg τ} {e : MatcherEvent cfg τ} (hI : Inv m)
    (h : m.step e = some m') : m.formed ⊆ m'.formed := by
  rcases step_formed hI h with hf | ⟨f, hf, _⟩ <;> rw [hf]
  · exact List.Subset.refl _
  · exact List.subset_append_left _ _

/-- Waiting and matched entries are the ones that were enqueued. -/
theorem Inv.waiting_add {m : Matcher cfg τ} (hI : Inv m) :
    waiting m + inMatches m = (m.enqueued : Multiset (Player τ)) := by
  unfold waiting
  rw [add_assoc]
  exact hI.tally

/-- Before the first match everything enqueued waits. -/
theorem Inv.waiting_eq {m : Matcher cfg τ} (hI : Inv m) (hf : m.formed = []) :
    waiting m = (m.enqueued : Multiset (Player τ)) := by
  have hnone : inMatches m = 0 := by
    unfold inMatches
    rw [hf]
    rfl
  rw [← hI.waiting_add, hnone, add_zero]

theorem mem_inMatches {m : Matcher cfg τ} {p : Player τ} :
    p ∈ inMatches m ↔ ∃ f ∈ m.formed, p ∈ f.group.toList := by
  unfold inMatches
  induction m.formed with
  | nil => simp
  | cons f fs ih =>
    rw [List.map_cons, List.sum_cons, Multiset.mem_add, Multiset.mem_coe, ih]
    simp

/-- An entry that is waiting is in no match. -/
theorem Inv.not_matched {m : Matcher cfg τ} (hI : Inv m) {p : Player τ} (hp : p ∈ waiting m)
    {f : Formed τ} (hf : f ∈ m.formed) : p ∉ f.group.toList := by
  intro hmem
  have hnodup : (waiting m + inMatches m).Nodup := by
    rw [hI.waiting_add]
    exact Multiset.coe_nodup.mpr hI.enqueued_nodup
  have hdisj := (Multiset.nodup_add.mp hnodup).2.2
  exact Multiset.disjoint_left.mp hdisj hp (mem_inMatches.mpr ⟨f, hf, hmem⟩)

/-- Nothing waits that was not enqueued. -/
theorem Inv.mem_of_waiting {m : Matcher cfg τ} (hI : Inv m) {p : Player τ} (hp : p ∈ waiting m) :
    p ∈ m.enqueued := by
  rw [← Multiset.mem_coe, ← hI.waiting_add]
  exact Multiset.mem_add.mpr (Or.inl hp)

/-- Whoever was matched has come in. -/
theorem Inv.mem_of_matched {m : Matcher cfg τ} (hI : Inv m) {f : Formed τ} (hf : f ∈ m.formed)
    {p : Player τ} (hp : p ∈ f.group.toList) : p ∈ m.enqueued := by
  rw [← Multiset.mem_coe, ← hI.waiting_add]
  exact Multiset.mem_add.mpr (Or.inr (mem_inMatches.mpr ⟨f, hf, hp⟩))

theorem mem_waiting_of_bucket {m : Matcher cfg τ} {b : Fin cfg.numBuckets} {p : Player τ}
    (hp : p ∈ m.buckets b) : p ∈ waiting m :=
  Multiset.mem_add.mpr (Or.inl (Tally.mem_sum_of_mem (i := b) (Multiset.mem_coe.mpr hp)))

/-- A waiting entry is in its bucket or in some thread's hands. -/
theorem Inv.bucket_or_held {m : Matcher cfg τ} (hI : Inv m) {p : Player τ} (hp : p ∈ waiting m) :
    p ∈ m.buckets (bucketIndex cfg p.rating) ∨ ∃ w, p ∈ (m.workers w).held := by
  rcases Multiset.mem_add.mp hp with hb | hh
  · obtain ⟨b, _, hb⟩ := Multiset.mem_sum.mp hb
    left
    rw [hI.homed b p (Multiset.mem_coe.mp hb)]
    exact Multiset.mem_coe.mp hb
  · obtain ⟨w, _, hw⟩ := Multiset.mem_sum.mp hh
    exact Or.inr ⟨w, Multiset.mem_coe.mp hw⟩

/-- `Buckets.waiting` counts the entries in the buckets. -/
theorem card_inBuckets (m : Matcher cfg τ) : (inBuckets m).card = m.buckets.waiting := by
  unfold inBuckets Buckets.waiting
  rw [Multiset.card_sum, Fin.sum_univ_def]
  rfl

theorem card_inMatches (m : Matcher cfg τ) : (inMatches m).card = 10 * m.formed.length := by
  unfold inMatches
  induction m.formed with
  | nil => rfl
  | cons f fs ih =>
    rw [List.map_cons, List.sum_cons, Multiset.card_add, ih, Multiset.coe_card,
      f.group.length_toList, List.length_cons]
    omega

/-- Every player enqueued is in a bucket, in the hands of a thread, or one of the ten
of a match. -/
theorem Inv.card_eq {m : Matcher cfg τ} (hI : Inv m) :
    m.buckets.waiting + (inHands m).card + 10 * m.formed.length = m.enqueued.length := by
  have hcard := congrArg Multiset.card hI.waiting_add
  unfold waiting at hcard
  rwa [Multiset.card_add, Multiset.card_add, card_inBuckets, card_inMatches,
    Multiset.coe_card] at hcard

/-! ## Where matches come from -/

/-- **Step**: ids are drawn one at a time and never given back. -/
theorem step_counter {m m' : Matcher cfg τ} {e : MatcherEvent cfg τ} (hI : Inv m)
    (h : m.step e = some m') : Counter m m' := by
  cases step_change hI.wf hI.homed h with
  | enqueued _ _ _ _ _ _ hn => exact hn
  | worker _ _ hm => exact hm.counter
  | frame hm => exact .inl ⟨hm.drawn, hm.nextMatchId⟩

/-- The match the retry thread is writing, and the commands it has not sent yet. -/
def RetryPc.carried : RetryPc τ → Option (Formed τ × List (Command τ))
  | .idle => none
  | .commit p todo _ => some (p.result, todo)
  | .backoff p => some (p.result, [])

/-- The match and what is left of its pipeline belong to a match of the list. -/
def Carries (fs : List (Formed τ)) (c : Option (Formed τ × List (Command τ))) : Prop :=
  ∀ f todo, c = some (f, todo) → f ∈ fs ∧ todo ⊆ commitMatch f

theorem Carries.none (fs : List (Formed τ)) : Carries fs .none := nofun

theorem Carries.mono {fs fs' : List (Formed τ)} {c : Option (Formed τ × List (Command τ))}
    (h : Carries fs c) (hsub : fs ⊆ fs') : Carries fs' c := by
  intro f todo hc
  obtain ⟨hf, htodo⟩ := h f todo hc
  exact ⟨hsub hf, htodo⟩

/-- What the process knows of its matches: ids are drawn in order, a match is the split of its
group under its id, and whatever is carried about, queued or retried is one of the matches
formed. -/
structure Founded (m : Matcher cfg τ) : Prop where
  next : m.nextMatchId = UInt64.ofNat (m.drawn + 1)
  result : ∀ f ∈ m.formed, f.result = (optimizeSplit f.group (UInt64.ofNat (f.ordinal + 1))).1
  ordinal_lt : ∀ f ∈ m.formed, f.ordinal < m.drawn
  ordinals : (m.formed.map Formed.ordinal).Nodup
  carried : ∀ w, Carries m.formed (m.workers w).carried
  queued : ∀ p ∈ m.retryQ, p.result ∈ m.formed
  retrying : Carries m.formed m.retry.carried

theorem init_founded (now : Nat) : Founded (Matcher.init cfg τ now) where
  next := rfl
  result := nofun
  ordinal_lt := nofun
  ordinals := List.nodup_nil
  carried _ := Carries.none _
  queued := nofun
  retrying := Carries.none _

/-- The counter part: the ids, and the ordinals of the matches formed so far. -/
theorem Counter.founded {m m' : Matcher cfg τ} (hc : Counter m m') (hF : Founded m) :
    m'.nextMatchId = UInt64.ofNat (m'.drawn + 1) ∧ ∀ f ∈ m.formed, f.ordinal < m'.drawn := by
  rcases hc with ⟨hd, hn⟩ | ⟨hd, hn⟩
  · rw [hd, hn]
    exact ⟨hF.next, hF.ordinal_lt⟩
  · refine ⟨?_, fun f hf => ?_⟩
    · rw [hd, hn, hF.next, UInt64.ofNat_add (m.drawn + 1) 1]
      rfl
    · have := hF.ordinal_lt f hf
      omega

/-- The retry thread only passes on what is in its queue. -/
theorem retryStep_founded {m m' : Matcher cfg τ} {e : WorkerEvent} (hF : Founded m)
    (h : m.retryStep e = some m') :
    (∀ p ∈ m'.retryQ, p.result ∈ m.formed) ∧ Carries m.formed m'.retry.carried := by
  have hq := hF.queued
  have hr := hF.retrying
  cases e with
  | run =>
    simp only [Matcher.retryStep, Matcher.retryRun] at h
    cases hpc : m.retry with
    | idle =>
      simp only [hpc] at h
      split at h <;> simp only [Option.some.injEq] at h <;> subst h
      · exact ⟨hq, hr⟩
      next p rest hqueue =>
        rw [hqueue] at hq
        refine ⟨fun p' hp' => hq p' (List.mem_cons_of_mem _ hp'), fun f todo hc => ?_⟩
        change some (p.result, commitMatch p.result) = some (f, todo) at hc
        rw [Option.some.injEq, Prod.mk.injEq] at hc
        obtain ⟨rfl, rfl⟩ := hc
        exact ⟨hq p List.mem_cons_self, List.Subset.refl _⟩
    | commit p todo clean => simp only [hpc, reduceCtorEq] at h
    | backoff p =>
      simp only [hpc, Option.some.injEq] at h
      subst h
      rw [hpc] at hr
      refine ⟨fun p' hp' => ?_, Carries.none _⟩
      rcases List.mem_append.mp hp' with hp' | hp'
      · exact hq p' hp'
      · rw [List.mem_singleton.mp hp']
        exact (hr p.result [] rfl).1
  | busy => cases h
  | cmd ok =>
    simp only [Matcher.retryStep] at h
    split at h <;> simp only [Option.some.injEq, reduceCtorEq] at h
    next p c todo clean hpc =>
      subst h
      rw [hpc] at hr
      refine ⟨hq, fun f todo' hc => ?_⟩
      change some (p.result, todo) = some (f, todo') at hc
      rw [Option.some.injEq, Prod.mk.injEq] at hc
      obtain ⟨rfl, rfl⟩ := hc
      obtain ⟨hf, hsub⟩ := hr p.result (c :: todo) rfl
      exact ⟨hf, fun x hx => hsub (List.mem_cons_of_mem _ hx)⟩
  | reply ok =>
    simp only [Matcher.retryStep] at h
    split at h
    next p todo clean hpc =>
      rw [hpc] at hr
      split at h
      · split at h <;> simp only [Option.some.injEq, reduceCtorEq] at h
        subst h
        exact ⟨hq, Carries.none _⟩
      · simp only [Option.some.injEq] at h
        subst h
        refine ⟨hq, fun f todo' hc => ?_⟩
        change some (p.result, []) = some (f, todo') at hc
        rw [Option.some.injEq, Prod.mk.injEq] at hc
        obtain ⟨rfl, rfl⟩ := hc
        exact ⟨(hr p.result todo rfl).1, List.nil_subset _⟩
    · cases h

/-- A step of a match thread keeps what it carries among the formed matches. -/
theorem Move.founded {m m' : Matcher cfg τ} {w : Fin cfg.numWorkers} {pc : Pc cfg τ}
    (hm : Move m w pc m') (hF : Founded m) (hsub : m.formed ⊆ m'.formed) :
    (∀ w', Carries m'.formed (m'.workers w').carried) ∧
      (∀ p ∈ m'.retryQ, p.result ∈ m'.formed) := by
  have hold : ∀ w', Carries m'.formed (m.workers w').carried := fun w' => (hF.carried w').mono hsub
  have hqueue : ∀ p ∈ m.retryQ, p.result ∈ m'.formed := fun p hp => hsub (hF.queued p hp)
  have hnew : Carries m'.formed pc.carried ∧ ∀ p ∈ m'.retryQ, p.result ∈ m'.formed := by
    cases hm.carry with
    | none hp hq =>
      rw [hp, hq]
      exact ⟨Carries.none _, hqueue⟩
    | same hpc hp hsame hq =>
      rw [hp, hq]
      refine ⟨fun f todo hc => ?_, hqueue⟩
      rw [Option.some.injEq, Prod.mk.injEq] at hc
      obtain ⟨rfl, rfl⟩ := hc
      obtain ⟨hf, htodo⟩ := hold w _ _ hpc
      rcases hsame with hsame | rfl
      · exact ⟨hf, fun x hx => htodo (hsame hx)⟩
      · exact ⟨hf, List.Subset.refl _⟩
    | deferred hpc hp hq =>
      rw [hp, hq]
      refine ⟨Carries.none _, fun p hmem => ?_⟩
      rcases List.mem_append.mp hmem with hmem | hmem
      · exact hqueue p hmem
      · rw [List.mem_singleton.mp hmem]
        exact (hold w _ _ hpc).1
    | formed hp hf hq =>
      rw [hp, hq]
      refine ⟨fun f todo hc => ?_, hqueue⟩
      rw [Option.some.injEq, Prod.mk.injEq] at hc
      obtain ⟨rfl, rfl⟩ := hc
      rw [hf]
      exact ⟨List.mem_append_right _ List.mem_cons_self, List.Subset.refl _⟩
  refine ⟨fun w' => ?_, hnew.2⟩
  rw [hm.workers]
  by_cases hw : w' = w
  · subst hw
    rw [Function.update_self]
    exact hnew.1
  · rw [Function.update_of_ne hw]
    exact hold w'

/-- **Step**. -/
theorem step_founded {m m' : Matcher cfg τ} {e : MatcherEvent cfg τ} (hI : Inv m) (hF : Founded m)
    (h : m.step e = some m') : Founded m' := by
  obtain ⟨hnext, hlt⟩ := (step_counter hI h).founded hF
  -- what a step that forms nothing has to keep
  have hkeep : m'.formed = m.formed → (∀ w, Carries m'.formed (m'.workers w).carried) →
      (∀ p ∈ m'.retryQ, p.result ∈ m'.formed) → Carries m'.formed m'.retry.carried →
        Founded m' := by
    intro hf hcarried hqueued hretrying
    exact ⟨hnext, by rw [hf]; exact hF.result, by rw [hf]; exact hlt, by rw [hf]; exact hF.ordinals,
      hcarried, hqueued, hretrying⟩
  cases e with
  | enqueue id rating origin =>
    simp only [Matcher.step, Option.some.injEq] at h
    subst h
    exact hkeep rfl hF.carried hF.queued hF.retrying
  | counted =>
    simp only [Matcher.step, Option.some.injEq] at h
    subst h
    exact hkeep rfl hF.carried hF.queued hF.retrying
  | tick nanos =>
    simp only [Matcher.step, Option.some.injEq] at h
    subst h
    exact hkeep rfl hF.carried hF.queued hF.retrying
  | retry e =>
    have hm := retryStep_frame h
    obtain ⟨hq, hr⟩ := retryStep_founded hF h
    refine hkeep hm.formed ?_ ?_ ?_
    · rw [hm.workers, hm.formed]
      exact hF.carried
    · rw [hm.formed]
      exact hq
    · rw [hm.formed]
      exact hr
  | worker w e =>
    obtain ⟨pc, hm⟩ := workerStep_move (hI.wf w) hI.homed h
    cases step_flow hI h with
    | arrived hp => cases hp
    | still _ hf _ =>
      obtain ⟨hcarried, hqueued⟩ := hm.founded hF (by rw [hf]; exact List.Subset.refl _)
      refine hkeep hf hcarried hqueued ?_
      rw [hm.retry, hf]
      exact hF.retrying
    | @formed f _ hf _ hr ho hd _ =>
      have hsub : m.formed ⊆ m'.formed := by
        rw [hf]
        exact List.subset_append_left _ _
      obtain ⟨hcarried, hqueued⟩ := hm.founded hF hsub
      refine ⟨hnext, fun g hg => ?_, fun g hg => ?_, ?_, hcarried, hqueued, ?_⟩
      · rw [hf] at hg
        rcases List.mem_append.mp hg with hg | hg
        · exact hF.result g hg
        · rw [List.mem_singleton.mp hg, hr, ho, hF.next]
      · rw [hf] at hg
        rcases List.mem_append.mp hg with hg | hg
        · exact hlt g hg
        · rw [List.mem_singleton.mp hg, ho, hd]
          exact Nat.lt_succ_self _
      · rw [hf, List.map_append, List.nodup_append]
        refine ⟨hF.ordinals, List.nodup_singleton _, fun a ha b hb => ?_⟩
        obtain ⟨g, hg, rfl⟩ := List.mem_map.mp ha
        rw [List.map_singleton, List.mem_singleton, ho] at hb
        have := hF.ordinal_lt g hg
        omega
      · rw [hm.retry]
        exact hF.retrying.mono hsub

/-- The match's teams are its group. -/
theorem Founded.teams {m : Matcher cfg τ} (hF : Founded m) {f : Formed τ} (hf : f ∈ m.formed) :
    f.result.teamA.length = 5 ∧ f.result.teamB.length = 5 ∧
      (f.result.teamA ++ f.result.teamB).Perm
        (f.group.toList.map fun p => (p.id, p.rating.toInt32)) := by
  rw [hF.result f hf]
  exact optimizeSplit_teams _ _

/-- The users of a match, team A first. -/
def MatchResult.users (r : MatchResult) : List Int64 := (r.teamA ++ r.teamB).map Prod.fst

/-- The users of a result are those of its group. -/
theorem Founded.users {m : Matcher cfg τ} (hF : Founded m) {f : Formed τ} (hf : f ∈ m.formed) :
    f.result.users.Perm (f.group.toList.map Player.id) := by
  have hperm := (hF.teams hf).2.2.map Prod.fst
  rwa [List.map_map] at hperm

/-- The payload `commit_match` writes for each of the users. -/
def Formed.payload (f : Formed τ) : Status :=
  .matched f.result.matchId (f.result.teamA.map Prod.fst) (f.result.teamB.map Prod.fst)

/-- The pipeline: a status for each user, and one `XADD`. -/
theorem mem_commitMatch {f : Formed τ} {c : Command τ} :
    c ∈ commitMatch f ↔ (∃ u ∈ f.result.users, c = .setStatus u f.payload) ∨ c = .xaddSync f := by
  unfold commitMatch MatchResult.users
  rw [List.mem_append, List.mem_singleton]
  refine or_congr_left ?_
  constructor
  · intro hc
    obtain ⟨p, hp, rfl⟩ := List.mem_map.mp hc
    exact ⟨p.1, List.mem_map_of_mem hp, rfl⟩
  · rintro ⟨u, hu, rfl⟩
    obtain ⟨p, hp, rfl⟩ := List.mem_map.mp hu
    exact List.mem_map.mpr ⟨p, hp, rfl⟩

/-- A match's id is its ordinal, counted from 1. -/
theorem Founded.matchId {m : Matcher cfg τ} (hF : Founded m) {f : Formed τ} (hf : f ∈ m.formed) :
    f.result.matchId = UInt64.ofNat (f.ordinal + 1) := by
  rw [hF.result f hf, optimizeSplit_matchId]

end Supermatchmaker
