import Supermatchmaker.Matcher.Conserve
import Supermatchmaker.Matcher.Eviction
import Supermatchmaker.Matcher.Window

/-!
# What an attempt leaves behind, and how far it reaches

An attempt of a match thread pops players bucket after bucket, the anchor's
first, and two different routines put them back: `rollback` where they were
popped, `return_group` where their rating says. Both walk the popped players
backwards, so it is one invariant that says what both do (`Undone`): whatever
the thread holds, putting it back last popped first makes the buckets what they
were. A step of the thread that forms no match keeps it, whichever `try_lock`
fails and whatever the window (`Delta.undone`), as long as nobody else changes
the pool.

The second half is about whom an attempt can bring together: whatever the other
threads do meanwhile, the players of a group come from the window or from the
two buckets past its last one (`Within`).
-/

namespace Supermatchmaker

variable {cfg : Config} {τ : Type}

/-- The loop of `return_group`, over the players from last to first. -/
def putHome (todo : List (Player τ)) (bs : Buckets cfg τ) : Buckets cfg τ :=
  todo.foldl (fun bs p => bs.pushFront (bucketIndex cfg p.rating) p) bs

/-- `return_group`. -/
def returnGroup (g : MatchGroup τ) (bs : Buckets cfg τ) : Buckets cfg τ :=
  putHome g.toList.reverse bs

theorem putHome_append (todo todo' : List (Player τ)) (bs : Buckets cfg τ) :
    putHome (todo ++ todo') bs = putHome todo' (putHome todo bs) :=
  List.foldl_append

/-- The two routines agree on players recorded with their home buckets. -/
theorem putHome_eq_putBack (todo : List (Player τ)) (bs : Buckets cfg τ) :
    putHome todo bs = putBack (todo.map fun p => (bucketIndex cfg p.rating, p)) bs := by
  unfold putHome putBack
  rw [List.foldl_map]

/-- Players popped from their home bucket go back there, in their order. -/
theorem putHome_popped {b : Fin cfg.numBuckets} (bs : Buckets cfg τ) (q popped : List (Player τ))
    (hhome : ∀ p ∈ popped, bucketIndex cfg p.rating = b) :
    putHome popped.reverse (bs.set b q) = bs.set b (popped ++ q) := by
  have hpairs : popped.map (fun p => (bucketIndex cfg p.rating, p)) = popped.map (b, ·) :=
    List.map_congr_left fun p hp => by rw [hhome p hp]
  rw [putHome_eq_putBack, List.map_reverse, hpairs, putBack_popped]

/-- Putting back what a thread that stands at `pc` holds makes the buckets what
they were. -/
def Undone (bs₀ bs : Buckets cfg τ) (pc : Pc cfg τ) : Prop := putHome pc.inOrder.reverse bs = bs₀

/-- **Step**: short of forming a match, nothing a thread does is final. -/
theorem Delta.undone {m m' : Matcher cfg τ} {w : Fin cfg.numWorkers} {pc : Pc cfg τ}
    {bs₀ : Buckets cfg τ} (d : Delta m w pc m') (hhome : m.buckets.Homed)
    (hgate : ¬ m.Admits (m.workers w)) (h : Undone bs₀ m.buckets (m.workers w)) :
    Undone bs₀ m'.buckets pc := by
  unfold Undone at h ⊢
  cases d with
  | keep hb _ ho => rw [hb, ho, h]
  | take b popped q hq hb _ ho =>
    have hpopped : ∀ p ∈ popped, bucketIndex cfg p.rating = b := fun p hp =>
      hhome b p (by rw [hq]; exact List.mem_append_left _ hp)
    rw [hb, ho, List.reverse_append, putHome_append, putHome_popped _ _ _ hpopped, ← hq]
    unfold Buckets.set
    rw [Function.update_eq_self]
    exact h
  | give p hb _ ho =>
    rw [ho, List.reverse_append] at h
    rw [hb]
    exact h
  | form f _ _ _ _ _ _ _ hpass => exact absurd hpass hgate

namespace Matcher

/-- The pool is left to thread `w`: a step is its own and forms no match, or it is
another's and leaves every bucket as it is. -/
def Undisturbed (w : Fin cfg.numWorkers) (m : Matcher cfg τ) (e : MatcherEvent cfg τ) : Prop :=
  ((∃ we, e = .worker w we) ∧ ¬ m.Admits (m.workers w)) ∨
    ((∀ we, e ≠ .worker w we) ∧ ∀ m' ∈ m.step e, m'.buckets = m.buckets)

/-- What thread `w` holds can be undone at any point of a run in which nobody else
changes the pool and no match is formed. -/
structure Attempting (bs₀ : Buckets cfg τ) (w : Fin cfg.numWorkers) (m : Matcher cfg τ) : Prop where
  wf : (m.workers w).Wf
  homed : m.buckets.Homed
  undone : Undone bs₀ m.buckets (m.workers w)

/-- **Step**, as long as nobody else touches a bucket. -/
theorem step_attempting {bs₀ : Buckets cfg τ} {w : Fin cfg.numWorkers} {m m' : Matcher cfg τ}
    {e : MatcherEvent cfg τ} (h : Attempting bs₀ w m) (hguard : Undisturbed w m e)
    (hstep : m.step e = some m') : Attempting bs₀ w m' := by
  rcases hguard with ⟨⟨we, rfl⟩, hgate⟩ | ⟨hne, hkeep⟩
  · obtain ⟨pc, hmove⟩ := workerStep_move h.wf h.homed hstep
    have hpc : m'.workers w = pc := by rw [hmove.workers, Function.update_self]
    refine ⟨?_, hmove.delta.homed h.homed, ?_⟩
    · rw [hpc]
      exact hmove.wf
    · rw [hpc]
      exact hmove.delta.undone h.homed hgate h.undone
  · have hb : m'.buckets = m.buckets := hkeep m' hstep
    have hw : m'.workers w = m.workers w := step_workers_of_ne hne hstep
    refine ⟨?_, ?_, ?_⟩
    · rw [hw]
      exact h.wf
    · rw [hb]
      exact h.homed
    · rw [hb, hw]
      exact h.undone

end Matcher

/-- **A failed attempt leaves the pool exactly as it was**: `harvest` is called on
any window, no other thread changes the pool, border `try_lock`s fail or not.
Where it returns `None`, and where the group it returns has been given back, each
bucket holds what it held, in its order; and `return_group` on the group it
returns restores each bucket. -/
theorem attempt_restores {m m' : Matcher cfg τ} {w : Fin cfg.numWorkers}
    {win : List (Fin cfg.numBuckets)} (hhome : m.buckets.Homed)
    (hcall : m.workers w = .peek win win none)
    (hrun : Lts.Run Matcher.step (Matcher.Undisturbed w) m m') :
    (m'.workers w = .idle → m'.buckets = m.buckets) ∧
      ∀ g, m'.workers w = .gate g → returnGroup g m'.buckets = m.buckets := by
  have hbegin : Matcher.Attempting m.buckets w m := by
    refine ⟨?_, hhome, ?_⟩
    · rw [hcall]
      trivial
    · rw [hcall]
      rfl
  have hend := hrun.inv (I := Matcher.Attempting m.buckets w)
    (fun hI hguard hs => Matcher.step_attempting hI hguard hs) hbegin
  constructor
  · intro hidle
    have hundone := hend.undone
    rw [hidle] at hundone
    exact hundone
  · intro g hgate
    have hundone := hend.undone
    rw [hgate] at hundone
    exact hundone

/-- Two players wait in the first bucket, and a harvest of that bucket begins. -/
def twoWaiting : Matcher Config.pair Nat :=
  (((Matcher.init Config.pair Nat 0).enqueue 1 50 0).enqueue 2 60 1).setPc firstThread
    (.peek [firstBucket] [firstBucket] none)

/-- The event is one of the first thread, which accepts no match. -/
def firstAlone (m : Matcher Config.pair Nat) : MatcherEvent Config.pair Nat → Bool
  | .worker w _ => w == firstThread && !decide (m.Admits (m.workers firstThread))
  | _ => false

/-- It pops both, finds the border bucket locked and puts them back. -/
theorem attempt_restores_busy :
    ∃ m, Lts.Run Matcher.step (Matcher.Undisturbed firstThread) twoWaiting m ∧
      m.buckets = twoWaiting.buckets ∧ (m.buckets (0 : Fin 2)).map Player.id = [1, 2] := by
  have hexec : (Lts.exec Matcher.step firstAlone twoWaiting
      ([.run, .run, .run, .busy, .run, .run, .run].map (.worker firstThread))).any (fun m =>
        (m.workers firstThread).isIdle && (m.buckets firstBucket).map Player.id == [1, 2])
      = true := by
    decide +kernel
  obtain ⟨m, hrun, hm⟩ := Lts.exists_run_of_exec hexec
  have hrun : Lts.Run Matcher.step (Matcher.Undisturbed firstThread) twoWaiting m := by
    refine hrun.mono fun {a e} hguard => ?_
    cases e with
    | worker w we =>
      simp only [firstAlone, Bool.and_eq_true, beq_iff_eq, Bool.not_eq_true',
        decide_eq_false_iff_not] at hguard
      obtain ⟨rfl, hgate⟩ := hguard
      exact Or.inl ⟨⟨we, rfl⟩, hgate⟩
    | _ => cases hguard
  obtain ⟨hidle, hback⟩ := Bool.and_eq_true_iff.mp hm
  have hhome : twoWaiting.buckets.Homed :=
    (Buckets.Homed.enqueue (Buckets.Homed.enqueue (fun _ _ hp => absurd hp List.not_mem_nil) _) _)
  exact ⟨m, hrun, (attempt_restores hhome rfl hrun).1 (Pc.eq_idle hidle), beq_iff_eq.mp hback⟩

/-! ## Whom an attempt can bring together -/

/-- Whatever a harvest that stands at `pc` holds comes from the buckets `S`, and so
will all it is yet to pop. -/
def Within (S : List (Fin cfg.numBuckets)) : Pc cfg τ → Prop
  | .peek win todo anchor =>
    (∀ b ∈ todo, b ∈ win) ∧ (∀ a ∈ anchor, a.1 ∈ win) ∧ ∀ b ∈ reach win, b ∈ S
  | .drain _ _ todo taken => (∀ b ∈ todo, b ∈ S) ∧ ∀ bp ∈ taken, bp.1 ∈ S
  | .gate g => ∀ p ∈ g.toList, bucketIndex cfg p.rating ∈ S
  | _ => True

/-- A finished drain holds players of the buckets it took from. -/
theorem within_harvested {S : List (Fin cfg.numBuckets)}
    {taken : List (Fin cfg.numBuckets × Player τ)} (hS : ∀ bp ∈ taken, bp.1 ∈ S)
    (hhome : ∀ bp ∈ taken, bucketIndex cfg bp.2.rating = bp.1) :
    Within S (Pc.harvested taken) := by
  unfold Pc.harvested
  split
  · trivial
  · by_cases hten : (taken.map Prod.snd).length = 10
    · obtain ⟨g, hg, hlist⟩ := tryInto_eq_some hten
      rw [hg]
      intro p hp
      rw [hlist] at hp
      obtain ⟨bp, hbp, rfl⟩ := List.mem_map.mp hp
      rw [hhome bp hbp]
      exact hS bp hbp
    · rw [tryInto, dif_neg hten]
      trivial

/-- **Step**: one critical section of the harvest, whatever the buckets hold. -/
theorem within_act {S : List (Fin cfg.numBuckets)} {bs bs' : Buckets cfg τ} {pc pc' : Pc cfg τ}
    (hS : Within S pc) (hwf : pc.Wf) (h : pc.act.result bs = some (bs', pc')) : Within S pc' := by
  cases Pc.act_cases h with
  | nobody => trivial
  | @anchored win a =>
    have ha : a.1 ∈ win := hS.2.1 a rfl
    exact ⟨fun b hb => hS.2.2 b ((mem_drainOrder ha).mp hb), by simp⟩
  | passes =>
    obtain ⟨htodo, hanchor, hreach⟩ := hS
    exact ⟨fun c hc => htodo c (List.mem_cons_of_mem _ hc), hanchor, hreach⟩
  | older =>
    obtain ⟨htodo, _, hreach⟩ := hS
    refine ⟨fun c hc => htodo c (List.mem_cons_of_mem _ hc), fun a ha => ?_, hreach⟩
    cases ha
    exact htodo _ List.mem_cons_self
  | ended => exact within_harvested hS.2 hwf.2
  | @popped windowLen pos b rest taken =>
    obtain ⟨htodo, htaken⟩ := hS
    obtain ⟨popped, _, hpopped, _⟩ := popUntilTen_spec b (bs b) taken
    refine ⟨fun c hc => htodo c (List.mem_cons_of_mem _ hc), fun bp hbp => ?_⟩
    rw [hpopped] at hbp
    rcases List.mem_append.mp hbp with hold | hnew
    · exact htaken bp hold
    · obtain ⟨p, _, rfl⟩ := List.mem_map.mp hnew
      exact htodo b List.mem_cons_self
  | rolledBack => trivial
  | putBack => trivial

namespace Matcher

/-- Thread `w` is inside its harvest; the others do what they like. -/
def Calling (w : Fin cfg.numWorkers) (m : Matcher cfg τ) (e : MatcherEvent cfg τ) : Prop :=
  ∀ we, e = .worker w we → (m.workers w).Harvesting

/-- **Step** of the thread that calls `harvest`: it stays within its buckets. -/
theorem step_within {S : List (Fin cfg.numBuckets)} {w : Fin cfg.numWorkers} {m m' : Matcher cfg τ}
    {e : MatcherEvent cfg τ} (hS : Within S (m.workers w)) (hwf : (m.workers w).Wf)
    (hguard : Calling w m e) (hstep : m.step e = some m') : Within S (m'.workers w) := by
  by_cases hown : ∃ we, e = .worker w we
  · obtain ⟨we, rfl⟩ := hown
    have hcall := hguard we rfl
    cases we with
    | run =>
      rw [step_act hcall] at hstep
      obtain ⟨s, hs, rfl⟩ := Option.map_eq_some_iff.mp hstep
      obtain ⟨k, hk, hcalls⟩ := Serial.step_eq_some.mp hs
      show Within S (s.calls w)
      rw [hcalls, Function.update_self]
      exact within_act hS hwf hk
    | busy =>
      simp only [step, workerStep] at hstep
      split at hstep
      · split at hstep
        · cases hstep
          show Within S (Function.update m.workers w _ w)
          rw [Function.update_self]
          trivial
        · cases hstep
      · cases hstep
    | cmd | reply =>
      simp only [step, workerStep] at hstep
      split at hstep
      next hpc =>
        rw [hpc] at hcall
        cases hcall
      next => cases hstep
  · rw [step_workers_of_ne (fun we heq => hown ⟨we, heq⟩) hstep]
    exact hS

end Matcher

/-- **How far apart the players of a group can be**: they come from the window or
the two buckets past its last one, so when the window does not wrap around the
end of the scale (or there are at most `STRIDE + 2` buckets) their buckets are at
most `STRIDE + 1` apart. So it is from any pool on, and whatever the other threads
have begun by the time of the call. -/
theorem group_local {m₀ m m' : Matcher cfg τ} {w : Fin cfg.numWorkers} {ticket : UInt64}
    (hhome : m₀.buckets.Homed) (hidle : ∀ w, m₀.workers w = .idle)
    (hreach : Lts.Run Matcher.step Lts.Free m₀ m)
    (hcall : m.workers w = .peek (window cfg (ticket.toNat % cfg.numBuckets))
      (window cfg (ticket.toNat % cfg.numBuckets)) none)
    (hrun : Lts.Run Matcher.step (Matcher.Calling w) m m') {g : MatchGroup τ}
    (hgate : m'.workers w = .gate g) :
    (∀ p ∈ g.toList, bucketIndex cfg p.rating ∈
      reach (window cfg (ticket.toNat % cfg.numBuckets))) ∧
    (ticket.toNat % cfg.numBuckets + cfg.stride ≤ cfg.numBuckets ∨
        cfg.numBuckets ≤ cfg.stride + 2 →
      ∀ p ∈ g.toList, ∀ q ∈ g.toList, (bucketIndex cfg p.rating).val ≤
        (bucketIndex cfg q.rating).val + cfg.stride + 1) := by
  have hstart : ∀ w, (m₀.workers w).Wf := fun w => by rw [hidle w]; trivial
  have hI := hreach.inv (I := fun m => (∀ w, (m.workers w).Wf) ∧ m.buckets.Homed)
    (fun h _ hs => step_home h.1 h.2 hs) ⟨hstart, hhome⟩
  have hend := hrun.inv
    (I := fun m => ((∀ w, (m.workers w).Wf) ∧ m.buckets.Homed) ∧
      Within (reach (window cfg (ticket.toNat % cfg.numBuckets))) (m.workers w))
    (fun h hguard hs => ⟨step_home h.1.1 h.1.2 hs, Matcher.step_within h.2 (h.1.1 w) hguard hs⟩)
    ⟨hI, by rw [hcall]; exact ⟨fun b hb => hb, nofun, fun b hb => hb⟩⟩
  have hgroup := hend.2
  rw [hgate] at hgroup
  exact ⟨hgroup, fun hclose p hp q hq => reach_window_close hclose (hgroup p hp) (hgroup q hq)⟩

/-- A concrete run in which the thread calls `harvest` on the window of a ticket and
gets a group, which passes the test `q`. -/
theorem exists_harvest (ticket : UInt64) (q : MatchGroup Nat → Bool)
    (before : List (MatcherEvent Config.seven Nat)) (n : Nat)
    (h : (Lts.exec Matcher.step (fun _ _ => true) (Matcher.init Config.seven Nat 0) before).any
      (fun m =>
        (match m.workers onlyThread with
          | .peek win todo anchor => decide (win = window Config.seven (ticket.toNat % 7) ∧
              todo = window Config.seven (ticket.toNat % 7) ∧ anchor = none)
          | _ => false) &&
        (Lts.exec Matcher.step (fun m e => m.Own onlyThread e) m
          (List.replicate n (.worker onlyThread .run))).any (fun m' =>
            match m'.workers onlyThread with
            | .gate g => q g
            | _ => false)) = true) :
    ∃ m m' : Matcher Config.seven Nat,
      Lts.Run Matcher.step Lts.Free (Matcher.init Config.seven Nat 0) m ∧
      m.workers onlyThread = .peek (window Config.seven (ticket.toNat % 7))
        (window Config.seven (ticket.toNat % 7)) none ∧
      Lts.Run Matcher.step (Matcher.Calling onlyThread) m m' ∧
      ∃ g, m'.workers onlyThread = .gate g ∧ q g = true := by
  obtain ⟨m, hreach, hm⟩ := Lts.exists_run_of_exec h
  rw [Bool.and_eq_true] at hm
  obtain ⟨hcall, hm⟩ := hm
  obtain ⟨m', hrun, hm'⟩ := Lts.exists_run_of_exec hm
  have hrun : Lts.Run Matcher.step (Matcher.Calling onlyThread) m m' := by
    refine hrun.mono fun {a e} hguard we heq => ?_
    have hown : a.Own onlyThread e := of_decide_eq_true hguard
    subst heq
    unfold Matcher.Own at hown
    split at hown
    next heq =>
      cases heq
      exact hown.2
    next => cases hown
  split at hcall
  next win todo anchor hpc =>
    obtain ⟨rfl, rfl, rfl⟩ := of_decide_eq_true hcall
    split at hm'
    next g hg => exact ⟨m, m', hreach.free, hpc, hrun, g, hg, hm'⟩
    next => cases hm'
  next => cases hcall

/-- Seven players in the two buckets of the first window and three in the second border: the
group reaches from one end of its span to the other. -/
theorem group_local_seven : ∃ g : MatchGroup Nat,
    (∃ p ∈ g.toList, ∃ q ∈ g.toList,
      (bucketIndex Config.seven p.rating).val = (bucketIndex Config.seven q.rating).val + 3) ∧
    ∀ p ∈ g.toList, ∀ q ∈ g.toList,
      (bucketIndex Config.seven p.rating).val ≤ (bucketIndex Config.seven q.rating).val + 3 := by
  have hexec := exists_harvest 0
    (fun g => decide (∃ p ∈ g.toList, ∃ q ∈ g.toList,
      (bucketIndex Config.seven p.rating).val = (bucketIndex Config.seven q.rating).val + 3))
    ((List.range 4).map (fun i => .enqueue (Int64.ofNat i) 50 i)
      ++ (List.range 3).map (fun i => .enqueue (Int64.ofNat (i + 4)) 150 (i + 4))
      ++ (List.range 3).map (fun i => .enqueue (Int64.ofNat (i + 7)) 350 (i + 7))
      ++ List.replicate 6 (.worker onlyThread .run)) 8 (by decide +kernel)
  obtain ⟨m, m', hreach, hcall, hrun, g, hg, hfar⟩ := hexec
  have hhome : (Matcher.init Config.seven Nat 0).buckets.Homed := nofun
  have hlocal := group_local hhome (fun _ => rfl) hreach hcall hrun hg
  exact ⟨g, of_decide_eq_true hfar, hlocal.2 (Or.inl (by decide))⟩

/-- Five players in the first bucket and five in the last: the fourth window is
these two buckets, and its group is of both ends of the scale. -/
theorem group_not_local :
    ¬ ∀ (cfg : Config) (m m' : Matcher cfg Nat) (w : Fin cfg.numWorkers) (ticket : UInt64)
        (g : MatchGroup Nat),
      Lts.Run Matcher.step Lts.Free (Matcher.init cfg Nat 0) m →
      m.workers w = .peek (window cfg (ticket.toNat % cfg.numBuckets))
        (window cfg (ticket.toNat % cfg.numBuckets)) none →
      Lts.Run Matcher.step (Matcher.Calling w) m m' → m'.workers w = .gate g →
      ∀ p ∈ g.toList, ∀ q ∈ g.toList, (bucketIndex cfg p.rating).val ≤
        (bucketIndex cfg q.rating).val + cfg.stride + 1 := by
  intro hlocal
  have hexec := exists_harvest 6
    (fun g => decide (∃ p ∈ g.toList, ∃ q ∈ g.toList,
      (bucketIndex Config.seven q.rating).val + 3 < (bucketIndex Config.seven p.rating).val))
    ((List.range 5).map (fun i => .enqueue (Int64.ofNat i) 50 i)
      ++ (List.range 5).map (fun i => .enqueue (Int64.ofNat (i + 5)) 650 (i + 5))
      ++ List.replicate 21 (.worker onlyThread .run)) 6 (by decide +kernel)
  obtain ⟨m, m', hreach, hcall, hrun, g, hg, hfar⟩ := hexec
  obtain ⟨p, hp, q, hq, hlt⟩ := of_decide_eq_true hfar
  have hle := hlocal Config.seven m m' onlyThread 6 g hreach hcall hrun hg p hp q hq
  exact absurd hle (not_le.mpr hlt)

end Supermatchmaker
