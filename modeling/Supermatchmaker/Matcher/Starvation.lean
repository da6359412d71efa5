import Supermatchmaker.Matcher.Attempt
import Supermatchmaker.Matcher.Carousel
import Supermatchmaker.Matcher.Tolerance

/-!
# What relaxation can do against starvation

The tolerance grows with the wait of the oldest member of a group and with
nothing else; the windows do not grow. So whether a lone thread finds a match
for players who have waited long is not a matter of the wait but of the windows:
once every wait has passed a bound that does not depend on the pool, one
revolution of the carousel forms a match just when one of its windows is
`Feasible` (`relaxation_feeds`). Ten players in buckets that no window reaches
together wait for ever (`relaxation_starves`).

`Carousel` is the invariant of the thread's run while it has formed nothing: the
rounds that are over found their window infeasible and left the pool as it was,
and the present one stands where `Search` says.

The waits must also stay below `maxWait`, more than a year: from there on the
`u32` tolerance starts again at its base.
-/

namespace Supermatchmaker

variable {cfg : Config} {τ : Type}

/-- From this wait on the tolerance admits any difference of `i32` ratings. -/
def enough : Nat := 21474836000000000

namespace Matcher

/-- Ten players in one bucket are within reach of the next revolution. -/
theorem exists_feasible (m : Matcher cfg τ)
    (hticket : m.ticket.toNat + cfg.numBuckets + cfg.stride < 18446744073709551616)
    {b : Fin cfg.numBuckets} (hten : 10 ≤ (m.buckets b).length) :
    ∃ k < revolution cfg, Feasible m.buckets (m.nthWindow k) := by
  have hlast := revolution_lt cfg
  obtain ⟨k, hk, hb⟩ := m.exists_nthWindow (by omega) b
  refine ⟨k, hk, ⟨b, hb, fun hnil => ?_⟩, ?_⟩
  · rw [hnil, List.length_nil] at hten
    omega
  · have hmem : b ∈ (reach (m.nthWindow k)).toFinset :=
      List.mem_toFinset.mpr (List.mem_append_left _ hb)
    exact hten.trans (Finset.single_le_sum (f := fun b => (m.buckets b).length)
      (fun _ _ => Nat.zero_le _) hmem)

/-- Only thread `w` acts; time may pass. -/
def Alone (w : Fin cfg.numWorkers) (e : MatcherEvent cfg τ) : Prop :=
  e = .worker w .run ∨ ∃ nanos, e = .tick nanos

/-- No player of the pool has waited so long that the tolerance wraps around. -/
def InTime (pool : Buckets cfg τ) (m : Matcher cfg τ) : Prop :=
  ∀ b, ∀ p ∈ pool b, m.now - p.enqueuedAt < maxWait

/-- Thread `w` has formed nothing since it stood in `m₀`, with the windows claimed
since then beside. -/
structure Carousel (m₀ : Matcher cfg τ) (w : Fin cfg.numWorkers)
    (s : Matcher cfg τ × List (List (Fin cfg.numBuckets))) : Prop where
  formed : s.1.formed = m₀.formed
  attempting : Attempting m₀.buckets w s.1
  ticket : s.1.ticket = m₀.ticket + UInt64.ofNat s.2.length * UInt64.ofNat cfg.stride
  claimed : s.2 = (List.range s.2.length).map m₀.nthWindow
  round : (s.2 = [] ∧ s.1.workers w = .idle) ∨
    ∃ before last, s.2 = before ++ [last] ∧ (∀ win ∈ before, ¬ Feasible m₀.buckets win) ∧
      Search m₀.buckets last s.1.buckets (s.1.workers w)

/-- Between two rounds the windows claimed so far were all infeasible. -/
theorem Carousel.infeasible {m₀ : Matcher cfg τ} {w : Fin cfg.numWorkers}
    {s : Matcher cfg τ × List (List (Fin cfg.numBuckets))} (h : Carousel m₀ w s)
    (hidle : s.1.workers w = .idle) : ∀ k < s.2.length, ¬ Feasible m₀.buckets (m₀.nthWindow k) := by
  have hall : ∀ win ∈ s.2, ¬ Feasible m₀.buckets win := by
    rcases h.round with ⟨hnil, _⟩ | ⟨before, last, hlog, hbefore, hsearch⟩
    · rw [hnil]
      simp
    · rw [hidle] at hsearch
      intro win hwin
      rw [hlog] at hwin
      rcases List.mem_append.mp hwin with hold | hnew
      · exact hbefore win hold
      · rw [List.mem_singleton.mp hnew]
        exact hsearch
  intro k hk
  refine hall _ ?_
  rw [h.claimed]
  exact List.mem_map.mpr ⟨k, List.mem_range.mpr hk, rfl⟩

/-- At the gate the last window claimed was feasible. -/
theorem Carousel.feasible {m₀ : Matcher cfg τ} {w : Fin cfg.numWorkers}
    {s : Matcher cfg τ × List (List (Fin cfg.numBuckets))} (h : Carousel m₀ w s)
    {g : MatchGroup τ} (hgate : s.1.workers w = .gate g) :
    ∃ k < s.2.length, Feasible m₀.buckets (m₀.nthWindow k) := by
  rcases h.round with ⟨_, hidle⟩ | ⟨before, last, hlog, _, hsearch⟩
  · rw [hidle] at hgate
    cases hgate
  · rw [hgate] at hsearch
    have hmem : last ∈ s.2 := by
      rw [hlog]
      exact List.mem_append_right _ List.mem_cons_self
    rw [h.claimed] at hmem
    obtain ⟨k, hk, rfl⟩ := List.mem_map.mp hmem
    exact ⟨k, List.mem_range.mp hk, hsearch⟩

theorem carousel_start {m : Matcher cfg τ} {w : Fin cfg.numWorkers} (hhome : m.buckets.Homed)
    (hidle : m.workers w = .idle) : Carousel m w (m, []) where
  formed := rfl
  attempting := ⟨by rw [hidle]; trivial, hhome, by rw [hidle]; rfl⟩
  ticket := by simp
  claimed := rfl
  round := Or.inl ⟨rfl, hidle⟩

/-- Between two rounds the pool is as it was. -/
theorem Attempting.buckets_eq {bs₀ : Buckets cfg τ} {w : Fin cfg.numWorkers} {m : Matcher cfg τ}
    (h : Attempting bs₀ w m) (hidle : m.workers w = .idle) : m.buckets = bs₀ := by
  have hundone := h.undone
  rw [hidle] at hundone
  exact hundone

/-- **Step**: up to the gate. -/
theorem step_carousel {m₀ : Matcher cfg τ} {w : Fin cfg.numWorkers}
    {s t : Matcher cfg τ × List (List (Fin cfg.numBuckets))} {e : MatcherEvent cfg τ}
    (h : Carousel m₀ w s) (hguard : Alone w e) (hgate : ∀ g, s.1.workers w ≠ .gate g)
    (hstep : Lts.record step claims s e = some t) : Carousel m₀ w t := by
  have hclaimed' : Claimed m₀ t := step_claimed ⟨h.ticket, h.claimed⟩ hstep
  obtain ⟨hs, hlog⟩ := Lts.record_eq_some.mp hstep
  obtain ⟨m, log⟩ := s
  obtain ⟨m', log'⟩ := t
  simp only at hs hlog hgate
  rcases hguard with rfl | ⟨nanos, rfl⟩
  · have hattempting : Attempting m₀.buckets w m' :=
      step_attempting h.attempting (Or.inl ⟨⟨.run, rfl⟩, not_admits hgate⟩) hs
    by_cases hidle : m.workers w = .idle
    · -- a new round: all windows so far were infeasible
      have hm' : m' = m.takeTicket w := by
        simp only [step, workerStep, workerRun, hidle, Option.some.injEq] at hs
        exact hs.symm
      have hlog : log' = log ++ [m.claimed] := by
        rw [hlog]
        simp only [claims, hidle]
      have hinfeasible := h.infeasible hidle
      refine ⟨?_, hattempting, hclaimed'.ticket, hclaimed'.windows,
        Or.inr ⟨log, m.claimed, hlog, ?_, ?_⟩⟩
      · rw [hm']
        exact h.formed
      · intro win hwin
        have hwin : win ∈ (List.range log.length).map m₀.nthWindow := h.claimed ▸ hwin
        obtain ⟨k, hk, rfl⟩ := List.mem_map.mp hwin
        exact hinfeasible k (List.mem_range.mp hk)
      · have hsearch := search_takeTicket m w
        rw [h.attempting.buckets_eq hidle] at hsearch
        rwa [hm']
    · rw [claims_of_not_idle hidle, List.append_nil] at hlog
      obtain ⟨before, last, hlast, hbefore, hsearch⟩ :=
        h.round.resolve_left fun hstart => hidle hstart.2
      obtain ⟨bs', pc', hs', hsearch', _⟩ := step_search hsearch (hsearch.under_way hidle hgate)
      rw [hs'] at hs
      cases hs
      subst hlog
      refine ⟨h.formed, hattempting, hclaimed'.ticket, hclaimed'.windows,
        Or.inr ⟨before, last, hlast, hbefore, ?_⟩⟩
      show Search _ _ bs' (Function.update m.workers w pc' w)
      rwa [Function.update_self]
  · cases hs
    have hsame : log' = log := hlog.trans (List.append_nil _)
    subst hsame
    exact ⟨h.formed, ⟨h.attempting.wf, h.attempting.homed, h.attempting.undone⟩, h.ticket,
      h.claimed, h.round⟩

/-- A lone run claims windows and drops none. -/
theorem length_claims_le {s t : Matcher cfg τ × List (List (Fin cfg.numBuckets))}
    {e : MatcherEvent cfg τ} (hstep : Lts.record step claims s e = some t) :
    s.2.length ≤ t.2.length := by
  rw [(Lts.record_eq_some.mp hstep).2, List.length_append]
  exact Nat.le_add_right ..

/-- **Starvation**: while no window of the next tickets is feasible nothing is formed,
however long everybody has waited. -/
theorem carousel_starves {m₀ : Matcher cfg τ} {w : Fin cfg.numWorkers} {n : Nat}
    (hhome : m₀.buckets.Homed) (hidle : m₀.workers w = .idle)
    (hnone : ∀ k < n, ¬ Feasible m₀.buckets (m₀.nthWindow k))
    {s : Matcher cfg τ × List (List (Fin cfg.numBuckets))}
    (hrun : Lts.Run (Lts.record step claims) (fun _ e => Alone w e) (m₀, []) s)
    (hlen : s.2.length ≤ n) : Carousel m₀ w s := by
  refine hrun.inv (I := fun s => s.2.length ≤ n → Carousel m₀ w s) (fun {a e b} hI hguard hs => ?_)
    (fun _ => carousel_start hhome hidle) hlen
  intro hle
  have ha := hI ((length_claims_le hs).trans hle)
  refine step_carousel ha hguard (fun g hg => ?_) hs
  obtain ⟨k, hk, hfeasible⟩ := ha.feasible hg
  exact hnone k (hk.trans_le ((length_claims_le hs).trans hle)) hfeasible

/-! ## Everybody has waited long enough -/

/-- All players of the pool have `i32` ratings and have waited long enough. -/
def Patient (pool : Buckets cfg τ) (m : Matcher cfg τ) : Prop :=
  ∀ b, ∀ p ∈ pool b, p.rating.toNat < 2147483648 ∧ enough ≤ m.now - p.enqueuedAt

/-- The players put back are in their buckets. -/
theorem mem_putHome (p : Player τ) : ∀ (todo : List (Player τ)) (bs : Buckets cfg τ),
    p ∈ todo ∨ p ∈ bs (bucketIndex cfg p.rating) →
      p ∈ putHome todo bs (bucketIndex cfg p.rating)
  | [], _, h => h.resolve_left List.not_mem_nil
  | q :: todo, bs, h => by
    refine mem_putHome p todo (bs.pushFront (bucketIndex cfg q.rating) q) ?_
    have hpush : ∀ b, p ∈ bs b → p ∈ bs.pushFront (bucketIndex cfg q.rating) q b := by
      intro b hb
      unfold Buckets.pushFront
      by_cases hbq : b = bucketIndex cfg q.rating
      · rw [hbq, Buckets.set_self]
        exact List.mem_cons_of_mem _ (hbq ▸ hb)
      · rwa [Buckets.set_of_ne bs hbq]
    rcases h with hmem | hold
    · rcases List.mem_cons.mp hmem with rfl | hmem
      · right
        unfold Buckets.pushFront
        rw [Buckets.set_self]
        exact List.mem_cons_self
      · exact Or.inl hmem
    · exact Or.inr (hpush _ hold)

/-- The longest wait is one of the waits. -/
theorem anchorWait_spec (m : Matcher cfg τ) (g : MatchGroup τ) :
    (∀ p ∈ g.toList, m.now - p.enqueuedAt ≤ m.anchorWait g) ∧
      ∃ p ∈ g.toList, m.anchorWait g = m.now - p.enqueuedAt := by
  have hmax : m.anchorWait g = g.toList.foldl (fun k p => max k (m.now - p.enqueuedAt)) 0 :=
    List.foldl_map
  obtain ⟨_, hall, hattained⟩ := foldl_max_spec (fun p => m.now - p.enqueuedAt) g.toList 0
  rw [← hmax] at hall hattained
  refine ⟨hall, ?_⟩
  rcases hattained with hzero | ⟨p, hp, hwait⟩
  · have hsome : ∃ p, p ∈ g.toList :=
      List.exists_mem_of_length_pos (by rw [Vector.length_toList]; decide)
    obtain ⟨p, hp⟩ := hsome
    have := hall p hp
    exact ⟨p, hp, by omega⟩
  · exact ⟨p, hp, hwait.symm⟩

/-- Then every group passes the gate. -/
theorem Attempting.admits {bs₀ : Buckets cfg τ} {w : Fin cfg.numWorkers} {m : Matcher cfg τ}
    (h : Attempting bs₀ w m) (hpatient : Patient bs₀ m) (htime : InTime bs₀ m) {g : MatchGroup τ}
    (hgate : m.workers w = .gate g) : m.Admits (.gate g) := by
  have hpool : ∀ p ∈ g.toList, p ∈ bs₀ (bucketIndex cfg p.rating) := by
    intro p hp
    have hundone := h.undone
    rw [hgate] at hundone
    rw [← hundone]
    exact mem_putHome p _ _ (Or.inl (List.mem_reverse.mpr hp))
  obtain ⟨hbound, p, hp, hwait⟩ := m.anchorWait_spec g
  have hlate : enough ≤ m.anchorWait g := by
    rw [hwait]
    exact (hpatient _ p (hpool p hp)).2
  have hsoon : m.anchorWait g < maxWait := by
    rw [hwait]
    exact htime _ p (hpool p hp)
  have hgap : (Lineup.best g).gap ≤ 2147483647 := (Lineup.best g).gap_le fun p hp => by
    have := (hpatient _ p (hpool p hp)).1
    omega
  have hspread := optimizeSplit_spread g m.nextMatchId
  show (optimizeSplit g m.nextMatchId).2 ≤ maxTeamGap (m.anchorWait g)
  rw [UInt32.le_iff_toNat_le, toNat_maxTeamGap hsoon]
  unfold enough at hlate
  omega

/-- The thread has formed a match and is about to write it. -/
def Matched (m₀ : Matcher cfg τ) (w : Fin cfg.numWorkers) (m : Matcher cfg τ) : Prop :=
  ∃ f, m.formed = m₀.formed ++ [f] ∧ m.workers w = .commit f 1 (commitMatch f) true

/-- Where the lone thread is, everybody having waited long enough. -/
def Fed (m₀ : Matcher cfg τ) (w : Fin cfg.numWorkers)
    (s : Matcher cfg τ × List (List (Fin cfg.numBuckets))) : Prop :=
  Carousel m₀ w s ∧ Patient m₀.buckets s.1 ∨ Matched m₀ w s.1

/-- Nothing that a lone run needs of the pool changes while the clock only goes on. -/
theorem Patient.mono {pool : Buckets cfg τ} {m m' : Matcher cfg τ} (h : Patient pool m)
    (hnow : m.now ≤ m'.now) : Patient pool m' := fun b p hp =>
  ⟨(h b p hp).1, (h b p hp).2.trans (Nat.sub_le_sub_right hnow _)⟩

theorem step_now {m m' : Matcher cfg τ} {w : Fin cfg.numWorkers} {e : MatcherEvent cfg τ}
    (hwf : (m.workers w).Wf) (hhome : m.buckets.Homed) (hguard : Alone w e)
    (hstep : m.step e = some m') : m.now ≤ m'.now := by
  rcases hguard with rfl | ⟨nanos, rfl⟩
  · have hw : m.workerStep w .run = some m' := hstep
    obtain ⟨pc, hmove⟩ := workerStep_move hwf hhome hw
    exact hmove.now.ge
  · cases hstep
    exact Nat.le_add_right ..

/-- **Step** of the lone thread when everybody has waited long enough: it goes on
around the carousel, or has formed a match. -/
theorem step_patient {m₀ : Matcher cfg τ} {w : Fin cfg.numWorkers}
    {s t : Matcher cfg τ × List (List (Fin cfg.numBuckets))} {e : MatcherEvent cfg τ}
    (h : Fed m₀ w s) (hguard : Alone w e ∧ InTime m₀.buckets s.1)
    (hstep : Lts.record step claims s e = some t) : Fed m₀ w t := by
  have hs := (Lts.record_eq_some.mp hstep).1
  rcases h with ⟨hcarousel, hpatient⟩ | ⟨f, hformed, hpc⟩
  · have hpatient' : Patient m₀.buckets t.1 := hpatient.mono
      (step_now hcarousel.attempting.wf hcarousel.attempting.homed hguard.1 hs)
    by_cases hgate : ∃ g, s.1.workers w = .gate g
    · obtain ⟨g, hgate⟩ := hgate
      rcases hguard.1 with rfl | ⟨nanos, rfl⟩
      · have hpass := hcarousel.attempting.admits hpatient hguard.2 hgate
        obtain ⟨m', f, hs', hformed, hpc⟩ := step_admits hgate hpass
        rw [hs'] at hs
        cases hs
        rw [hcarousel.formed] at hformed
        exact Or.inr ⟨f, hformed, hpc⟩
      · obtain ⟨m, log⟩ := s
        obtain ⟨m', log'⟩ := t
        have hsame : log' = log :=
          (Lts.record_eq_some.mp hstep).2.trans (List.append_nil _)
        subst hsame
        cases hs
        have ha := hcarousel.attempting
        exact Or.inl ⟨⟨hcarousel.formed, ⟨ha.wf, ha.homed, ha.undone⟩, hcarousel.ticket,
          hcarousel.claimed, hcarousel.round⟩, hpatient'⟩
    · exact Or.inl ⟨step_carousel hcarousel hguard.1 (fun g hg => hgate ⟨g, hg⟩) hstep,
        hpatient'⟩
  · rcases hguard.1 with rfl | ⟨nanos, rfl⟩
    · -- the write takes events of its own
      simp only [step, workerStep, workerRun, hpc, reduceCtorEq] at hs
    · have hsame : t.1 = { s.1 with now := s.1.now + nanos } := (Option.some.inj hs).symm
      exact Or.inr ⟨f, by rw [hsame]; exact hformed, by rw [hsame]; exact hpc⟩

/-- Steps left until the end of the revolution. -/
def stepsLeft (w : Fin cfg.numWorkers) (s : Matcher cfg τ × List (List (Fin cfg.numBuckets))) :
    Nat :=
  (revolution cfg - s.2.length) * (3 * cfg.stride + 21) + (s.1.workers w).fuel

/-- **Progress**: a thread that has formed nothing can go on. -/
theorem Carousel.progress {m₀ : Matcher cfg τ} {w : Fin cfg.numWorkers}
    {s : Matcher cfg τ × List (List (Fin cfg.numBuckets))} (h : Carousel m₀ w s)
    (hpatient : Patient m₀.buckets s.1) (htime : InTime m₀.buckets s.1)
    (hsome : ∃ k < revolution cfg, Feasible m₀.buckets (m₀.nthWindow k))
    (hlen : s.2.length ≤ revolution cfg) :
    ∃ t, Lts.record step claims s (.worker w .run) = some t ∧ t.2.length ≤ revolution cfg ∧
      t.1.now = s.1.now ∧ stepsLeft w t < stepsLeft w s := by
  obtain ⟨m, log⟩ := s
  by_cases hidle : m.workers w = .idle
  · have hless : log.length < revolution cfg := by
      obtain ⟨k, hk, hfeasible⟩ := hsome
      by_contra hge
      exact h.infeasible hidle k (hk.trans_le (not_lt.mp hge)) hfeasible
    have hs : m.step (.worker w .run) = some (m.takeTicket w) := by
      simp only [step, workerStep, workerRun, hidle]
    have hclaims : m.claims (.worker w .run) (m.takeTicket w) = [m.claimed] := by
      simp only [claims, hidle]
    refine ⟨(m.takeTicket w, log ++ [m.claimed]), Lts.record_eq_some.mpr ⟨hs, ?_⟩, ?_, rfl, ?_⟩
    · rw [hclaims]
    · simp only [List.length_append, List.length_singleton]
      omega
    · have hpc : (m.takeTicket w).workers w = .density m.claimed (reach m.claimed) 0 :=
        Function.update_self ..
      have hborders := @length_borders_le cfg (edge m.claimed)
      have hwindow : m.claimed.length = cfg.stride := by
        simp only [Matcher.claimed, window, List.length_map, List.length_range]
      obtain ⟨d, hd⟩ : ∃ d, revolution cfg - log.length = d + 1 :=
        ⟨revolution cfg - log.length - 1, by omega⟩
      have hd' : revolution cfg - (log.length + 1) = d := by omega
      simp only [stepsLeft, hpc, hidle, Pc.fuel, List.length_append, List.length_singleton, hd, hd',
        reach, hwindow, Nat.add_mul]
      omega
  · have hfewer : ∃ m', m.step (.worker w .run) = some m' ∧ m'.now = m.now ∧
        (m'.workers w).fuel < (m.workers w).fuel := by
      by_cases hgate : ∃ g, m.workers w = .gate g
      · obtain ⟨g, hgate⟩ := hgate
        have hpass := h.attempting.admits hpatient htime hgate
        obtain ⟨m', f, hs, _, hpc⟩ := step_admits hgate hpass
        have hw : m.workerStep w .run = some m' := hs
        obtain ⟨_, hmove⟩ := workerStep_move h.attempting.wf h.attempting.homed hw
        exact ⟨m', hs, hmove.now, by rw [hpc, hgate]; exact Nat.zero_lt_succ _⟩
      · obtain ⟨before, last, _, _, hsearch⟩ :=
          h.round.resolve_left fun hstart => hidle hstart.2
        obtain ⟨bs', pc', hs, _, hfuel, _⟩ :=
          step_search hsearch (hsearch.under_way hidle fun g hg => hgate ⟨g, hg⟩)
        refine ⟨_, hs, rfl, ?_⟩
        show (Function.update m.workers w pc' w).fuel < _
        rwa [Function.update_self]
    obtain ⟨m', hs, hnow, hfuel⟩ := hfewer
    refine ⟨(m', log), Lts.record_eq_some.mpr ⟨hs, ?_⟩, hlen, hnow, ?_⟩
    · rw [claims_of_not_idle hidle, List.append_nil]
    · simp only [stepsLeft]
      omega

/-- The thread gets to a match before the revolution is over. -/
theorem exists_matched {m : Matcher cfg τ} {w : Fin cfg.numWorkers} (hhome : m.buckets.Homed)
    (hidle : m.workers w = .idle) (hpatient : Patient m.buckets m) (htime : InTime m.buckets m)
    (hsome : ∃ k < revolution cfg, Feasible m.buckets (m.nthWindow k)) :
    ∃ s f, Lts.Run (Lts.record step claims) (fun s e => Alone w e ∧ InTime m.buckets s.1)
        (m, []) s ∧
      s.2.length ≤ revolution cfg ∧ s.1.formed = m.formed ++ [f] := by
  have hprogress : ∀ {a : Matcher cfg τ × List (List (Fin cfg.numBuckets))},
      (Fed m w a ∧ a.2.length ≤ revolution cfg ∧ a.1.now = m.now) → ¬ Matched m w a.1 →
      ∃ e b, (Alone w e ∧ InTime m.buckets a.1) ∧ Lts.record step claims a e = some b ∧
        (Fed m w b ∧ b.2.length ≤ revolution cfg ∧ b.1.now = m.now) ∧
        stepsLeft w b < stepsLeft w a := by
    rintro a ⟨hI, hlen, hnow⟩ hnot
    obtain ⟨hcarousel, hlate⟩ := hI.resolve_right hnot
    have hin : InTime m.buckets a.1 := fun b p hp => by
      rw [hnow]
      exact htime b p hp
    obtain ⟨b, hs, hlen', hnow', hless⟩ := hcarousel.progress hlate hin hsome hlen
    have hguard : Alone w (.worker w .run : MatcherEvent cfg τ) ∧ InTime m.buckets a.1 :=
      ⟨Or.inl rfl, hin⟩
    exact ⟨.worker w .run, b, hguard, hs, ⟨step_patient hI hguard hs, hlen', hnow'.trans hnow⟩,
      hless⟩
  obtain ⟨s, hrun, ⟨_, hlen, _⟩, f, hformed, _⟩ :=
    Lts.Run.exists_of_decreasing (stepsLeft w) hprogress
      ⟨Or.inl ⟨carousel_start hhome hidle, hpatient⟩, Nat.zero_le _, rfl⟩
  exact ⟨s, f, hrun, hlen, hformed⟩

/-- No run of the thread comes to the end of the revolution without one. -/
theorem matched_of_revolution {m : Matcher cfg τ} {w : Fin cfg.numWorkers}
    (hhome : m.buckets.Homed) (hidle : m.workers w = .idle) (hpatient : Patient m.buckets m)
    (hsome : ∃ k < revolution cfg, Feasible m.buckets (m.nthWindow k))
    {s : Matcher cfg τ × List (List (Fin cfg.numBuckets))}
    (hrun : Lts.Run (Lts.record step claims) (fun s e => Alone w e ∧ InTime m.buckets s.1)
      (m, []) s)
    (hlen : revolution cfg ≤ s.2.length) (hdone : s.1.workers w = .idle) :
    m.formed.length < s.1.formed.length := by
  have hend : Fed m w s :=
    hrun.inv (fun hI hguard hs => step_patient hI hguard hs)
      (Or.inl ⟨carousel_start hhome hidle, hpatient⟩)
  rcases hend with ⟨hcarousel, _⟩ | ⟨f, hformed, _⟩
  · obtain ⟨k, hk, hfeasible⟩ := hsome
    exact absurd hfeasible (hcarousel.infeasible hdone k (hk.trans_le hlen))
  · rw [hformed, List.length_append, List.length_singleton]
    exact Nat.lt_succ_self _

end Matcher

/-- **Relaxation, as far as the windows reach**. Once every player of the pool has
waited long enough (a wait that depends on nothing; and not so long that the
tolerance wraps around), a lone thread forms a match in one revolution of the
carousel if one of the revolution's windows is feasible: it gets there, and no
run of it comes to the end of the revolution without. If none is, it forms
nothing, however long they wait. -/
theorem relaxation_feeds (cfg : Config) : ∃ W < maxWait, ∀ {τ : Type} (m : Matcher cfg τ)
    (w : Fin cfg.numWorkers), m.buckets.Homed → m.workers w = .idle →
    ((∀ b, ∀ p ∈ m.buckets b, p.rating.toNat < 2147483648 ∧ W ≤ m.now - p.enqueuedAt ∧
        m.now - p.enqueuedAt < maxWait) →
      (∃ k < revolution cfg, Feasible m.buckets (m.nthWindow k)) →
      (∃ s f, Lts.Run (Lts.record Matcher.step Matcher.claims)
          (fun s e => Matcher.Alone w e ∧ Matcher.InTime m.buckets s.1) (m, []) s ∧
        s.2.length ≤ revolution cfg ∧ s.1.formed = m.formed ++ [f]) ∧
      ∀ s, Lts.Run (Lts.record Matcher.step Matcher.claims)
          (fun s e => Matcher.Alone w e ∧ Matcher.InTime m.buckets s.1) (m, []) s →
        revolution cfg ≤ s.2.length → s.1.workers w = .idle →
        m.formed.length < s.1.formed.length) ∧
    ((∀ k < revolution cfg, ¬ Feasible m.buckets (m.nthWindow k)) →
      ∀ s, Lts.Run (Lts.record Matcher.step Matcher.claims) (fun _ e => Matcher.Alone w e)
          (m, []) s →
        s.2.length ≤ revolution cfg → s.1.formed = m.formed) := by
  refine ⟨enough, by decide, fun m w hhome hidle => ⟨fun hwaits hsome => ?_, ?_⟩⟩
  · have hpatient : Matcher.Patient m.buckets m := fun b p hp =>
      ⟨(hwaits b p hp).1, (hwaits b p hp).2.1⟩
    have htime : Matcher.InTime m.buckets m := fun b p hp => (hwaits b p hp).2.2
    exact ⟨Matcher.exists_matched hhome hidle hpatient htime hsome, fun s hrun hlen hdone =>
      Matcher.matched_of_revolution hhome hidle hpatient hsome hrun hlen hdone⟩
  · intro hnone s hrun hlen
    exact (Matcher.carousel_starves hhome hidle hnone hrun hlen).formed

/-- Players of the given ratings arrive at time 0, and nothing has happened since. -/
def arrived (ratings : List UInt32) : Matcher Config.seven Nat :=
  ratings.foldl (fun m rating => m.enqueue (Int64.ofNat m.enqueued.length) rating 0)
    (Matcher.init Config.seven Nat 0)

/-- Nobody has acted on the players, who came at time 0. -/
structure Fresh (ratings : List UInt32) (m : Matcher Config.seven Nat) : Prop where
  idle : m.workers onlyThread = .idle
  formed : m.formed = []
  now : m.now = 0
  homed : m.buckets.Homed
  players : ∀ b, ∀ p ∈ m.buckets b, p.rating ∈ ratings ∧ p.enqueuedAt = 0

theorem arrived_fresh (ratings : List UInt32) : Fresh ratings (arrived ratings) := by
  have hstart : Fresh ratings (Matcher.init Config.seven Nat 0) := ⟨rfl, rfl, rfl, nofun, nofun⟩
  refine List.foldlRecOn ratings _ hstart fun m h rating hrating => ?_
  refine ⟨h.idle, h.formed, h.now, h.homed.enqueue _, fun b p hp => ?_⟩
  rcases Buckets.mem_set hp with ⟨_, hq⟩ | hold
  · rcases List.mem_append.mp hq with hold | hnew
    · exact h.players _ p hold
    · rw [List.mem_singleton.mp hnew]
      exact ⟨hrating, h.now⟩
  · exact h.players b p hold

/-- Ten players in one bucket are matched in a revolution before the tolerance wraps
around. -/
theorem relaxation_feeds_seven : ∃ (m : Matcher Config.seven Nat) (s : _ × _) (f : Formed Nat),
    Lts.Run (Lts.record Matcher.step Matcher.claims)
      (fun s e => Matcher.Alone onlyThread e ∧ Matcher.InTime m.buckets s.1) (m, []) s ∧
    s.2.length ≤ 4 ∧ m.formed = [] ∧ s.1.formed = [f] := by
  have hfresh := arrived_fresh (List.replicate 10 50)
  have hten : 10 ≤ ((arrived (List.replicate 10 50)).buckets ⟨0, by decide⟩).length := by
    decide +kernel
  have hticket : (arrived (List.replicate 10 50)).ticket.toNat + 7 + 2
      < 18446744073709551616 := by
    decide +kernel
  generalize arrived (List.replicate 10 50) = m at hfresh hten hticket
  obtain ⟨W, hW, hfeeds⟩ := relaxation_feeds Config.seven
  have hwaits : ∀ b, ∀ p ∈ m.buckets b, p.rating.toNat < 2147483648 ∧
      W ≤ maxWait - 1 - p.enqueuedAt ∧ maxWait - 1 - p.enqueuedAt < maxWait := by
    intro b p hp
    obtain ⟨hrating, hat⟩ := hfresh.players b p hp
    rw [List.eq_of_mem_replicate hrating, hat]
    exact ⟨by decide, Nat.le_sub_one_of_lt hW, by decide⟩
  obtain ⟨s, f, hrun, hlen, hmatch⟩ := ((hfeeds { m with now := maxWait - 1 } onlyThread
    hfresh.homed hfresh.idle).1 hwaits (Matcher.exists_feasible _ hticket hten)).1
  refine ⟨{ m with now := maxWait - 1 }, s, f, hrun, hlen, hfresh.formed, ?_⟩
  rw [hmatch, hfresh.formed]
  rfl

/-- Five players in the first bucket and five in the fifth: no window reaches both, and
no wait brings them together. -/
theorem relaxation_starves :
    ¬ ∀ (cfg : Config) (m : Matcher cfg Nat) (w : Fin cfg.numWorkers), m.buckets.Homed →
      10 ≤ m.buckets.waiting → m.workers w = .idle →
      ∃ W, ∀ now, (∀ b, ∀ p ∈ m.buckets b, W ≤ now - p.enqueuedAt) →
        ∃ s, Lts.Run (Lts.record Matcher.step Matcher.claims) (fun _ e => Matcher.Alone w e)
            ({ m with now := now }, []) s ∧
          s.2.length ≤ revolution cfg ∧ m.formed.length < s.1.formed.length := by
  intro hfeeds
  have hfresh := arrived_fresh (List.replicate 5 50 ++ List.replicate 5 450)
  have hten : 10 ≤ (arrived (List.replicate 5 50 ++ List.replicate 5 450)).buckets.waiting := by
    decide +kernel
  have hfew : ∀ start : Fin 7,
      headcount (arrived (List.replicate 5 50 ++ List.replicate 5 450)).buckets
        (reach (window Config.seven start)) < 10 := by
    decide +kernel
  generalize arrived (List.replicate 5 50 ++ List.replicate 5 450) = m at hfresh hten hfew
  obtain ⟨W, hW⟩ := hfeeds Config.seven m onlyThread hfresh.homed hten hfresh.idle
  obtain ⟨s, hrun, hlen, hformed⟩ := hW W fun b p hp => by
    rw [(hfresh.players b p hp).2]
    exact Nat.le_refl W
  have hnone : ∀ k < revolution Config.seven,
      ¬ Feasible m.buckets (Matcher.nthWindow { m with now := W } k) := fun k _ hfeasible =>
    absurd hfeasible.2 (not_le.mpr (hfew ⟨_, Nat.mod_lt _ (by decide)⟩))
  have hcarousel : Matcher.Carousel { m with now := W } onlyThread s := by
    refine Matcher.carousel_starves ?_ ?_ ?_ hrun hlen
    · exact hfresh.homed
    · exact hfresh.idle
    · exact hnone
  rw [hcarousel.formed] at hformed
  exact absurd hformed (lt_irrefl _)

end Supermatchmaker
