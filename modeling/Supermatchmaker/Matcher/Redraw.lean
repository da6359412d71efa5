import Supermatchmaker.Matcher.Starvation

/-!
# The ids a failing group costs

`run_worker` draws a match id before it knows whether the group passes the gate.
A group that fails is given back, and the next round of the same thread finds it
again: while no time passes, each round leaves the pool as it was and costs one
id. `exists_redrawn` makes any number of such rounds.
-/

namespace Supermatchmaker

variable {cfg : Config} {τ : Type}

namespace Matcher

/-- Thread `w` runs and nothing else does, not even the clock. -/
def Solo (w : Fin cfg.numWorkers) (_ : Matcher cfg τ) (e : MatcherEvent cfg τ) : Prop :=
  e = .worker w .run

/-- Thread `w` has come from `m₀`, where it was at the top of its loop, to `m`, has
formed nothing and has drawn `n` ids. -/
structure Rounds (m₀ : Matcher cfg τ) (w : Fin cfg.numWorkers) (n : Nat) (m : Matcher cfg τ) :
    Prop where
  attempting : Attempting m₀.buckets w m
  drawn : m.drawn = m₀.drawn + n
  formed : m.formed = m₀.formed
  now : m.now = m₀.now

/-- **Step**: the thread goes on, drawing `k` ids. -/
theorem Rounds.step {m₀ m m' : Matcher cfg τ} {w : Fin cfg.numWorkers} {n k : Nat}
    (h : Rounds m₀ w n m) (hpass : ¬ m.Admits (m.workers w))
    (hs : m.step (.worker w .run) = some m') (hdrawn : m'.drawn = m.drawn + k)
    (hformed : m'.formed = m.formed) (hnow : m'.now = m.now) : Rounds m₀ w (n + k) m' where
  attempting := step_attempting h.attempting (Or.inl ⟨⟨.run, rfl⟩, hpass⟩) hs
  drawn := by rw [hdrawn, h.drawn, Nat.add_assoc]
  formed := hformed.trans h.formed
  now := hnow.trans h.now

/-- A round up to the gate, on a window that has a group. -/
theorem exists_gate {m₀ m : Matcher cfg τ} {w : Fin cfg.numWorkers} {n : Nat}
    (h : Rounds m₀ w n m) (hidle : m.workers w = .idle)
    (hfeasible : Feasible m₀.buckets m.claimed) :
    ∃ m' g, Lts.Run step (Solo w) m m' ∧ Rounds m₀ w n m' ∧ m'.workers w = .gate g := by
  have hticket : m.step (.worker w .run) = some (m.takeTicket w) := by
    simp only [Matcher.step, workerStep, workerRun, hidle]
  have hstart : Rounds m₀ w n (m.takeTicket w) ∧ Search m₀.buckets m.claimed
      (m.takeTicket w).buckets ((m.takeTicket w).workers w) := by
    have hsearch := search_takeTicket m w
    rw [h.attempting.buckets_eq hidle] at hsearch
    refine ⟨h.step (k := 0) (not_admits fun g hg => ?_) hticket rfl rfl rfl, hsearch⟩
    rw [hidle] at hg
    cases hg
  have hprogress : ∀ {a : Matcher cfg τ},
      (Rounds m₀ w n a ∧ Search m₀.buckets m.claimed a.buckets (a.workers w)) →
      ¬ (∃ g, a.workers w = .gate g) →
      ∃ e b, Solo w a e ∧ a.step e = some b ∧
        (Rounds m₀ w n b ∧ Search m₀.buckets m.claimed b.buckets (b.workers w)) ∧
        (b.workers w).fuel < (a.workers w).fuel := by
    rintro a ⟨hround, hsearch⟩ hnot
    have hgate : ∀ g, a.workers w ≠ .gate g := fun g hg => hnot ⟨g, hg⟩
    have hbusy : a.workers w ≠ .idle := by
      intro hover
      rw [hover] at hsearch
      exact hsearch hfeasible
    obtain ⟨bs', pc', hs, hsearch', hfuel, _⟩ := step_search hsearch (hsearch.under_way hbusy hgate)
    have hpc : (a.withPool ⟨bs', Function.update a.workers w pc'⟩).workers w = pc' :=
      Function.update_self ..
    refine ⟨_, _, rfl, hs, ⟨hround.step (k := 0) (not_admits hgate) hs rfl rfl rfl, ?_⟩, ?_⟩
    · rw [hpc]
      exact hsearch'
    · rwa [hpc]
  obtain ⟨m', hrun, ⟨hround, _⟩, g, hgate⟩ := Lts.Run.exists_of_decreasing
    (fun a : Matcher cfg τ => (a.workers w).fuel) hprogress hstart
  have hone : Lts.Run Matcher.step (Solo w) m (m.takeTicket w) := .single rfl hticket
  exact ⟨m', g, hone.trans hrun, hround, hgate⟩

/-- The loop of `return_group` comes to its end. -/
theorem exists_givenBack {m₀ : Matcher cfg τ} {w : Fin cfg.numWorkers} {n : Nat} :
    ∀ (todo : List (Player τ)) {m : Matcher cfg τ}, Rounds m₀ w n m →
      m.workers w = .giveBack todo →
      ∃ m', Lts.Run step (Solo w) m m' ∧ Rounds m₀ w n m' ∧ m'.workers w = .idle := by
  intro todo
  induction todo with
  | nil =>
    intro m h hpc
    have hs : m.step (.worker w .run) = some (m.setPc w .idle) := by
      simp only [Matcher.step, workerStep, workerRun, hpc]
    have hpass : ¬ m.Admits (m.workers w) := by
      rw [hpc]
      exact id
    exact ⟨_, .single rfl hs, h.step (k := 0) hpass hs rfl rfl rfl, Function.update_self ..⟩
  | cons p todo ih =>
    intro m h hpc
    have hs : m.step (.worker w .run) = some ((m.setBucket (bucketIndex cfg p.rating)
        (p :: m.buckets (bucketIndex cfg p.rating))).setPc w (.giveBack todo)) := by
      simp only [Matcher.step, workerStep, workerRun, hpc]
    have hpass : ¬ m.Admits (m.workers w) := by
      rw [hpc]
      exact id
    obtain ⟨m', hrun, hround, hidle⟩ :=
      ih (h.step (k := 0) hpass hs rfl rfl rfl) (Function.update_self ..)
    have hone : Lts.Run Matcher.step (Solo w) m _ := .single rfl hs
    exact ⟨m', hone.trans hrun, hround, hidle⟩

/-- Where all groups fail the gate, thread `w` can draw as many ids as it likes. -/
theorem exists_redrawn {m₀ : Matcher cfg τ} {w : Fin cfg.numWorkers} (hhome : m₀.buckets.Homed)
    (hidle : m₀.workers w = .idle) (hfeasible : ∀ start, Feasible m₀.buckets (window cfg start))
    (hfail : ∀ {m g n}, Rounds m₀ w n m → m.workers w = .gate g → ¬ m.Admits (.gate g))
    (n : Nat) : ∃ m, Lts.Run step (Solo w) m₀ m ∧ Rounds m₀ w n m ∧ m.workers w = .idle := by
  induction n with
  | zero =>
    refine ⟨m₀, .refl, ⟨⟨?_, hhome, ?_⟩, rfl, rfl, rfl⟩, hidle⟩
    · rw [hidle]
      trivial
    · rw [hidle]
      rfl
  | succ n ih =>
    obtain ⟨m, hrun, hround, hidle⟩ := ih
    obtain ⟨m', g, hrun', hround', hgate⟩ := exists_gate hround hidle (hfeasible _)
    have hpass : ¬ m'.Admits (.gate g) := hfail hround' hgate
    have hreject : ¬ (optimizeSplit g m'.nextMatchId).2 ≤ maxTeamGap (m'.anchorWait g) := hpass
    -- the group fails, the id is drawn
    have hs : m'.step (.worker w .run) = some (({ m' with
        nextMatchId := m'.nextMatchId + 1, drawn := m'.drawn + 1 } : Matcher cfg τ).setPc w
          (.giveBack g.toList.reverse)) := by
      simp only [Matcher.step, workerStep, workerRun, hgate, gateStep]
      rw [if_neg hreject]
    rw [← hgate] at hpass
    obtain ⟨m'', hrun'', hround'', hidle''⟩ := exists_givenBack g.toList.reverse
      (hround'.step (k := 1) hpass hs rfl rfl rfl) (Function.update_self ..)
    have hone : Lts.Run Matcher.step (Solo w) m' _ := .single rfl hs
    exact ⟨m'', (hrun.trans hrun').trans (hone.trans hrun''), hround'', hidle''⟩

end Matcher

end Supermatchmaker
