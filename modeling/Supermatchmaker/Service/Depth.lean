import Supermatchmaker.Matcher.Counters
import Supermatchmaker.Service.Effects

/-!
# The pool depth

`GET /metrics` reports the atomic `waiting`: up when a player is enqueued, down by
ten when a match is formed. The ingestion thread enqueues first and counts
afterwards, and in between a match thread may harvest the very player that is not
counted yet. If no other player is left it takes ten from a counter that stands
at nine.

`run_balanced` is the equation that holds in every state, wrapped or not. With it
`depth_eq_waiting` says that the counter does not drift: when the threads are at
rest it is the number of players in the buckets. `depth_iff_safe` says exactly
which acceptance makes it wrap.
-/

namespace Supermatchmaker

variable {cfg : Config}

/-- The players enqueued by the ingestion thread and not counted yet. -/
def Ingest.due (s : Ingest) : Nat :=
  match s.pc with
  | .placing true _ _ => 1
  | _ => 0

/-! ## The equation -/

/-- What a step of the ingestion thread does to the player it has not counted. -/
theorem Ingest.threadStep_due {s s' : Ingest} {e : IngestStep} {call : PoolCall}
    (h : s.threadStep e = some (s', call)) :
    (call = .none ∧ s'.due = s.due) ∨ (∃ ev, call = .enqueue ev ∧ s.due = 0 ∧ s'.due = 1) ∨
      (call = .counted ∧ s.due = 1 ∧ s'.due = 0) := by
  unfold due
  cases threadStep_move h with
  | read hpc | empty hpc _ | batch hpc _ | finish hpc => exact .inl ⟨rfl, by rw [hpc]⟩
  | count hpc => exact .inr (.inr ⟨rfl, by rw [hpc], rfl⟩)
  | place hpc => exact .inr (.inl ⟨_, rfl, by rw [hpc], rfl⟩)

/-- Restored players are in the pool before they are counted. -/
theorem restorePlayers_balanced :
    ∀ (players : List (Player Nat)) {m : Matcher cfg Nat} {due : Nat}, m.Balanced due →
      (restorePlayers m players).Balanced (due + players.length)
  | [], _, _, hm => hm
  | q :: players, m, due, hm => by
    have hrest := restorePlayers_balanced players (enqueue_balanced hm q.id q.rating q.origin)
    rw [List.length_cons, ← Nat.add_assoc, Nat.add_right_comm]
    exact hrest

/-- However a process boots, the counter is right then. -/
theorem restart_balanced (s : World cfg) : s.restart.mem.Balanced 0 := by
  have hinit : (Matcher.init cfg Nat s.mem.now).Balanced 0 := init_balanced s.mem.now
  exact count_balanced (restorePlayers_balanced s.recovered.1 hinit)

/-- A step of a match thread or of the retry thread, or of time. -/
theorem Drives.metered {m m' : Matcher cfg Nat} {e : WorldEvent cfg} {me : MatcherEvent cfg Nat}
    (hd : Drives e me) (h : m.step me = some m') : Metered m m' := by
  cases hd with
  | worker w e => exact workerStep_metered h
  | retry e => exact retryStep_metered h
  | tick nanos =>
    simp only [Matcher.step, Option.some.injEq] at h
    subst h
    exact .kept rfl rfl rfl

/-- **Every effect** keeps the depth counter in balance with what is due. -/
theorem Effect.balanced {s : World cfg} {e : WorldEvent cfg} {c : Core cfg} (hI : Inv s.mem)
    (h : Effect s e c) (hb : s.mem.Balanced s.ingest.due) : c.mem.Balanced c.ingest.due := by
  cases h with
  | process hd hstep =>
    exact (hd.metered hstep).balanced (step_enqueued hI hd.ne_enqueue hstep).1 hb
  | publish hd hstep =>
    exact (hd.metered hstep).balanced (step_enqueued hI hd.ne_enqueue hstep).1 hb
  | @ingest _ ingest call hstep =>
    rcases Ingest.threadStep_due hstep with ⟨rfl, hdue⟩ | ⟨ev, rfl, hdue, hdue'⟩
      | ⟨rfl, hdue, hdue'⟩
    · show s.mem.Balanced ingest.due
      rw [hdue]
      exact hb
    · show (s.mem.enqueue _ _ _).Balanced ingest.due
      rw [hdue] at hb
      rw [hdue']
      exact enqueue_balanced hb _ _ _
    · show (s.mem.count 1).Balanced ingest.due
      rw [hdue] at hb
      rw [hdue']
      exact count_balanced (n := 1) hb
  | restart => exact restart_balanced s
  | _ => exact hb

/-- What the equation needs of the state before a step. -/
structure World.Metered (s : World cfg) : Prop where
  inv : Inv s.mem
  founded : Founded s.mem
  balanced : s.mem.Balanced s.ingest.due

/-- **Step**. -/
theorem step_metered {s s' : World cfg} {e : WorldEvent cfg} (hC : s.Metered)
    (h : s.step e = some s') : s'.Metered := by
  have heffect := step_effect hC.founded h
  obtain ⟨hI, hF⟩ := heffect.process_inv hC.inv hC.founded
  exact ⟨hI, hF, heffect.balanced hC.inv hC.balanced⟩

/-- The equation, in every state of every run. -/
theorem run_balanced {s : World cfg} (h : Lts.Run World.step Lts.Free (World.init cfg) s) :
    s.mem.Balanced s.ingest.due :=
  (h.inv (I := World.Metered) (fun hC _ hs => step_metered hC hs)
    ⟨init_inv 0, init_founded 0, init_balanced 0⟩).balanced

/-! ## At rest -/

/-- The ingestion thread is between two events, every match thread between two
rounds. -/
def World.AtRest (s : World cfg) : Prop := s.ingest.due = 0 ∧ ∀ w, s.mem.workers w = .idle

/-- **No drift**: whatever was restored at boot and however the threads have
interleaved since, at rest the counter is the number of players in the buckets. -/
theorem depth_eq_waiting {s₀ s : World cfg} (h : Lts.Run World.step Lts.Free s₀.restart s)
    (hrest : s.AtRest) : s.mem.metrics.waiting = UInt64.ofNat s.mem.buckets.waiting := by
  obtain ⟨hdue, hidle⟩ := hrest
  have hC : s.Metered := h.inv (fun hC _ hs => step_metered hC hs)
    ⟨(restart_restored s₀).inv, (restart_restored s₀).founded, restart_balanced s₀⟩
  have hnone : inHands s.mem = 0 := by
    unfold inHands
    refine Finset.sum_eq_zero fun w _ => ?_
    rw [hidle w]
    rfl
  have hcard := hC.inv.card_eq
  rw [hnone, Multiset.card_zero, Nat.add_zero] at hcard
  have hbalanced := hC.balanced
  unfold Matcher.Balanced at hbalanced
  rw [hdue, Nat.zero_add, ← hcard, UInt64.ofNat_add] at hbalanced
  exact (UInt64.add_left_inj _).mp hbalanced

/-- Ten players arrive and are captured, and the next process restores them. -/
theorem depth_eq_waiting_restored :
    ∃ s : World Config.small, s.mem.buckets.waiting = 10 ∧
      s.mem.metrics.waiting = UInt64.ofNat s.mem.buckets.waiting := by
  have hexec : (Lts.exec World.step (fun _ _ => true) (World.init Config.small).restart
      (tenArrive (fun i => Int64.ofNat (i + 1)) ++ List.replicate 3 (.snapshot .run)
        ++ [.snapshot (.written true), .snapshot (.trimmed 0), .restart])).any
      (fun s => decide (s.mem.buckets.waiting = 10 ∧ s.ingest.due = 0) &&
        (s.mem.workers smallThread).isIdle) = true := by decide +kernel
  obtain ⟨s, hrun, hs⟩ := Lts.exists_run_of_exec hexec
  rw [Bool.and_eq_true, decide_eq_true_iff] at hs
  obtain ⟨⟨hten, hdue⟩, hidle⟩ := hs
  have hrest : s.AtRest := ⟨hdue, fun w => by
    obtain rfl : w = smallThread := Subsingleton.elim (α := Fin 1) _ _
    exact Pc.eq_idle hidle⟩
  exact ⟨s, hten, depth_eq_waiting hrun.free hrest⟩

/-! ## When it wraps -/

/-- No match is formed of the last ten players of the pool while one of them is
not counted. -/
def World.DepthSafe (s : World cfg) : WorldEvent cfg → Prop
  | .worker w _ => ¬ s.mem.Admits (s.mem.workers w) ∨ s.ingest.due = 0 ∨
      10 * (s.mem.formed.length + 1) < s.mem.enqueued.length
  | _ => True

instance (s : World cfg) (e : WorldEvent cfg) : Decidable (s.DepthSafe e) :=
  match e with
  | .worker w _ => inferInstanceAs (Decidable (¬ s.mem.Admits (s.mem.workers w) ∨ s.ingest.due = 0 ∨
      10 * (s.mem.formed.length + 1) < s.mem.enqueued.length))
  | .signup _ | .request _ | .call .. | .ingest _ | .retry _ | .snapshot _ | .poller _
  | .endMatch ..
  | .expireStatus _ | .expirePlayer _ | .tick _ | .restart => .isTrue trivial

/-- The counter is at most the number of players enqueued. -/
def World.DepthBounded (s : World cfg) : Prop :=
  s.mem.metrics.waiting.toNat ≤ s.mem.enqueued.length

instance (s : World cfg) : Decidable s.DepthBounded := inferInstanceAs (Decidable (_ ≤ _))

/-- Every match has ten players of its own. -/
theorem Inv.ten_le {m : Matcher cfg Nat} (hI : Inv m) :
    10 * m.formed.length ≤ m.enqueued.length := by
  have hcard := hI.card_eq
  omega

/-- What the counter reads while the players counted off were counted before. -/
theorem Matcher.Balanced.bounded {m : Matcher cfg Nat} {due : Nat} (hb : m.Balanced due)
    (hle : due + 10 * m.formed.length ≤ m.enqueued.length) :
    m.metrics.waiting.toNat ≤ m.enqueued.length := by
  obtain ⟨n, hn⟩ : ∃ n, m.enqueued.length = n + (due + 10 * m.formed.length) :=
    ⟨m.enqueued.length - (due + 10 * m.formed.length), by omega⟩
  have hcounter : m.metrics.waiting = UInt64.ofNat n := by
    unfold Matcher.Balanced at hb
    rw [hn, UInt64.ofNat_add n] at hb
    exact (UInt64.add_left_inj _).mp hb
  rw [hcounter, UInt64.toNat_ofNat']
  have := Nat.mod_le n (2 ^ 64)
  omega

/-- One player short: the counter stands at `2 ^ 64 - 1`. -/
theorem Matcher.Balanced.wrapped {m : Matcher cfg Nat} {due : Nat} (hb : m.Balanced due)
    (hlt : due + 10 * m.formed.length = m.enqueued.length + 1) :
    m.metrics.waiting.toNat = 2 ^ 64 - 1 := by
  have hcounter : m.metrics.waiting + 1 = 0 := by
    unfold Matcher.Balanced at hb
    rw [hlt, UInt64.ofNat_add, UInt64.add_comm (UInt64.ofNat _), ← UInt64.add_assoc] at hb
    have hzero : m.metrics.waiting + 1 + UInt64.ofNat m.enqueued.length
        = 0 + UInt64.ofNat m.enqueued.length := by
      rw [UInt64.zero_add]
      exact hb
    exact (UInt64.add_left_inj _).mp hzero
  have hneg : m.metrics.waiting = 0 - 1 := by
    rw [← hcounter, UInt64.add_sub_cancel]
  rw [hneg]
  decide

/-- A thread at a gate that its group passes forms the match in its next step. -/
theorem formed_of_admits {m m' : Matcher cfg Nat} {w : Fin cfg.numWorkers} {e : WorkerEvent}
    (hg : m.Admits (m.workers w)) (h : m.workerStep w e = some m') :
    ∃ f, m'.formed = m.formed ++ [f] := by
  cases hpc : m.workers w with
  | gate g =>
    rw [hpc] at hg
    cases e with
    | run =>
      obtain ⟨m'', f, hs, hformed, _⟩ := Matcher.step_admits hpc hg
      have hrun : m.step (.worker w .run) = some m' := h
      rw [hs] at hrun
      cases hrun
      exact ⟨f, hformed⟩
    | busy | cmd ok | reply ok => simp only [Matcher.workerStep, hpc, reduceCtorEq] at h
  | _ =>
    rw [hpc] at hg
    exact hg.elim

/-- The players counted off were counted before. -/
def World.Covered (s : World cfg) : Prop :=
  s.ingest.due + 10 * s.mem.formed.length ≤ s.mem.enqueued.length

/-- Under the guard the gauge does not go below zero. -/
theorem Effect.covered {s : World cfg} {e : WorldEvent cfg} {c : Core cfg} (hI : Inv s.mem)
    (hg : s.DepthSafe e) (h : Effect s e c) (hle : s.Covered) :
    c.ingest.due + 10 * c.mem.formed.length ≤ c.mem.enqueued.length := by
  unfold World.Covered at hle
  have hprocess : ∀ {me mem}, Drives e me → s.mem.step me = some mem →
      s.ingest.due + 10 * mem.formed.length ≤ mem.enqueued.length := by
    intro me mem hd hstep
    cases step_flow hI hstep with
    | still _ hf he => rwa [hf, he]
    | arrived hp => exact absurd hp (hd.ne_enqueue _ _ _)
    | formed _ hf he _ _ _ hgate =>
      obtain ⟨w, we, rfl, hadmits⟩ := hgate
      have hten := (step_inv hI hstep).ten_le
      cases hd
      rw [hf, he, List.length_append, List.length_singleton] at *
      rcases hg with hnot | hcounted | hmore
      · exact absurd hadmits hnot
      · -- everyone is counted, so the ten of this match are
        omega
      · have hone : s.ingest.due ≤ 1 := by
          unfold Ingest.due
          split <;> omega
        omega
  cases h with
  | process hd hstep => exact hprocess hd hstep
  | publish hd hstep _ => exact hprocess hd hstep
  | @ingest _ ingest call hstep =>
    show ingest.due + 10 * (s.mem.apply call).formed.length ≤ (s.mem.apply call).enqueued.length
    rcases Ingest.threadStep_due hstep with ⟨rfl, hdue⟩ | ⟨ev, rfl, hdue, hdue'⟩
      | ⟨rfl, hdue, hdue'⟩
    · rw [hdue]
      exact hle
    · show ingest.due + 10 * s.mem.formed.length ≤ (s.mem.enqueued ++ [_]).length
      rw [List.length_append, List.length_singleton]
      omega
    · show ingest.due + 10 * s.mem.formed.length ≤ s.mem.enqueued.length
      omega
  | restart =>
    have hten := (restart_restored s).inv.ten_le
    show 0 + 10 * s.restart.mem.formed.length ≤ s.restart.mem.enqueued.length
    omega
  | _ => exact hle

/-- **The slip**: the acceptance that the guard rules out counts off one player
more than were counted. -/
theorem step_overdrawn {s s' : World cfg} {e : WorldEvent cfg} (hS : Sound s.toCore)
    (hg : ¬ s.DepthSafe e) (h : s.step e = some s') :
    s'.ingest.due + 10 * s'.mem.formed.length = s'.mem.enqueued.length + 1 ∧
      s'.mem.enqueued = s.mem.enqueued := by
  cases e with
  | worker w we =>
    simp only [World.step, Option.map_eq_some_iff] at h
    obtain ⟨mem, hstep, rfl⟩ := h
    have hsafe : ¬ (¬ s.mem.Admits (s.mem.workers w) ∨ s.ingest.due = 0 ∨
        10 * (s.mem.formed.length + 1) < s.mem.enqueued.length) := hg
    rw [not_or, not_or, not_not] at hsafe
    obtain ⟨hadmits, hdue, hfew⟩ := hsafe
    have hme : s.mem.step (.worker w we) = some mem := hstep
    obtain ⟨f, hf⟩ := formed_of_admits hadmits hstep
    have hten := (step_inv hS.inv hme).ten_le
    have henq := (step_enqueued hS.inv (fun _ _ _ => by simp) hme).1
    have hingest : (s.execute (World.effective we (s.mem.workers w).command)).ingest
        = s.ingest := by
      unfold World.execute
      split <;> rfl
    have hone : s.ingest.due ≤ 1 := by
      unfold Ingest.due
      split <;> omega
    rw [hf, henq, List.length_append, List.length_singleton] at hten
    refine ⟨?_, henq⟩
    show (s.execute _).ingest.due + 10 * mem.formed.length = mem.enqueued.length + 1
    rw [hingest, hf, henq, List.length_append, List.length_singleton]
    omega
  | signup rating | request user | call c link | ingest e | retry e | snapshot e | poller e
  | endMatch matchId pg | expireStatus user | expirePlayer user | tick nanos | restart =>
    exact absurd trivial hg

/-- **The pool depth**: in a run of safe steps the counter never exceeds the
players enqueued, and from there the next step makes it wrap exactly when it is
not safe (short of `2 ^ 64 - 1` players, where nothing exceeds their number). -/
theorem depth_iff_safe {s : World cfg} (h : Lts.Run World.step World.DepthSafe (World.init cfg) s) :
    s.DepthBounded ∧ ∀ e s', s.step e = some s' → s.mem.enqueued.length < 2 ^ 64 - 1 →
      (s'.DepthBounded ↔ s.DepthSafe e) := by
  have hinv : Sound s.toCore ∧ s.Covered :=
    h.inv (I := fun s => Sound s.toCore ∧ s.Covered)
      (fun hI hg hs => ⟨step_sound hI.1 hs,
        (step_effect hI.1.founded hs).covered hI.1.inv hg hI.2⟩)
      ⟨init_sound, Nat.le_refl 0⟩
  obtain ⟨hsound, hcovered⟩ := hinv
  have hbalanced := run_balanced h.free
  refine ⟨hbalanced.bounded hcovered, fun e s' hs hshort => ?_⟩
  have hbalanced' := (step_effect hsound.founded hs).balanced hsound.inv hbalanced
  constructor
  · intro hbounded
    by_contra hg
    obtain ⟨hover, henq⟩ := step_overdrawn hsound hg hs
    have hwrapped := hbalanced'.wrapped hover
    unfold World.DepthBounded at hbounded
    rw [hwrapped, henq] at hbounded
    omega
  · intro hg
    exact hbalanced'.bounded ((step_effect hsound.founded hs).covered hsound.inv hg hcovered)

/-- Ten players, all of them counted, and their match. -/
theorem depth_iff_safe_ten :
    ∃ s : World Config.small, s.mem.formed.length = 1 ∧ s.DepthBounded ∧
      ∀ e s', s.step e = some s' → s.mem.enqueued.length < 2 ^ 64 - 1 →
        (s'.DepthBounded ↔ s.DepthSafe e) := by
  have hexec : (Lts.exec World.step (fun s e => s.DepthSafe e) (World.init Config.small)
      (tenArrive (fun i => Int64.ofNat (i + 1)) ++ formMatch)).any
      (fun s => s.mem.formed.length = 1) = true := by decide +kernel
  obtain ⟨s, hrun, hformed⟩ := Lts.exists_run_of_exec hexec
  exact ⟨s, of_decide_eq_true hformed, depth_iff_safe (hrun.mono of_decide_eq_true)⟩

/-- The match is formed before the ingestion thread has counted the tenth player:
its last two steps come too late. -/
theorem depth_bounded_fails :
    ¬ ∀ cfg, ∀ s : World cfg, Lts.Run World.step Lts.Free (World.init cfg) s → s.DepthBounded := by
  intro hclaim
  have hexec : (Lts.exec World.step (fun _ _ => true) (World.init Config.small)
      ((tenArrive fun i => Int64.ofNat (i + 1)).dropLast.dropLast ++ formMatch)).any
      (fun s => ¬ s.DepthBounded) = true := by decide +kernel
  obtain ⟨s, hrun, hwrapped⟩ := Lts.exists_run_of_exec hexec
  exact of_decide_eq_true hwrapped (hclaim Config.small s hrun.free)

end Supermatchmaker
