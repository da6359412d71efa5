import Supermatchmaker.Matcher.Redraw
import Supermatchmaker.Service.Effects

/-!
# Fair matches

A match goes from `optimize_split` to the database through two narrowing casts
(`rating as i32` in the teams, `spread as i32` in `flush_batch`) and one cast of
its id. The first two lose nothing because every rating in the service was an
`i32` when it came in: `Rated` is that provenance, over the pool, the snapshots
and everything restored from them, and `Effect.rated` its step lemma.

`matches_fair` puts this together with the split and the gate: whatever a thread
or the retry thread writes is a fair five against five of its group. The id is
the exception. It is a `u64` counter that nothing bounds, and from `2 ^ 63` on
`as i64` makes it negative (`matchId_cast_wraps`): ten players who cannot be
matched yet draw an id each time they fail the gate (`exists_redrawn`).
-/

namespace Supermatchmaker

variable {cfg : Config} {τ : Type}

/-! ## Casts -/

/-- The cast of a rating keeps it below `2 ^ 31`. -/
theorem toInt_toInt32 {x : UInt32} (h : x.toNat < 2147483648) : x.toInt32.toInt = x.toNat :=
  BitVec.toInt_eq_toNat_of_lt (x := x.toBitVec) (by
    show 2 * x.toNat < 2 ^ 32
    omega)

/-- The cast of an id keeps it below `2 ^ 63`, and only there. -/
theorem toInt_toInt64 (x : UInt64) :
    x.toInt64.toInt = x.toNat ↔ x.toNat < 9223372036854775808 := by
  have hlt := x.toNat_lt
  show x.toBitVec.toInt = _ ↔ _
  rw [BitVec.toInt_eq_toNat_cond]
  show (if 2 * x.toNat < 2 ^ 64 then (x.toNat : Int) else x.toNat - (2 ^ 64 : Nat)) = x.toNat ↔ _
  split <;> omega

/-- The clamp at 0 leaves an `i32`. -/
theorem toNat_poolRating (ev : IngestEvent) : ev.poolRating.toNat < 2147483648 := by
  unfold IngestEvent.poolRating
  have hnonneg : 0 ≤ (max ev.rating 0).toInt := by
    show 0 ≤ (if ev.rating ≤ 0 then (0 : Int32) else ev.rating).toInt
    split
    · decide
    next hpos =>
      rw [Int32.le_iff_toInt_le, not_le] at hpos
      exact hpos.le
  have hlt := (max ev.rating 0).toInt_lt
  rw [Int32.toNat_toUInt32_of_le (Int32.le_iff_toInt_le.mpr hnonneg)]
  show (max ev.rating 0).toInt.toNat < _
  omega

/-! ## The split of a group -/

/-- The total of a team, as it is published. -/
def teamSum (team : List (Int64 × Int32)) : Int := (team.map fun p => p.2.toInt).sum

/-- The match is the group split into two fives, and says how far apart they are. -/
structure MatchResult.Splits (r : MatchResult) (g : MatchGroup τ) : Prop where
  five : r.teamA.length = 5 ∧ r.teamB.length = 5
  players : ((r.teamA ++ r.teamB).map fun p => (p.1, p.2.toInt)).Perm
    (g.toList.map fun p => (p.id, (p.rating.toNat : Int)))
  spread : (r.spread.toNat : Int) = |teamSum r.teamA - teamSum r.teamB| / 5

/-- What `flush_batch` makes of the match says the same: the spread always, the id as
long as it fits into an `i64`. -/
structure MatchResult.Kept (r : MatchResult) : Prop where
  teams : r.item.teamA = r.teamA ∧ r.item.teamB = r.teamB
  spread : r.item.spread.toInt = r.spread.toNat
  matchId : r.item.matchId.toInt = r.matchId.toNat ↔ r.matchId.toNat < 9223372036854775808

/-- The published ratings of players with `i32` ratings. -/
theorem teamSum_eq {team : List (Player τ)} (hteam : ∀ p ∈ team, p.rating.toNat < 2147483648) :
    teamSum (team.map fun p => (p.id, p.rating.toInt32)) = (ratings team).sum := by
  unfold teamSum ratings
  rw [List.map_map]
  congr 1
  exact List.map_congr_left fun p hp => toInt_toInt32 (hteam p hp)

/-- The result of a group is a split of it. -/
theorem optimizeSplit_splits {g : MatchGroup τ}
    (hg : ∀ p ∈ g.toList, p.rating.toNat < 2147483648) (matchId : UInt64) :
    (optimizeSplit g matchId).1.Splits g := by
  obtain ⟨hA, hB, hperm⟩ := optimizeSplit_teams g matchId
  refine ⟨⟨hA, hB⟩, ?_, ?_⟩
  · have hpairs := hperm.map fun p : Int64 × Int32 => (p.1, p.2.toInt)
    rw [List.map_map] at hpairs
    refine hpairs.trans (List.Perm.of_eq (List.map_congr_left fun p hp => ?_))
    show (p.id, p.rating.toInt32.toInt) = _
    rw [toInt_toInt32 (hg p hp)]
  · have hside : ∀ b, ∀ p ∈ side g (bestSplit g).mask b, p.rating.toNat < 2147483648 := by
      intro b p hp
      refine hg p ((side_perm g (bestSplit g).mask).subset ?_)
      cases b with
      | true => exact List.mem_append_left _ hp
      | false => exact List.mem_append_right _ hp
    have hspread := optimizeSplit_spread g matchId
    rw [Lineup.gap, Lineup.best_macroGap, (bestSplit_mask g).2.2.2, macroGap_eq,
      ← teamSum_eq (hside true), ← teamSum_eq (hside false)] at hspread
    exact hspread

/-- And `flush_batch` makes the same of it. -/
theorem optimizeSplit_kept {g : MatchGroup τ}
    (hg : ∀ p ∈ g.toList, p.rating.toNat < 2147483648) (matchId : UInt64) :
    (optimizeSplit g matchId).1.Kept := by
  have hspread := optimizeSplit_spread g matchId
  have hgap : (Lineup.best g).gap ≤ 2147483647 := (Lineup.best g).gap_le fun p hp => by
    have := hg p hp
    omega
  exact ⟨⟨rfl, rfl⟩, toInt_toInt32 (by show (optimizeSplit g matchId).2.toNat < _; omega),
    toInt_toInt64 _⟩

/-! ## Where ratings come from -/

/-- Every rating in the pool and in the snapshots is an `i32`. -/
structure Rated (c : Core cfg) : Prop where
  enqueued : ∀ p ∈ c.mem.enqueued, p.rating.toNat < 2147483648
  snaps : ∀ snap ∈ c.snapshots, ∀ p ∈ snap.players, p.rating.toNat < 2147483648

theorem init_rated : Rated (World.init cfg).toCore where
  enqueued := nofun
  snaps := nofun

/-- **Step**: a rating comes from an ingest event, which is clamped, or from a
snapshot; and a snapshot copies the pool. -/
theorem Effect.rated {s : World cfg} {e : WorldEvent cfg} {c : Core cfg} (hS : Sound s.toCore)
    (hR : Rated s.toCore) (h : Effect s e c) : Rated c := by
  constructor
  · intro p hp
    rcases h.entries hS.inv hS.thread p hp with hold | ⟨x, _, hmade⟩ | ⟨snap, hsnap, q, hq, hsame⟩
    · exact hR.enqueued p hold
    · rw [hmade.rating]
      exact toNat_poolRating x.2
    · rw [hsame.rating]
      exact hR.snaps snap (List.mem_append_right _ hsnap) q hq
  · intro snap hsnap p hp
    rcases h.snapshots snap hsnap with hold | rfl | ⟨next, old, hlt, hpc, rfl⟩
    · exact hR.snaps snap hold p hp
    · exact absurd hp List.not_mem_nil
    · rcases List.mem_append.mp hp with hcopied | hnew
      · exact hR.snaps old (mem_snapshots_of_copying hpc) p hcopied
      · exact hR.enqueued p (hS.inv.mem_of_waiting (mem_waiting_of_bucket hnew))

/-! ## Matches -/

/-- The match is a fair five against five of its group, whose longest wait at the gate
was `wait` nanoseconds, and the database is told the same. -/
structure Fair (f : Formed τ) (wait : Nat) : Prop where
  splits : f.result.Splits f.group
  within : f.result.spread.toNat ≤ 50 + 10 * (wait / 1000000 / 100)
  kept : f.result.Kept
  matchId : f.ordinal + 1 < 9223372036854775808 → f.result.item.matchId.toInt = f.ordinal + 1

/-- The gate has checked the spread of a match that is formed. -/
theorem formed_within {m m' : Matcher cfg τ} {e : MatcherEvent cfg τ} {f : Formed τ} (hI : Inv m)
    (hstep : m.step e = some m') (hf : m'.formed = m.formed ++ [f]) :
    f.result.spread ≤ maxTeamGap (m.anchorWait f.group) := by
  have hnew : m'.formed ≠ m.formed := by
    rw [hf]
    simp
  obtain ⟨w, we, rfl, hpass⟩ := step_admits hI hstep hnew
  have hw : m.workerStep w we = some m' := hstep
  obtain ⟨pc, hmove⟩ := workerStep_move (hI.wf w) hI.homed hw
  cases hmove.delta with
  | keep _ hsame _ => exact absurd hsame hnew
  | take _ _ _ _ _ hsame _ _ => exact absurd hsame hnew
  | give _ _ hsame _ _ => exact absurd hsame hnew
  | form f' _ hf' ho _ hr _ _ _ =>
    rw [hf] at hf'
    obtain rfl : f = f' := List.singleton_inj.mp (List.append_cancel_left hf')
    cases hpc : m.workers w with
    | gate g =>
      rw [hpc] at ho hpass
      obtain rfl : g = f.group := Vector.toList_inj.mp ho
      rw [hr]
      exact hpass
    | _ =>
      rw [hpc] at hpass
      cases hpass

/-- **A match that has just been formed** is fair for the wait it was formed at. -/
theorem fair_of_formed {m m' : Matcher cfg τ} {e : MatcherEvent cfg τ} {f : Formed τ} (hI : Inv m)
    (hF : Founded m') (hstep : m.step e = some m') (hf : m'.formed = m.formed ++ [f])
    (hrated : ∀ p ∈ m'.enqueued, p.rating.toNat < 2147483648) : Fair f (m.anchorWait f.group) := by
  have hI' : Inv m' := step_inv hI hstep
  have hmem : f ∈ m'.formed := by
    rw [hf]
    exact List.mem_append_right _ List.mem_cons_self
  have hgroup : ∀ p ∈ f.group.toList, p.rating.toNat < 2147483648 := fun p hp =>
    hrated p (hI'.mem_of_matched hmem hp)
  have hwithin := UInt32.le_iff_toNat_le.mp (formed_within hI hstep hf)
  have hkept : f.result.Kept := by
    rw [hF.result f hmem]
    exact optimizeSplit_kept hgroup _
  refine ⟨?_, hwithin.trans (toNat_maxTeamGap_le _), hkept, fun hfew => ?_⟩
  · rw [hF.result f hmem]
    exact optimizeSplit_splits hgroup _
  · have hid : f.result.matchId.toNat = f.ordinal + 1 := by
      rw [hF.matchId hmem]
      exact UInt64.toNat_ofNat_of_lt' (by unfold UInt64.size; omega)
    rw [hkept.matchId.mpr (by omega), hid]
    rfl

namespace World

/-- The matches formed in a step, with the longest wait of each at the gate. -/
def accepted (s : World cfg) (_ : WorldEvent cfg) (t : World cfg) : List (Formed Nat × Nat) :=
  (t.mem.formed.drop s.mem.formed.length).map fun f => (f, s.mem.anchorWait f.group)

end World

/-- Some thread of the process is in `commit_match` with the match. -/
def Matcher.Committing (m : Matcher cfg τ) (f : Formed τ) : Prop :=
  (∃ w attempt todo clean, m.workers w = .commit f attempt todo clean) ∨
    ∃ p todo clean, m.retry = .commit p todo clean ∧ p.result = f

/-- A commit is of a match formed. -/
theorem Founded.of_committing {m : Matcher cfg τ} (hF : Founded m) {f : Formed τ}
    (h : m.Committing f) : f ∈ m.formed := by
  rcases h with ⟨w, attempt, todo, clean, hpc⟩ | ⟨p, todo, clean, hpc, rfl⟩
  · exact (hF.carried w f todo (by rw [hpc]; rfl)).1
  · exact (hF.retrying p.result todo (by rw [hpc]; rfl)).1

/-- A step of the service forms no match, or one. -/
theorem Effect.forms {s : World cfg} {e : WorldEvent cfg} {c : Core cfg} (hI : Inv s.mem)
    (h : Effect s e c) :
    (c.mem.formed.drop s.mem.formed.length = [] ∧ c.history = s.history) ∨
      ∃ me f, s.mem.step me = some c.mem ∧ c.mem.formed = s.mem.formed ++ [f] ∧
        c.history = s.history ++ [f] := by
  have hkeep : ∀ {c : Core cfg}, c.mem.formed = s.mem.formed → c.past = s.past →
      c.mem.formed.drop s.mem.formed.length = [] ∧ c.history = s.history := by
    intro c hf hp
    refine ⟨?_, ?_⟩
    · rw [hf, List.drop_length]
    · unfold Core.history
      rw [hf, hp]
  have hprocess : ∀ {me} {c : Core cfg}, s.mem.step me = some c.mem → c.past = s.past →
      (c.mem.formed.drop s.mem.formed.length = [] ∧ c.history = s.history) ∨
        ∃ me f, s.mem.step me = some c.mem ∧ c.mem.formed = s.mem.formed ++ [f] ∧
          c.history = s.history ++ [f] := by
    intro me c hstep hp
    rcases step_formed hI hstep with hf | ⟨f, hf, _⟩
    · exact Or.inl (hkeep hf hp)
    · refine Or.inr ⟨me, f, hstep, hf, ?_⟩
      unfold Core.history
      rw [hf, hp, List.append_assoc]
  cases h with
  | process _ hstep => exact hprocess hstep rfl
  | publish _ hstep _ => exact hprocess hstep rfl
  | @ingest _ _ call _ =>
    refine Or.inl (hkeep ?_ rfl)
    cases call <;> rfl
  | restart =>
    have hf : s.restart.mem.formed = [] := (restart_restored s).formed
    refine Or.inl ⟨?_, ?_⟩
    · rw [hf, List.drop_nil]
    · show s.history ++ s.restart.mem.formed = _
      rw [hf, List.append_nil]
  | _ => exact Or.inl (hkeep rfl rfl)

/-- The matches on record are fair, and no match is missing. -/
structure Recorded (c : Core cfg) (log : List (Formed Nat × Nat)) : Prop where
  fair : ∀ f wait, (f, wait) ∈ log → Fair f wait
  complete : ∀ f ∈ c.history, ∃ wait, (f, wait) ∈ log

/-- **Step** of the service with its record. -/
theorem step_recorded {s s' : World cfg} {e : WorldEvent cfg} {log : List (Formed Nat × Nat)}
    (hS : Sound s.toCore) (hR : Rated s.toCore) (hlog : Recorded s.toCore log)
    (h : s.step e = some s') : Recorded s'.toCore (log ++ s.accepted e s') := by
  have heffect := step_effect hS.founded h
  unfold World.accepted
  rcases heffect.forms hS.inv with ⟨hnone, hsame⟩ | ⟨me, f, hstep, hf, hmore⟩
  · rw [hnone, List.map_nil, List.append_nil]
    refine ⟨hlog.fair, fun f hf => ?_⟩
    rw [hsame] at hf
    exact hlog.complete f hf
  · have hfair : Fair f (s.mem.anchorWait f.group) :=
      fair_of_formed hS.inv (heffect.sound hS).founded hstep hf (heffect.rated hS hR).enqueued
    rw [hf, List.drop_left, List.map_singleton]
    constructor
    · intro g wait hg
      rcases List.mem_append.mp hg with hold | hnew
      · exact hlog.fair g wait hold
      · rw [List.mem_singleton, Prod.mk.injEq] at hnew
        obtain ⟨rfl, rfl⟩ := hnew
        exact hfair
    · intro g hg
      rw [hmore] at hg
      rcases List.mem_append.mp hg with hold | hnew
      · obtain ⟨wait, hmem⟩ := hlog.complete g hold
        exact ⟨wait, List.mem_append_left _ hmem⟩
      · rw [List.mem_singleton.mp hnew]
        exact ⟨_, List.mem_append_right _ List.mem_cons_self⟩

/-- **Every match written is a fair five against five of its group.** In every run,
every match that was formed was fair for the wait it had at the gate; whatever a
match thread or the retry thread is committing is one of them; and every group
`harvest` returns is split so, under any id. The casts lose nothing but the id's,
from `2 ^ 63` on. -/
theorem matches_fair {s : World cfg} {log : List (Formed Nat × Nat)}
    (hrun : Lts.Run (Lts.record World.step World.accepted) Lts.Free (World.init cfg, []) (s, log)) :
    (∀ f wait, (f, wait) ∈ log → Fair f wait) ∧
    (∀ f ∈ s.history, ∃ wait, (f, wait) ∈ log) ∧
    (∀ f, s.mem.Committing f → f ∈ s.mem.formed) ∧
    ∀ w g, s.mem.workers w = .gate g → ∀ matchId,
      (optimizeSplit g matchId).1.Splits g ∧ (optimizeSplit g matchId).1.Kept := by
  obtain ⟨hS, hR, hlog⟩ := hrun.inv
    (I := fun x => Sound x.1.toCore ∧ Rated x.1.toCore ∧ Recorded x.1.toCore x.2)
    (fun {a e b} hI _ hs => by
      obtain ⟨hS, hR, hlog⟩ := hI
      obtain ⟨hstep, hb⟩ := Lts.record_eq_some.mp hs
      rw [hb]
      exact ⟨step_sound hS hstep, (step_effect hS.founded hstep).rated hS hR,
        step_recorded hS hR hlog hstep⟩)
    ⟨init_sound, init_rated, ⟨nofun, nofun⟩⟩
  refine ⟨hlog.fair, hlog.complete, fun f hf => hS.founded.of_committing hf, ?_⟩
  intro w g hgate matchId
  have hg : ∀ p ∈ g.toList, p.rating.toNat < 2147483648 := by
    intro p hp
    have hheld : p ∈ (s.mem.workers w).held := by
      rw [hgate]
      exact hp
    exact hR.enqueued p (hS.inv.mem_of_waiting (Multiset.mem_add.mpr (Or.inr
      (Tally.mem_sum_of_mem (i := w) (Multiset.mem_coe.mpr hheld)))))
  exact ⟨optimizeSplit_splits hg matchId, optimizeSplit_kept hg matchId⟩

/-- Ten players of one rating are matched at once. -/
theorem matches_fair_small : ∃ (f : Formed Nat) (wait : Nat), Fair f wait ∧
    f.group.toList.map Player.id = (List.range 10).map fun i => Int64.ofNat (i + 1) := by
  have hexec : (Lts.exec (Lts.record World.step World.accepted) (fun _ _ => true)
      (World.init Config.small, [])
      (tenArrive (fun i => Int64.ofNat (i + 1)) ++ formMatch)).any (fun x =>
        x.2.any fun y => y.1.group.toList.map Player.id
          = (List.range 10).map fun i => Int64.ofNat (i + 1)) = true := by
    decide +kernel
  obtain ⟨⟨s, log⟩, hrun, hlog⟩ := Lts.exists_run_of_exec hexec
  obtain ⟨⟨f, wait⟩, hmem, hids⟩ := List.any_eq_true.mp hlog
  exact ⟨f, wait, (matches_fair hrun.free).1 f wait hmem, of_decide_eq_true hids⟩

/-! ## The id -/

/-- A run of a match thread up to its commit, as a run of the service. -/
theorem World.run_solo {s : World cfg} {w : Fin cfg.numWorkers} {m' : Matcher cfg Nat}
    (h : Lts.Run Matcher.step (Matcher.Solo w) s.mem m') :
    Lts.Run World.step Lts.Free s { s with mem := m' } := by
  refine h.map (I := fun _ => True) (fun mem => ({ s with mem := mem } : World cfg))
    (fun _ _ _ => trivial) (fun {a e b} _ hsolo hs => ?_) trivial
  have he : e = .worker w .run := hsolo
  subst he
  refine .single trivial (e := .worker w .run) ?_
  simp only [World.step, hs, Option.map_some]
  rfl

/-- With ten players in the only bucket, they are the group. -/
theorem Matcher.Attempting.group_eq {m : Matcher Config.small Nat}
    {bs₀ : Buckets Config.small Nat} {w : Fin Config.small.numWorkers} {g : MatchGroup Nat}
    (h : Matcher.Attempting bs₀ w m) (hgate : m.workers w = .gate g)
    {b : Fin Config.small.numBuckets} (hten : (bs₀ b).length = 10) : g.toList = bs₀ b := by
  have honly : ∀ c : Fin Config.small.numBuckets, c = b := fun c =>
    (Subsingleton.elim (α := Fin 1) c b)
  have hundone := h.undone
  rw [hgate] at hundone
  have hback := putHome_popped m.buckets (m.buckets b) g.toList fun p _ =>
    honly (bucketIndex Config.small p.rating)
  unfold Buckets.set at hback
  rw [Function.update_eq_self] at hback
  have hpool : bs₀ b = g.toList ++ m.buckets b := by
    rw [← hundone]
    show putHome g.toList.reverse m.buckets b = _
    rw [hback, Function.update_self]
  have hlen := congrArg List.length hpool
  rw [List.length_append, hten, Vector.length_toList] at hlen
  have hnil : m.buckets b = [] := List.eq_nil_of_length_eq_zero (by omega)
  rw [hpool, hnil, List.append_nil]

/-- The service with one player far above the nine others. -/
structure Waiting (s : World Config.small) (g : MatchGroup Nat) : Prop where
  reached : Lts.Run World.step Lts.Free (World.init Config.small) s
  idle : s.mem.workers (0 : Fin 1) = .idle
  fresh : s.mem.drawn = 0 ∧ s.mem.formed = []
  pool : s.mem.buckets (0 : Fin 1) = g.toList
  early : ¬ (optimizeSplit g 0).2 ≤ maxTeamGap (s.mem.anchorWait g)
  late : (optimizeSplit g 0).2
    ≤ maxTeamGap (Matcher.anchorWait { s.mem with now := s.mem.now + 60000000000 } g)

theorem exists_waiting : ∃ s g, Waiting s g := by
  have hexec : (Lts.exec World.step (fun _ _ => true) (World.init Config.small)
      (.signup 30000 :: tenArrive (fun i => Int64.ofNat (i + 1)))).any (fun s =>
        (s.mem.workers (0 : Fin 1)).isIdle &&
        (tryInto (s.mem.buckets (0 : Fin 1))).any fun g =>
          (s.mem.drawn = 0 ∧ s.mem.formed = []) ∧
            s.mem.buckets (0 : Fin 1) = g.toList ∧
            ¬ (optimizeSplit g 0).2 ≤ maxTeamGap (s.mem.anchorWait g) ∧
            (optimizeSplit g 0).2
              ≤ maxTeamGap (Matcher.anchorWait { s.mem with now := s.mem.now + 60000000000 } g))
      = true := by
    decide +kernel
  obtain ⟨s, hrun, hs⟩ := Lts.exists_run_of_exec hexec
  obtain ⟨hidle, hs⟩ := Bool.and_eq_true_iff.mp hs
  obtain ⟨g, -, hs⟩ := (Option.any_eq_true ..).mp hs
  obtain ⟨hfresh, hpool, hearly, hlate⟩ := of_decide_eq_true hs
  exact ⟨s, g, hrun.free, Pc.eq_idle hidle, hfresh, hpool, hearly, hlate⟩

namespace Waiting

variable {s : World Config.small} {g : MatchGroup Nat}

/-- Whatever the window, there is the one bucket. -/
theorem feasible (h : Waiting s g) (start : Nat) :
    Feasible s.mem.buckets (window Config.small start) := by
  have hten : (s.mem.buckets (0 : Fin 1)).length = 10 := by
    rw [h.pool, Vector.length_toList]
  have hmem : (0 : Fin 1) ∈ window Config.small start :=
    mem_window.mpr ⟨0, Nat.zero_lt_one, (Nat.mod_one _).symm⟩
  refine ⟨⟨(0 : Fin 1), hmem, fun hnil => ?_⟩, ?_⟩
  · rw [hnil] at hten
    cases hten
  · have hreach : (0 : Fin 1) ∈ (reach (window Config.small start)).toFinset :=
      List.mem_toFinset.mpr (List.mem_append_left _ hmem)
    exact hten.ge.trans (Finset.single_le_sum (f := fun b => (s.mem.buckets b).length)
      (fun _ _ => Nat.zero_le _) hreach)

/-- At the gate it is these ten, every time. -/
theorem group_eq (h : Waiting s g) {m : Matcher Config.small Nat} {g' : MatchGroup Nat}
    (hm : m.Attempting s.mem.buckets (0 : Fin 1)) (hgate : m.workers (0 : Fin 1) = .gate g') :
    g' = g := by
  have hten : (s.mem.buckets (0 : Fin 1)).length = 10 := by
    rw [h.pool, Vector.length_toList]
  have hpool := hm.group_eq hgate hten
  rw [h.pool] at hpool
  exact Vector.toList_inj.mp hpool

/-- They can fail the gate until all ids below `2 ^ 63` are drawn. -/
theorem exists_drawn (h : Waiting s g) : ∃ m, Lts.Run World.step Lts.Free s { s with mem := m } ∧
    s.mem.Rounds (0 : Fin 1) 9223372036854775807 m ∧ m.workers (0 : Fin 1) = .idle := by
  have hS : Sound s.toCore :=
    h.reached.inv (I := fun s => Sound s.toCore) (fun hI _ hs => step_sound hI hs) init_sound
  have hfail : ∀ {m : Matcher Config.small Nat} {g' : MatchGroup Nat} {n : Nat},
      s.mem.Rounds (0 : Fin 1) n m → m.workers (0 : Fin 1) = .gate g' → ¬ m.Admits (.gate g') := by
    intro m g' n hround hgate
    rw [h.group_eq hround.attempting hgate]
    show ¬ (optimizeSplit g 0).2 ≤ maxTeamGap (m.anchorWait g)
    unfold Matcher.anchorWait
    rw [hround.now]
    exact h.early
  obtain ⟨m, hrun, hround, hidle⟩ :=
    Matcher.exists_redrawn hS.inv.homed h.idle h.feasible hfail 9223372036854775807
  exact ⟨m, World.run_solo hrun, hround, hidle⟩

/-- A minute later they pass it. -/
theorem exists_late (h : Waiting s g) :
    ∃ t f, Lts.Run World.step Lts.Free (World.init Config.small) t ∧ t.mem.Committing f ∧
      f ∈ t.mem.formed ∧ f.ordinal = 9223372036854775807 := by
  obtain ⟨m, hrun, hround, hidle⟩ := h.exists_drawn
  have hbuckets := hround.attempting.buckets_eq hidle
  have htick : World.step ({ s with mem := m } : World Config.small) (.tick 60000000000)
      = some { s with mem := { m with now := m.now + 60000000000 } } := rfl
  have hnow : m.now + 60000000000 = s.mem.now + 60000000000 := by rw [hround.now]
  rw [hnow] at htick
  have hstart : Matcher.Rounds { m with now := s.mem.now + 60000000000 } (0 : Fin 1) 0
      { m with now := s.mem.now + 60000000000 } := by
    refine ⟨⟨hround.attempting.wf, hround.attempting.homed, ?_⟩, rfl, rfl, rfl⟩
    show Undone m.buckets m.buckets (m.workers (0 : Fin 1))
    rw [hidle]
    rfl
  have hwindow :
      Feasible m.buckets (Matcher.claimed { m with now := s.mem.now + 60000000000 }) := by
    rw [hbuckets]
    exact h.feasible _
  obtain ⟨m₂, g', hrun₂, hround₂, hgate⟩ := Matcher.exists_gate hstart hidle hwindow
  have hattempting : m₂.Attempting s.mem.buckets (0 : Fin 1) := by
    rw [← hbuckets]
    exact hround₂.attempting
  have hpass : m₂.Admits (.gate g') := by
    rw [h.group_eq hattempting hgate]
    show (optimizeSplit g 0).2 ≤ maxTeamGap (m₂.anchorWait g)
    unfold Matcher.anchorWait
    rw [hround₂.now]
    exact h.late
  obtain ⟨m₃, f, hstep, hformed, hpc⟩ := Matcher.step_admits hgate hpass
  have htoGate : Lts.Run World.step Lts.Free (World.init Config.small) { s with mem := m₂ } :=
    ((h.reached.trans hrun).trans (.single trivial htick)).trans (World.run_solo hrun₂)
  have hS : Sound ({ s with mem := m₂ } : World Config.small).toCore :=
    htoGate.inv (I := fun s => Sound s.toCore) (fun hI _ hs => step_sound hI hs) init_sound
  have hwrite : World.step ({ s with mem := m₂ } : World Config.small) (.worker (0 : Fin 1) .run)
      = some { s with mem := m₃ } := by
    simp only [World.step, hstep, Option.map_some]
    rfl
  refine ⟨{ s with mem := m₃ }, f, htoGate.trans (.single trivial hwrite),
    Or.inl ⟨_, _, _, _, hpc⟩, ?_, ?_⟩
  · show f ∈ m₃.formed
    rw [hformed]
    exact List.mem_append_right _ List.mem_cons_self
  · rcases step_formed hS.inv hstep with hsame | ⟨f', hf', hordinal⟩
    · rw [hsame] at hformed
      simp at hformed
    · rw [hformed] at hf'
      obtain rfl : f = f' := List.singleton_inj.mp (List.append_cancel_left hf')
      rw [hordinal]
      show m₂.drawn = _
      rw [hround₂.drawn]
      show m.drawn + 0 = _
      rw [hround.drawn, h.fresh.1]

end Waiting

/-- A process that has drawn `2 ^ 63 - 1` ids commits a match whose id is another
number in the database. -/
theorem matchId_cast_wraps :
    ¬ ∀ (cfg : Config) (s : World cfg), Lts.Run World.step Lts.Free (World.init cfg) s →
      ∀ f, s.mem.Committing f → f.result.item.matchId.toInt = f.result.matchId.toNat := by
  intro hcasts
  obtain ⟨s, g, hwaiting⟩ := exists_waiting
  obtain ⟨t, f, hrun, hcommitting, hf, hordinal⟩ := hwaiting.exists_late
  have hS : Sound t.toCore :=
    hrun.inv (I := fun s => Sound s.toCore) (fun hI _ hs => step_sound hI hs) init_sound
  have hcast := hcasts Config.small t hrun f hcommitting
  have hfits : f.result.matchId.toNat < 9223372036854775808 := (toInt_toInt64 _).mp hcast
  rw [hS.founded.matchId hf, hordinal] at hfits
  exact absurd hfits (by decide)

end Supermatchmaker
