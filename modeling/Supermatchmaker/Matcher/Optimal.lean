import Supermatchmaker.Lib.Rearrange
import Supermatchmaker.Matcher.Worker

/-!
# What the split minimises

A `Lineup` is one way to make a match of ten players: five for each team, in an
order that says who meets whom. Its `cost` is the gap between the teams plus the
differences of the pairs. `optimize_split` looks at no pairing at all, it sorts
both teams; `Lineup.penalty_le` (rearrangement) and `Lineup.ofMask_cost` say
that the penalty of a mask is nevertheless the least cost of the lineups with
that mask's teams, and `Lineup.exists_mask` that no choice of five is missed.

The tolerance gate looks at the gap alone (`Lineup.gap`), and several lineups of
least cost may have different gaps: the mask loop keeps the first it meets.
-/

namespace Supermatchmaker

variable {τ : Type}

/-- Five against five: the `i`-th of team A meets the `i`-th of team B. -/
structure Lineup (group : MatchGroup τ) where
  teamA : List (Player τ)
  teamB : List (Player τ)
  length_teamA : teamA.length = 5
  perm : (teamA ++ teamB).Perm group.toList

namespace Lineup

variable {group : MatchGroup τ} (l : Lineup group)

/-- The distance of the teams' total ratings. -/
def macroGap : Int := |(ratings l.teamA).sum - (ratings l.teamB).sum|

/-- The differences of the pairs. -/
def pairing : Int :=
  (List.zipWith (fun a b => |a - b|) (ratings l.teamA) (ratings l.teamB)).sum

/-- What `optimize_split` minimises, of a lineup. -/
def cost : Int := l.macroGap + l.pairing

/-- The gap per player: what the tolerance is about. -/
def gap : Int := l.macroGap / 5

/-- No other lineup of the ten costs less. -/
def Least : Prop := ∀ l' : Lineup group, l.cost ≤ l'.cost

theorem length_teamB : l.teamB.length = 5 := by
  have h := l.perm.length_eq
  rw [List.length_append, l.length_teamA, Vector.length_toList] at h
  omega

theorem macroGap_nonneg : 0 ≤ l.macroGap := abs_nonneg _

/-- The teams' totals are never further apart than the pairs. -/
theorem macroGap_le_pairing : l.macroGap ≤ l.pairing :=
  Rearrange.abs_sum_sub_sum_le (by
    rw [length_ratings, length_ratings, l.length_teamA, l.length_teamB])

/-! ## From a mask to a lineup and back -/

/-- The lineup of a mask: both teams sorted by rating. -/
def ofMask (group : MatchGroup τ) {mask : Nat} (hlt : mask < 1024) (h5 : countOnes mask = 5) :
    Lineup group where
  teamA := (side group mask true).insertionSort (fun p q => p.rating ≤ q.rating)
  teamB := (side group mask false).insertionSort (fun p q => p.rating ≤ q.rating)
  length_teamA := by
    rw [List.length_insertionSort]
    exact (length_side group hlt h5).1
  perm := ((List.perm_insertionSort _ _).append (List.perm_insertionSort _ _)).trans
    (side_perm group mask)

end Lineup

/-- Sorting the players sorts their ratings. -/
theorem ratings_insertionSort (l : List (Player τ)) :
    ratings (l.insertionSort fun p q => p.rating ≤ q.rating)
      = (ratings l).insertionSort (· ≤ ·) :=
  List.map_insertionSort _ _ _ l fun p _ q _ => by
    rw [UInt32.le_iff_toNat_le, Int.ofNat_le]

theorem ratings_perm {l l' : List (Player τ)} (h : l.Perm l') : (ratings l).Perm (ratings l') :=
  h.map _

/-- The gap of a mask is the distance of its two sides. -/
theorem macroGap_eq (group : MatchGroup τ) (mask : Nat) :
    macroGap group mask
      = |(ratings (side group mask true)).sum - (ratings (side group mask false)).sum| := by
  have htotal := (ratings_perm (side_perm group mask)).sum_eq
  rw [ratings, List.map_append, List.sum_append] at htotal
  simp only [macroGap, ← htotal]
  congr 1
  simp only [ratings]
  omega

/-- Some mask selects any given sublist. -/
theorem exists_mask_of_sublist {α : Type} {l L : List α} (h : l.Sublist L) :
    ∃ mask < 2 ^ L.length,
      (L.zipIdx.filter fun x => mask.testBit x.2 == true).map Prod.fst = l := by
  have hshift : ∀ (b : Bool) (mask : Nat) (L : List α),
      ((L.zipIdx 1).filter fun x => (Nat.bit b mask).testBit x.2 == true).map Prod.fst
        = (L.zipIdx.filter fun x => mask.testBit x.2 == true).map Prod.fst := by
    intro b mask L
    rw [List.zipIdx_succ, List.filter_map, List.map_map]
    simp only [Function.comp_def, Nat.testBit_bit_succ]
  induction h with
  | slnil => exact ⟨0, by simp⟩
  | @cons l L a _ ih =>
    obtain ⟨mask, hlt, hmask⟩ := ih
    refine ⟨Nat.bit false mask, ?_, ?_⟩
    · rw [List.length_cons, pow_succ, Nat.bit_val]
      simp only [Bool.toNat_false]
      omega
    · rw [List.zipIdx_cons, List.filter_cons_of_neg (by simp), Nat.zero_add, hshift, hmask]
  | @cons_cons l L a _ ih =>
    obtain ⟨mask, hlt, hmask⟩ := ih
    refine ⟨Nat.bit true mask, ?_, ?_⟩
    · rw [List.length_cons, pow_succ, Nat.bit_val]
      simp only [Bool.toNat_true]
      omega
    · rw [List.zipIdx_cons, List.filter_cons_of_pos (by simp), Nat.zero_add, List.map_cons,
        hshift, hmask]

namespace Lineup

variable {group : MatchGroup τ}

/-- **No choice of five is missed**: some mask of the loop has the lineup's teams
on its sides. -/
theorem exists_mask (l : Lineup group) :
    ∃ mask < 1024, countOnes mask = 5 ∧ l.teamA.Perm (side group mask true) ∧
      l.teamB.Perm (side group mask false) := by
  have hsub : l.teamA.Subperm group.toList :=
    (List.sublist_append_left ..).subperm.trans l.perm.subperm
  obtain ⟨as, has, hsub⟩ := hsub
  obtain ⟨mask, hlt, hmask⟩ := exists_mask_of_sublist hsub
  rw [Vector.length_toList] at hlt
  have hA : l.teamA.Perm (side group mask true) := by
    rw [side, hmask]
    exact has.symm
  refine ⟨mask, hlt, ?_, hA, ?_⟩
  · rw [countOnes_eq group hlt, ← hA.length_eq, l.length_teamA]
  · have h := l.perm.trans (side_perm group mask).symm
    exact (List.perm_append_left_iff l.teamA).mp (h.trans (hA.symm.append_right _))

/-- The gap of a mask is that of its lineup. -/
theorem ofMask_macroGap {mask : Nat} (hlt : mask < 1024) (h5 : countOnes mask = 5) :
    (ofMask group hlt h5).macroGap = Supermatchmaker.macroGap group mask := by
  rw [Lineup.macroGap, macroGap_eq]
  congr 2 <;> exact (ratings_perm (List.perm_insertionSort _ _)).sum_eq

/-- The sanction of a mask is the pairing of its sorted lineup. -/
theorem ofMask_pairing {mask : Nat} (hlt : mask < 1024) (h5 : countOnes mask = 5) :
    (ofMask group hlt h5).pairing = sanction group mask := by
  simp only [pairing, ofMask, ratings_insertionSort, sanction]

/-- So the penalty of a mask is the cost of its lineup. -/
theorem ofMask_cost {mask : Nat} (hlt : mask < 1024) (h5 : countOnes mask = 5) :
    (ofMask group hlt h5).cost = penalty group mask := by
  rw [cost, ofMask_macroGap, ofMask_pairing, penalty]

/-- A gap depends on who is in which team and on nothing else. -/
theorem macroGap_eq_of_perm (l : Lineup group) {mask : Nat}
    (hA : l.teamA.Perm (side group mask true)) (hB : l.teamB.Perm (side group mask false)) :
    l.macroGap = Supermatchmaker.macroGap group mask := by
  rw [Lineup.macroGap, macroGap_eq, (ratings_perm hA).sum_eq, (ratings_perm hB).sum_eq]

/-- **The sanction is the cheapest pairing**: no way to pair the members of a
mask's two sides beats the sorted one. -/
theorem sanction_le (l : Lineup group) {mask : Nat} (hA : l.teamA.Perm (side group mask true))
    (hB : l.teamB.Perm (side group mask false)) : sanction group mask ≤ l.pairing := by
  refine Rearrange.monge_dist.sum_zipWith_le (List.pairwise_insertionSort _ _)
    (List.pairwise_insertionSort _ _) ?_ ?_ ?_
  · exact (ratings_perm hA).trans (List.perm_insertionSort _ _).symm
  · exact (ratings_perm hB).trans (List.perm_insertionSort _ _).symm
  · rw [length_ratings, length_ratings, l.length_teamA, l.length_teamB]

/-- Of the lineups with these teams the sorted one is the cheapest. -/
theorem penalty_le (l : Lineup group) {mask : Nat} (hA : l.teamA.Perm (side group mask true))
    (hB : l.teamB.Perm (side group mask false)) : penalty group mask ≤ l.cost := by
  have hsanction := l.sanction_le hA hB
  rw [penalty, cost, l.macroGap_eq_of_perm hA hB]
  omega

/-- The lineup the mask loop ends with. -/
def best (group : MatchGroup τ) : Lineup group :=
  ofMask group (bestSplit_mask group).1 (bestSplit_mask group).2.1

theorem best_cost (group : MatchGroup τ) : (best group).cost = (bestSplit group).penalty := by
  rw [best, ofMask_cost, (bestSplit_mask group).2.2.1]

theorem best_macroGap (group : MatchGroup τ) :
    (best group).macroGap = (bestSplit group).macroGap := by
  rw [best, ofMask_macroGap, (bestSplit_mask group).2.2.2]

/-- It costs least. -/
theorem best_least (group : MatchGroup τ) : (best group).Least := by
  intro l
  obtain ⟨mask, hlt, h5, hA, hB⟩ := l.exists_mask
  calc (best group).cost = (bestSplit group).penalty := best_cost group
    _ ≤ penalty group mask := (bestSplit_spec group).least mask (List.mem_range.mpr hlt) h5
    _ ≤ l.cost := l.penalty_le hA hB

/-- A bound on the ten ratings bounds the gap of every lineup. -/
theorem gap_le (l : Lineup group) {B : Int} (hB : ∀ p ∈ group.toList, (p.rating.toNat : Int) ≤ B) :
    l.gap ≤ B := by
  have hbound : ∀ t : List (Player τ), t.length = 5 → (∀ p ∈ t, p ∈ group.toList) →
      0 ≤ (ratings t).sum ∧ (ratings t).sum ≤ 5 * B := by
    intro t hlen hmem
    refine ⟨(sum_ratings_le t).1, ?_⟩
    have h := List.sum_le_card_nsmul (ratings t) B fun v hv => by
      obtain ⟨p, hp, rfl⟩ := List.mem_map.mp hv
      exact hB p (hmem p hp)
    rwa [length_ratings, hlen, nsmul_eq_mul, Nat.cast_ofNat] at h
  have hA := hbound l.teamA l.length_teamA fun p hp =>
    l.perm.subset (List.mem_append_left _ hp)
  have hB := hbound l.teamB l.length_teamB fun p hp =>
    l.perm.subset (List.mem_append_right _ hp)
  have hgap : l.macroGap ≤ 5 * B := by
    simp only [macroGap, abs_le']
    omega
  simp only [gap]
  omega

end Lineup

/-- **The spread**: the gap per player of the best lineup, exactly. -/
theorem optimizeSplit_spread (group : MatchGroup τ) (matchId : UInt64) :
    ((optimizeSplit group matchId).2.toNat : Int) = (Lineup.best group).gap := by
  have hle := (Lineup.best group).gap_le (B := 4294967295) fun p _ => by
    have := p.rating.toNat_lt
    omega
  have h0 := (Lineup.best group).macroGap_nonneg
  simp only [optimizeSplit, Lineup.gap, Lineup.best_macroGap] at *
  rw [UInt32.toNat_ofNat_of_lt' (by simp only [UInt32.size]; omega)]
  omega

/-- **The split is optimal**: the teams returned are those of a lineup that costs
no more than any other, so of all choices of five and all pairings of the two
fives. The sanction of a mask is the least pairing of its two sides, and no mask
has a smaller penalty than the one chosen. -/
theorem optimizeSplit_optimal (group : MatchGroup τ) (matchId : UInt64) :
    (∃ best : Lineup group,
      (optimizeSplit group matchId).1.teamA.Perm
        (best.teamA.map fun p => (p.id, p.rating.toInt32)) ∧
      (optimizeSplit group matchId).1.teamB.Perm
        (best.teamB.map fun p => (p.id, p.rating.toInt32)) ∧
      best.cost = (bestSplit group).penalty ∧
      ∀ l : Lineup group, best.macroGap + best.pairing ≤ l.macroGap + l.pairing) ∧
    ∀ mask < 1024, countOnes mask = 5 →
      (bestSplit group).penalty ≤ penalty group mask ∧
      IsLeast {d | ∃ l : Lineup group, l.teamA.Perm (side group mask true) ∧
        l.teamB.Perm (side group mask false) ∧ l.pairing = d} (sanction group mask) := by
  constructor
  · refine ⟨Lineup.best group, ?_, ?_, Lineup.best_cost group, Lineup.best_least group⟩
    · exact ((List.perm_insertionSort _ _).map _).symm
    · exact ((List.perm_insertionSort _ _).map _).symm
  · intro mask hlt h5
    refine ⟨(bestSplit_spec group).least mask (List.mem_range.mpr hlt) h5, ?_, ?_⟩
    · exact ⟨Lineup.ofMask group hlt h5, List.perm_insertionSort _ _,
        List.perm_insertionSort _ _, Lineup.ofMask_pairing hlt h5⟩
    · rintro d ⟨l, hA, hB, rfl⟩
      exact l.sanction_le hA hB

/-! ## The gate looks at the gap alone -/

namespace Lineup

/-- Rejected, although a lineup is within the tolerance: another one, beyond it,
costs no more. -/
theorem exists_beyond {group : MatchGroup τ} {T : UInt32} {matchId : UInt64}
    (hreject : ¬ (optimizeSplit group matchId).2 ≤ T) (l : Lineup group) :
    ∃ l' : Lineup group, (T.toNat : Int) < l'.gap ∧ l'.cost ≤ l.cost := by
  refine ⟨best group, ?_, best_least group l⟩
  rw [UInt32.le_iff_toNat_le, not_le] at hreject
  rw [← optimizeSplit_spread group matchId]
  omega

/-- Every lineup beyond the tolerance costs at least twice its macro gap. -/
theorem cost_of_beyond {group : MatchGroup τ} {T : Int} (l : Lineup group) (h : T < l.gap) :
    10 * (T + 1) ≤ l.cost := by
  have hpairing := l.macroGap_le_pairing
  simp only [gap, cost] at *
  omega

end Lineup

/-- **What the gate lets through**: the chosen split is within the tolerance when
some split within it costs less than every split beyond it, and only when some
split within it costs least. A match thread gives a group back only if each
split within the current tolerance has one beyond it that costs no more. -/
theorem optimizeSplit_within (group : MatchGroup τ) (matchId : UInt64) (T : UInt32) :
    ((∃ l : Lineup group, l.gap ≤ T.toNat ∧
        ∀ l' : Lineup group, T.toNat < l'.gap → l.cost < l'.cost) →
      (optimizeSplit group matchId).2 ≤ T) ∧
    ((∃ l : Lineup group, l.cost < 10 * (T.toNat + 1)) → (optimizeSplit group matchId).2 ≤ T) ∧
    ((optimizeSplit group matchId).2 ≤ T →
      ∃ l : Lineup group, l.gap ≤ T.toNat ∧ ∀ l' : Lineup group, l.cost ≤ l'.cost) ∧
    ∀ {cfg : Config} (m m' : Matcher cfg τ) (w : Fin cfg.numWorkers) (todo : List (Player τ)),
      m.workers w = .gate group → m.workerRun w = some m' → m'.workers w = .giveBack todo →
      ∀ l : Lineup group, l.gap ≤ (maxTeamGap (m.anchorWait group)).toNat →
        ∃ l' : Lineup group, ((maxTeamGap (m.anchorWait group)).toNat : Int) < l'.gap ∧
          l'.cost ≤ l.cost := by
  refine ⟨?_, ?_, ?_, ?_⟩
  · rintro ⟨l, _, hcheaper⟩
    by_contra hreject
    obtain ⟨l', hbeyond, hcost⟩ := l.exists_beyond hreject
    exact absurd (hcheaper l' hbeyond) (not_lt.mpr hcost)
  · rintro ⟨l, hcheap⟩
    by_contra hreject
    obtain ⟨l', hbeyond, hcost⟩ := l.exists_beyond hreject
    have := l'.cost_of_beyond hbeyond
    omega
  · intro haccept
    refine ⟨Lineup.best group, ?_, Lineup.best_least group⟩
    rw [← optimizeSplit_spread group matchId, Int.ofNat_le]
    exact UInt32.le_iff_toNat_le.mp haccept
  · intro cfg m m' w todo hgate hrun hback l _
    have hreject : ¬ (optimizeSplit group m.nextMatchId).2 ≤ maxTeamGap (m.anchorWait group) := by
      intro haccept
      simp only [Matcher.workerRun, hgate, Option.some.injEq] at hrun
      subst hrun
      simp [Matcher.gateStep, haccept, Matcher.setPc] at hback
    exact l.exists_beyond hreject

/-- Ten players with the given ratings. -/
def rated (ratings : Vector UInt32 10) : MatchGroup Nat :=
  ratings.mapIdx fun i rating => ⟨Int64.ofNat i, rating, 0, i, 0⟩

/-- The best lineups of these ten have a gap of 12 or of 60. -/
def sixtyFirst : MatchGroup Nat := rated #v[0, 120, 600, 600, 0, 120, 600, 0, 300, 0]

/-- The same ten in another order. -/
def twelveFirst : MatchGroup Nat :=
  ⟨#[⟨0, 0, 0, 0, 0⟩, ⟨2, 600, 0, 2, 0⟩, ⟨3, 600, 0, 3, 0⟩, ⟨4, 0, 0, 4, 0⟩, ⟨7, 0, 0, 7, 0⟩,
    ⟨1, 120, 0, 1, 0⟩, ⟨5, 120, 0, 5, 0⟩, ⟨6, 600, 0, 6, 0⟩, ⟨8, 300, 0, 8, 0⟩,
    ⟨9, 0, 0, 9, 0⟩], rfl⟩

/-- In this order the spread is 60. -/
theorem sixtyFirst_spread (matchId : UInt64) : (optimizeSplit sixtyFirst matchId).2 = 60 := by
  have h : UInt32.ofNat ((bestSplit sixtyFirst).macroGap / 5).toNat = 60 := by decide +kernel
  exact h

/-- In this one it is 12. -/
theorem twelveFirst_spread (matchId : UInt64) : (optimizeSplit twelveFirst matchId).2 = 12 := by
  have h : UInt32.ofNat ((bestSplit twelveFirst).macroGap / 5).toNat = 12 := by decide +kernel
  exact h

theorem twelveFirst_perm : twelveFirst.toList.Perm sixtyFirst.toList := by
  decide +kernel

/-- One of the lineups with a gap of 12. -/
def levelLineup : Lineup sixtyFirst where
  teamA := twelveFirst.toList.take 5
  teamB := twelveFirst.toList.drop 5
  length_teamA := by decide
  perm := by
    rw [List.take_append_drop]
    exact twelveFirst_perm

/-- A group can be rejected although one of its splits is within the tolerance. -/
theorem optimizeSplit_beyond : ¬ ∀ (group : MatchGroup Nat) (matchId : UInt64) (T : UInt32),
    (∃ l : Lineup group, l.gap ≤ T.toNat) → (optimizeSplit group matchId).2 ≤ T := by
  intro h
  have haccept := h sixtyFirst 1 50 ⟨levelLineup, by decide +kernel⟩
  rw [sixtyFirst_spread] at haccept
  exact absurd haccept (by decide)

/-! ## The order of the group -/

namespace Lineup

/-- The same teams, for another order of the ten. -/
def reorder {group group' : MatchGroup τ} (h : group'.toList.Perm group.toList)
    (l : Lineup group') : Lineup group :=
  { l with perm := l.perm.trans h }

/-- What is least stays so in any order of the players. -/
theorem Least.reorder {group group' : MatchGroup τ} (h : group'.toList.Perm group.toList)
    {l : Lineup group'} (hl : l.Least) : (l.reorder h).Least :=
  fun l' => hl (l'.reorder h.symm)

/-- The order in which team A comes first. -/
def order {group : MatchGroup τ} (l : Lineup group) : MatchGroup τ :=
  ⟨(l.teamA ++ l.teamB).toArray, by
    rw [List.size_toArray, l.perm.length_eq, Vector.length_toList]⟩

theorem toList_order {group : MatchGroup τ} (l : Lineup group) :
    l.order.toList = l.teamA ++ l.teamB := rfl

/-- In that order mask 31 is the lineup's choice of five. -/
theorem side_order {group : MatchGroup τ} (l : Lineup group) :
    side l.order 31 true = l.teamA ∧ side l.order 31 false = l.teamB := by
  have hbit : ∀ i, (31 : Nat).testBit i = decide (i < 5) := Nat.testBit_two_pow_sub_one 5
  have hA : ∀ x ∈ l.teamA.zipIdx, x.2 < 5 := fun x hx => by
    have := List.snd_lt_of_mem_zipIdx hx
    rwa [l.length_teamA] at this
  have hB : ∀ x ∈ l.teamB.zipIdx 5, ¬ x.2 < 5 := fun x hx =>
    not_lt.mpr (List.le_snd_of_mem_zipIdx hx)
  simp only [side, toList_order, List.zipIdx_append, l.length_teamA, Nat.zero_add, hbit,
    List.filter_append, List.map_append]
  constructor
  · rw [List.filter_eq_self.mpr fun x hx => by simp [hA x hx],
      List.filter_eq_nil_iff.mpr fun x hx => by simp [hB x hx]]
    simp
  · rw [List.filter_eq_nil_iff.mpr fun x hx => by simp [hA x hx],
      List.filter_eq_self.mpr fun x hx => by simpa using hB x hx]
    simp

end Lineup

/-- Masks that are not strictly better leave the running best alone. -/
theorem Best.foldl_keep {group : MatchGroup τ} {best : Best} : ∀ masks : List Nat,
    (∀ mask ∈ masks, countOnes mask = 5 → best.penalty ≤ Supermatchmaker.penalty group mask) →
      masks.foldl (Best.step group) best = best
  | [], _ => rfl
  | mask :: masks, h => by
    have hstep : Best.step group best mask = best := by
      unfold Best.step
      split
      · rfl
      next h5 => rw [if_neg (not_lt.mpr (h mask List.mem_cons_self (not_not.mp h5)))]
    rw [List.foldl_cons, hstep]
    exact Best.foldl_keep masks fun m hm => h m (List.mem_cons_of_mem _ hm)

/-- Mask 31 is the first with five bits: when it costs least, it is chosen. -/
theorem bestSplit_first {group : MatchGroup τ}
    (h : ∀ mask < 1024, countOnes mask = 5 → penalty group 31 ≤ penalty group mask) :
    bestSplit group = ⟨31, penalty group 31, macroGap group 31⟩ := by
  have hbefore : (List.range 31).foldl (Best.step group) Best.init = Best.init :=
    Best.foldl_keep _ fun mask hmask h5 => by
      have hfew : ∀ m ∈ List.range 31, countOnes m ≠ 5 := by decide
      exact absurd h5 (hfew mask hmask)
  have hfirst : Best.step group Best.init 31 = ⟨31, penalty group 31, macroGap group 31⟩ := by
    unfold Best.step
    rw [if_neg (by decide)]
    exact if_pos (penalty_lt group 31)
  have hmasks : List.range 1024 = List.range 31 ++ 31 :: List.range' 32 992 := by
    rw [List.range_eq_range', List.range_eq_range']
    exact (List.range'_append_1 (s := 0) (m := 31) (n := 993)).symm
  rw [bestSplit, hmasks, List.foldl_append, hbefore, List.foldl_cons, hfirst]
  refine Best.foldl_keep _ fun mask hmask h5 => h mask ?_ h5
  have := List.mem_range'_1.mp hmask
  omega

/-- A lineup of least cost is the one chosen when its team A comes first. -/
theorem Lineup.Least.spread_order {group : MatchGroup τ} {l : Lineup group} (hl : l.Least)
    (matchId : UInt64) : ((optimizeSplit l.order matchId).2.toNat : Int) = l.gap := by
  have hperm : l.order.toList.Perm group.toList := l.perm
  obtain ⟨hA, hB⟩ := l.side_order
  let l₁ : Lineup l.order := ⟨l.teamA, l.teamB, l.length_teamA, .refl _⟩
  have hA₁ : l₁.teamA.Perm (side l.order 31 true) := .of_eq hA.symm
  have hB₁ : l₁.teamB.Perm (side l.order 31 false) := .of_eq hB.symm
  have hleast : ∀ mask < 1024, countOnes mask = 5 →
      penalty l.order 31 ≤ penalty l.order mask := by
    intro mask hlt h5
    calc penalty l.order 31 ≤ l₁.cost := l₁.penalty_le hA₁ hB₁
      _ = l.cost := rfl
      _ ≤ ((ofMask l.order hlt h5).reorder hperm).cost := hl _
      _ = penalty l.order mask := ofMask_cost hlt h5
  rw [optimizeSplit_spread, gap, best_macroGap, bestSplit_first hleast,
    ← l₁.macroGap_eq_of_perm hA₁ hB₁]
  rfl

/-- **What the order can change**: not the penalty attained, but the spread. Over
all orders of the ten the spreads reported are exactly the gaps of the lineups of
least cost, so the spread is the same in every order just when those gaps are
equal, and the ten pass a tolerance in every order just when all those gaps are
within it. -/
theorem optimizeSplit_orders (group : MatchGroup τ) (matchId : UInt64) :
    (∀ group' : MatchGroup τ, group'.toList.Perm group.toList →
      (bestSplit group').penalty = (bestSplit group).penalty) ∧
    (∀ s : UInt32, (∃ group' : MatchGroup τ, group'.toList.Perm group.toList ∧
        (optimizeSplit group' matchId).2 = s) ↔
      ∃ l : Lineup group, l.Least ∧ l.gap = s.toNat) ∧
    ((∀ group' : MatchGroup τ, group'.toList.Perm group.toList →
        (optimizeSplit group' matchId).2 = (optimizeSplit group matchId).2) ↔
      ∀ l l' : Lineup group, l.Least → l'.Least → l.gap = l'.gap) ∧
    ∀ T : UInt32, (∀ group' : MatchGroup τ, group'.toList.Perm group.toList →
        (optimizeSplit group' matchId).2 ≤ T) ↔
      ∀ l : Lineup group, l.Least → l.gap ≤ T.toNat := by
  have hreported : ∀ group' : MatchGroup τ, group'.toList.Perm group.toList →
      ∃ l : Lineup group, l.Least ∧ l.gap = (optimizeSplit group' matchId).2.toNat :=
    fun group' hperm => ⟨_, (Lineup.best_least group').reorder hperm,
      (optimizeSplit_spread group' matchId).symm⟩
  refine ⟨?_, ?_, ?_, ?_⟩
  · intro group' hperm
    rw [← Lineup.best_cost, ← Lineup.best_cost]
    exact le_antisymm (Lineup.best_least group' ((Lineup.best group).reorder hperm.symm))
      (Lineup.best_least group ((Lineup.best group').reorder hperm))
  · intro s
    constructor
    · rintro ⟨group', hperm, rfl⟩
      exact hreported group' hperm
    · rintro ⟨l, hl, hgap⟩
      refine ⟨l.order, l.perm, UInt32.toNat_inj.mp ?_⟩
      have hspread := hl.spread_order matchId
      omega
  · constructor
    · intro hsame l l' hl hl'
      rw [← hl.spread_order matchId, ← hl'.spread_order matchId, hsame l.order l.perm,
        hsame l'.order l'.perm]
    · intro hgap group' hperm
      obtain ⟨l, hl, heq⟩ := hreported group' hperm
      obtain ⟨l', hl', heq'⟩ := hreported group (.refl _)
      have := hgap l l' hl hl'
      exact UInt32.toNat_inj.mp (by omega)
  · intro T
    constructor
    · intro hpass l hl
      rw [← hl.spread_order matchId, Int.ofNat_le]
      exact UInt32.le_iff_toNat_le.mp (hpass l.order l.perm)
    · intro hgap group' hperm
      obtain ⟨l, hl, heq⟩ := hreported group' hperm
      have := hgap l hl
      exact UInt32.le_iff_toNat_le.mpr (by omega)

/-- The spread does depend on the order, and with it whether the ten pass. -/
theorem optimizeSplit_order_matters : ¬ ∀ (group group' : MatchGroup Nat) (matchId : UInt64),
    group'.toList.Perm group.toList →
      (optimizeSplit group' matchId).2 = (optimizeSplit group matchId).2 ∧
      (bestSplit group').penalty = (bestSplit group).penalty := by
  intro h
  have hsame := (h sixtyFirst twelveFirst 1 twelveFirst_perm).1
  rw [sixtyFirst_spread, twelveFirst_spread] at hsame
  exact absurd hsame (by decide)

end Supermatchmaker
