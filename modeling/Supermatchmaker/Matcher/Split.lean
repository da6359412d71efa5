import Supermatchmaker.Matcher.Pool

/-!
# The tolerance and the combinatorial split

`max_team_gap` and `optimize_split` from `matcher.rs`.

Mirroring notes:
- The two inner loops that distribute the ten players by the bits of the mask
  (once into `a_vals`/`b_vals`, once into `team_a`/`team_b`) are one definition,
  `side`: the players whose bit has the given value, in group order.
- `i64` sums of ten `u32` ratings cannot overflow and are `Int`; the `u32`
  arithmetic of `maxTeamGap` can, and wraps (release build).
- `sort_unstable` on integers is determined by its result: `insertionSort`.

What the rest of the development needs of the split is `optimizeSplit_teams`:
whatever the ratings, the two teams have five members each and are together the
ten players of the group. It rests on the running-best invariant of the mask
loop (`Best.foldl_spec`) and on the fact that the first mask examined already
beats `i64::MAX`.
-/

namespace Supermatchmaker

variable {τ : Type}

/-- `[Player; 10]`. -/
abbrev MatchGroup (τ : Type) := Vector (Player τ) 10

/-- `players.try_into().ok()`: `None` unless there are exactly ten. -/
def tryInto (l : List (Player τ)) : Option (MatchGroup τ) :=
  if h : l.length = 10 then some ⟨l.toArray, by simpa using h⟩ else none

theorem tryInto_eq_some {l : List (Player τ)} (h : l.length = 10) :
    ∃ g, tryInto l = some g ∧ g.toList = l := by
  refine ⟨⟨l.toArray, by simpa using h⟩, ?_, rfl⟩
  rw [tryInto, dif_pos h]

/-- What a match thread publishes for a match: `struct MatchResult`. -/
structure MatchResult where
  matchId : UInt64
  teamA : List (Int64 × Int32)
  teamB : List (Int64 × Int32)
  spread : UInt32
  deriving DecidableEq, Repr

/-- `max_team_gap`: `base + alpha_per_100ms * (as_millis() / 100) as u32`, all in
`u32`. The wait is in nanoseconds. -/
def maxTeamGap (anchorWait : Nat) : UInt32 :=
  50 + 10 * UInt32.ofNat (anchorWait / 1000000 / 100)

/-! ## Partition by a mask -/

/-- `u16::count_ones`. -/
def countOnes (mask : Nat) : Nat := ((List.range 16).filter mask.testBit).length

/-- The players whose bit of `mask` is `b`, in group order. -/
def side (group : MatchGroup τ) (mask : Nat) (b : Bool) : List (Player τ) :=
  (group.toList.zipIdx.filter fun pi => mask.testBit pi.2 == b).map Prod.fst

/-- Every player is on one side. -/
theorem side_perm (group : MatchGroup τ) (mask : Nat) :
    (side group mask true ++ side group mask false).Perm group.toList := by
  have hsplit := List.filter_append_perm (fun pi : Player τ × Nat => mask.testBit pi.2)
    group.toList.zipIdx
  have hmap := hsplit.map Prod.fst
  rw [List.map_append, List.zipIdx_map_fst] at hmap
  refine List.Perm.trans (List.Perm.of_eq ?_) hmap
  unfold side
  congr 2
  · simp
  · refine List.filter_congr fun pi _ => ?_
    cases mask.testBit pi.2 <;> rfl

/-- A team has as many players as the mask has bits. -/
theorem length_side_true (group : MatchGroup τ) (mask : Nat) :
    (side group mask true).length = ((List.range 10).filter mask.testBit).length := by
  have hidx : group.toList.zipIdx.map Prod.snd = List.range 10 := by
    rw [List.zipIdx_map_snd, Vector.length_toList, List.range_eq_range']
  rw [side, List.length_map, ← hidx, List.filter_map, List.length_map]
  simp [Function.comp_def]

/-- The bits of a mask of the loop are players of the first side. -/
theorem countOnes_eq (group : MatchGroup τ) {mask : Nat} (hlt : mask < 1024) :
    countOnes mask = (side group mask true).length := by
  have hhigh : ∀ i, 10 ≤ i → mask.testBit i = false := fun i hi =>
    Nat.testBit_lt_two_pow (Nat.lt_of_lt_of_le hlt (Nat.pow_le_pow_right (i := 10) Nat.two_pos hi))
  rw [length_side_true, countOnes, show List.range 16
    = List.range 10 ++ [10, 11, 12, 13, 14, 15] from by decide]
  rw [List.filter_append, List.length_append]
  simp [hhigh]

/-- A mask of the loop with five bits set picks five players for each side. -/
theorem length_side (group : MatchGroup τ) {mask : Nat} (hlt : mask < 1024)
    (h5 : countOnes mask = 5) :
    (side group mask true).length = 5 ∧ (side group mask false).length = 5 := by
  have hA : (side group mask true).length = 5 := by rw [← countOnes_eq group hlt, h5]
  have hsum := (side_perm group mask).length_eq
  rw [List.length_append, Vector.length_toList] at hsum
  exact ⟨hA, by omega⟩

/-! ## The penalty of a split -/

/-- The ratings as numbers. -/
def ratings (l : List (Player τ)) : List Int := l.map fun p => (p.rating.toNat : Int)

/-- `(sum_a - sum_b).abs()` with `sum_b = total - sum_a`. -/
def macroGap (group : MatchGroup τ) (mask : Nat) : Int :=
  let total := (ratings group.toList).sum
  let sumA := (ratings (side group mask true)).sum
  |sumA - (total - sumA)|

/-- Sort each team of five, sum the position-by-position differences. -/
def sanction (group : MatchGroup τ) (mask : Nat) : Int :=
  let aVals := (ratings (side group mask true)).insertionSort (· ≤ ·)
  let bVals := (ratings (side group mask false)).insertionSort (· ≤ ·)
  (List.zipWith (fun a b => |a - b|) aVals bVals).sum

/-- The penalty of a split. -/
def penalty (group : MatchGroup τ) (mask : Nat) : Int := macroGap group mask + sanction group mask

@[simp] theorem length_ratings (l : List (Player τ)) : (ratings l).length = l.length :=
  List.length_map _

/-- A rating is a `u32`. -/
theorem mem_ratings {l : List (Player τ)} {v : Int} (h : v ∈ ratings l) :
    0 ≤ v ∧ v < 4294967296 := by
  obtain ⟨p, _, rfl⟩ := List.mem_map.mp h
  have := p.rating.toNat_lt
  omega

theorem sum_ratings_le (l : List (Player τ)) :
    0 ≤ (ratings l).sum ∧ (ratings l).sum ≤ l.length * 4294967296 := by
  refine ⟨List.sum_nonneg fun v hv => (mem_ratings hv).1, ?_⟩
  have h := List.sum_le_card_nsmul (ratings l) 4294967296 fun v hv => (mem_ratings hv).2.le
  rwa [length_ratings, nsmul_eq_mul] at h

/-- No penalty comes near `i64::MAX`, so the mask loop always finds a split. -/
theorem penalty_lt (group : MatchGroup τ) (mask : Nat) :
    penalty group mask < 9223372036854775807 := by
  have htotal := sum_ratings_le group.toList
  have hA := sum_ratings_le (side group mask true)
  have hlen := (side_perm group mask).length_eq
  rw [List.length_append, Vector.length_toList] at hlen
  rw [Vector.length_toList] at htotal
  have hmacro : macroGap group mask ≤ 128849018880 := by
    simp only [macroGap, abs_le']
    constructor <;> omega
  have hterm : ∀ d ∈ List.zipWith (fun a b : Int => |a - b|)
      ((ratings (side group mask true)).insertionSort (· ≤ ·))
      ((ratings (side group mask false)).insertionSort (· ≤ ·)), d ≤ 4294967296 := by
    intro d hd
    rw [← List.map_uncurry_zip_eq_zipWith] at hd
    obtain ⟨⟨a, b⟩, hab, rfl⟩ := List.mem_map.mp hd
    obtain ⟨ha, hb⟩ := List.of_mem_zip hab
    have ha' := mem_ratings ((List.mem_insertionSort _).mp ha)
    have hb' := mem_ratings ((List.mem_insertionSort _).mp hb)
    rw [Function.uncurry_apply_pair, abs_le']
    omega
  have hsanction : sanction group mask ≤ 42949672960 := by
    have h := List.sum_le_card_nsmul _ _ hterm
    rw [List.length_zipWith, List.length_insertionSort, List.length_insertionSort,
      length_ratings, length_ratings, nsmul_eq_mul] at h
    simp only [sanction]
    have hmin : min (side group mask true).length (side group mask false).length ≤ 10 := by omega
    omega
  simp only [penalty]
  omega

/-! ## The mask loop -/

/-- The running best of the loop: `best_mask`, `best_penalty`, `best_macro`. -/
structure Best where
  mask : Nat
  penalty : Int
  macroGap : Int

/-- `best_penalty` starts at `i64::MAX`. -/
def Best.init : Best := ⟨0, 9223372036854775807, 0⟩

/-- One iteration: skip masks without five bits, keep the strictly better. -/
def Best.step (group : MatchGroup τ) (best : Best) (mask : Nat) : Best :=
  if countOnes mask ≠ 5 then best
  else if Supermatchmaker.penalty group mask < best.penalty then
    ⟨mask, Supermatchmaker.penalty group mask, Supermatchmaker.macroGap group mask⟩
  else best

/-- The running best after the masks `0 .. 1023`. -/
def bestSplit (group : MatchGroup τ) : Best := (List.range 1024).foldl (Best.step group) Best.init

/-- `optimize_split`, with the spread it reports. -/
def optimizeSplit (group : MatchGroup τ) (matchId : UInt64) : MatchResult × UInt32 :=
  let best := bestSplit group
  let pair := fun p : Player τ => (p.id, p.rating.toInt32)
  let spread := UInt32.ofNat (best.macroGap / 5).toNat
  (⟨matchId, (side group best.mask true).map pair, (side group best.mask false).map pair, spread⟩,
    spread)

/-- What the running best says after some masks: it is the start value or one of
the masks seen, with that mask's scores, and no mask seen beats it. -/
structure Best.Spec (group : MatchGroup τ) (start : Best) (seen : List Nat) (best : Best) :
    Prop where
  source : best = start ∨ (best.mask ∈ seen ∧ countOnes best.mask = 5 ∧
    best.penalty = Supermatchmaker.penalty group best.mask ∧
    best.macroGap = Supermatchmaker.macroGap group best.mask)
  le_start : best.penalty ≤ start.penalty
  least : ∀ mask ∈ seen, countOnes mask = 5 → best.penalty ≤ Supermatchmaker.penalty group mask

/-- **Step** of the loop over the masks. -/
theorem Best.step_spec {group : MatchGroup τ} {start best : Best} {seen : List Nat}
    (h : Best.Spec group start seen best) (mask : Nat) :
    Best.Spec group start (seen ++ [mask]) (Best.step group best mask) := by
  have hkeep : (countOnes mask = 5 → best.penalty ≤ Supermatchmaker.penalty group mask) →
      Best.Spec group start (seen ++ [mask]) best := by
    intro hle
    refine ⟨?_, h.le_start, ?_⟩
    · rcases h.source with hs | ⟨hm, hrest⟩
      · exact Or.inl hs
      · exact Or.inr ⟨List.mem_append_left _ hm, hrest⟩
    · intro m hm h5
      rcases List.mem_append.mp hm with hm | hm
      · exact h.least m hm h5
      · rw [List.mem_singleton.mp hm] at h5 ⊢
        exact hle h5
  unfold Best.step
  split
  next hne => exact hkeep fun h5 => absurd h5 hne
  next h5 =>
    have h5 : countOnes mask = 5 := not_not.mp h5
    split
    next hlt =>
      refine ⟨Or.inr ⟨by simp, h5, rfl, rfl⟩, hlt.le.trans h.le_start, ?_⟩
      intro m hm hm5
      rcases List.mem_append.mp hm with hm | hm
      · exact hlt.le.trans (h.least m hm hm5)
      · rw [List.mem_singleton.mp hm]
    next hge => exact hkeep fun _ => not_lt.mp hge

theorem Best.foldl_spec {group : MatchGroup τ} {start : Best} :
    ∀ (masks seen : List Nat) (best : Best), Best.Spec group start seen best →
      Best.Spec group start (seen ++ masks) (masks.foldl (Best.step group) best)
  | [], seen, best, h => by simpa using h
  | mask :: masks, seen, best, h => by
    have hrest := Best.foldl_spec masks (seen ++ [mask]) _ (Best.step_spec h mask)
    rwa [List.append_assoc, List.singleton_append] at hrest

/-- The loop over all masks. -/
theorem bestSplit_spec (group : MatchGroup τ) :
    Best.Spec group Best.init (List.range 1024) (bestSplit group) := by
  have h := Best.foldl_spec (List.range 1024) [] Best.init
    (⟨Or.inl rfl, le_refl _, by simp⟩ : Best.Spec group Best.init [] Best.init)
  rwa [List.nil_append] at h

/-- The loop ends on a mask it examined: five bits, with that mask's scores. -/
theorem bestSplit_mask (group : MatchGroup τ) :
    (bestSplit group).mask < 1024 ∧ countOnes (bestSplit group).mask = 5 ∧
      (bestSplit group).penalty = penalty group (bestSplit group).mask ∧
      (bestSplit group).macroGap = macroGap group (bestSplit group).mask := by
  have h := bestSplit_spec group
  rcases h.source with hinit | ⟨hmem, hrest⟩
  · -- impossible: mask 31 has five bits and beats `i64::MAX`
    have h31 := h.least 31 (List.mem_range.mpr (by decide)) (by decide)
    have hlt := penalty_lt group 31
    rw [hinit] at h31
    exact absurd (lt_of_le_of_lt h31 hlt) (lt_irrefl _)
  · exact ⟨List.mem_range.mp hmem, hrest⟩

/-- **The teams of a match**: five each, and together the ten players of the
group as `(id, rating as i32)` pairs. -/
theorem optimizeSplit_teams (group : MatchGroup τ) (matchId : UInt64) :
    (optimizeSplit group matchId).1.teamA.length = 5 ∧
    (optimizeSplit group matchId).1.teamB.length = 5 ∧
    ((optimizeSplit group matchId).1.teamA ++ (optimizeSplit group matchId).1.teamB).Perm
      (group.toList.map fun p => (p.id, p.rating.toInt32)) := by
  obtain ⟨hlt, h5, _⟩ := bestSplit_mask group
  obtain ⟨hA, hB⟩ := length_side group hlt h5
  simp only [optimizeSplit, List.length_map, ← List.map_append]
  exact ⟨hA, hB, (side_perm group _).map _⟩

@[simp] theorem optimizeSplit_matchId (group : MatchGroup τ) (matchId : UInt64) :
    (optimizeSplit group matchId).1.matchId = matchId := rfl

end Supermatchmaker
