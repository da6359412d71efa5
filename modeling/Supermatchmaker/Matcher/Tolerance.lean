import Supermatchmaker.Matcher.Moves
import Supermatchmaker.Matcher.Optimal

/-!
# The tolerance of the gate

`max_team_gap` is `50 + 10 * floor(ms / 100)`, and the longer a group has waited the
more it is allowed. The count of the hundreds of milliseconds is cast to `u32`, and
the product and the sum are `u32` too, with nothing that caps them: from a wait of
42949672500 ms on, 497 days, they wrap around, and the tolerance starts again near
zero (`exactGap_iff`). Below that wait it never falls (`maxTeamGap_mono`), and the
gap of a group does not depend on how long it has waited, so whoever passes the gate
still passes it later (`passes_longer_iff`); at that wait, who passed a moment ago
does not (`passes_longer_fails`).
-/

namespace Supermatchmaker

variable {cfg : Config} {τ : Type}

/-- The wait, in nanoseconds, at which the tolerance wraps around. -/
def maxWait : Nat := 42949672500000000

/-- `max_team_gap` is what its formula says, for this wait. -/
def ExactGap (wait : Nat) : Prop :=
  (maxTeamGap wait).toNat = 50 + 10 * (wait / 1000000 / 100)

/-- The tolerance never exceeds its formula; it falls short where the `u32` wraps. -/
theorem toNat_maxTeamGap_le (wait : Nat) :
    (maxTeamGap wait).toNat ≤ 50 + 10 * (wait / 1000000 / 100) := by
  unfold maxTeamGap
  rw [UInt32.toNat_add, UInt32.toNat_mul, UInt32.toNat_ofNat']
  have hmod := Nat.mod_le (wait / 1000000 / 100) (2 ^ 32)
  simp only [UInt32.reduceToNat]
  omega

/-- Below `maxWait` nothing wraps. -/
theorem toNat_maxTeamGap {wait : Nat} (h : wait < maxWait) :
    (maxTeamGap wait).toNat = 50 + 10 * (wait / 1000000 / 100) := by
  have hsteps : wait / 1000000 / 100 < 429496725 := by
    unfold maxWait at h
    omega
  have hcast : (UInt32.ofNat (wait / 1000000 / 100)).toNat = wait / 1000000 / 100 :=
    UInt32.toNat_ofNat_of_lt' (by unfold UInt32.size; omega)
  unfold maxTeamGap
  rw [UInt32.toNat_add, UInt32.toNat_mul, hcast]
  simp only [UInt32.reduceToNat]
  omega

/-- **Where the formula holds**: from `maxWait` on it exceeds every `u32`. -/
theorem exactGap_iff {wait : Nat} : ExactGap wait ↔ wait < maxWait := by
  refine ⟨fun hexact => ?_, toNat_maxTeamGap⟩
  have hlt := (maxTeamGap wait).toNat_lt
  unfold ExactGap at hexact
  rw [hexact] at hlt
  unfold maxWait
  omega

/-- **Relaxation**: below `maxWait` the tolerance never falls. -/
theorem maxTeamGap_mono {wait wait' : Nat} (h : wait ≤ wait') (hmax : wait' < maxWait) :
    maxTeamGap wait ≤ maxTeamGap wait' := by
  rw [UInt32.le_iff_toNat_le, toNat_maxTeamGap (h.trans_lt hmax), toNat_maxTeamGap hmax]
  have hms : wait / 1000000 / 100 ≤ wait' / 1000000 / 100 :=
    Nat.div_le_div_right (Nat.div_le_div_right h)
  omega

/-! ## The gate -/

/-- The group passes the gate under this id when its longest wait is `wait`. -/
def Passes (g : MatchGroup τ) (matchId : UInt64) (wait : Nat) : Prop :=
  (optimizeSplit g matchId).2 ≤ maxTeamGap wait

/-- The gate asks for the wait of its group now. -/
theorem admits_iff_passes (m : Matcher cfg τ) (g : MatchGroup τ) :
    m.Admits (.gate g) ↔ Passes g m.nextMatchId (m.anchorWait g) := Iff.rfl

/-- The gap does not depend on the id, which is another one each time. -/
theorem optimizeSplit_gap_eq (g : MatchGroup τ) (matchId matchId' : UInt64) :
    (optimizeSplit g matchId).2 = (optimizeSplit g matchId').2 := by
  have h := (optimizeSplit_spread g matchId).trans (optimizeSplit_spread g matchId').symm
  exact UInt32.toNat_inj.mp (Int.ofNat_inj.mp h)

/-- **Waiting longer never hurts** just as long as nobody has waited for `maxWait`: up to
there the tolerance is what its formula says, and who passes the gate still passes it
later on. -/
theorem passes_longer_iff (g : MatchGroup τ) (matchId matchId' : UInt64) {wait wait' : Nat}
    (h : wait ≤ wait') :
    (ExactGap wait ∧ ExactGap wait' ∧ (Passes g matchId wait → Passes g matchId' wait')) ↔
      wait' < maxWait := by
  refine ⟨fun hexact => exactGap_iff.mp hexact.2.1, fun hmax => ?_⟩
  refine ⟨exactGap_iff.mpr (h.trans_lt hmax), exactGap_iff.mpr hmax, fun hpass => ?_⟩
  unfold Passes at hpass ⊢
  rw [optimizeSplit_gap_eq g matchId' matchId]
  exact UInt32.le_trans hpass (maxTeamGap_mono h hmax)

/-- Ten players with a gap of 60, after a second and after two. -/
theorem passes_longer_two :
    ExactGap 2000000000 ∧ (Passes sixtyFirst 1 1000000000 → Passes sixtyFirst 2 2000000000) :=
  ((passes_longer_iff sixtyFirst 1 2 (by decide)).mpr (by decide)).2

/-- A nanosecond before `maxWait` they pass; then the tolerance is 4. -/
theorem passes_longer_fails :
    ¬ ∀ (g : MatchGroup Nat) (matchId : UInt64) (wait wait' : Nat), wait ≤ wait' →
      Passes g matchId wait → Passes g matchId wait' := by
  intro hlonger
  have hbefore : Passes sixtyFirst 1 (maxWait - 1) := by
    unfold Passes
    rw [sixtyFirst_spread]
    decide
  have hafter := hlonger sixtyFirst 1 (maxWait - 1) maxWait (Nat.sub_le ..) hbefore
  unfold Passes at hafter
  rw [sixtyFirst_spread] at hafter
  exact absurd hafter (by decide)

end Supermatchmaker
