import Mathlib.Data.List.Nodup
import Mathlib.Data.List.Range
import Mathlib.Data.Nat.ModEq

/-!
# Arcs of a ring

A ring of `n` places, counted round and round. An `arc` is a number of places in a
row from a starting point on; arcs laid end to end are one arc (`arc_append`), and
so are arcs of equal length that each begin where the last one ended
(`flatMap_arc`). An arc at least as long as the ring goes over every place
(`mem_arc`), one that is not longer goes over no place twice (`nodup_arc`): whoever
hands out arcs end to end covers the ring in one revolution, and nobody meets
anybody within one.
-/

namespace Ring

variable {n : Nat} (hn : 0 < n)

/-- The places `start`, `start + 1`, .. on the ring. -/
def arc (start len : Nat) : List (Fin n) :=
  (List.range len).map fun k => ⟨(start + k) % n, Nat.mod_lt _ hn⟩

/-- Only the starting point on the ring matters. -/
theorem arc_mod (start len : Nat) : arc hn (start % n) len = arc hn start len :=
  List.map_congr_left fun k _ => Fin.ext (Nat.mod_add_mod start n k)

theorem arc_append (start len len' : Nat) :
    arc hn start (len + len') = arc hn start len ++ arc hn (start + len) len' := by
  unfold arc
  rw [List.range_add, List.map_append, List.map_map]
  congr 1
  refine List.map_congr_left fun k _ => Fin.ext ?_
  show (start + (len + k)) % n = (start + len + k) % n
  rw [Nat.add_assoc]

/-- **End to end**: `k` arcs of length `len`. -/
theorem flatMap_arc (start len k : Nat) :
    (List.range k).flatMap (fun j => arc hn (start + j * len) len) = arc hn start (k * len) := by
  induction k with
  | zero => rw [Nat.zero_mul]; rfl
  | succ k ih =>
    rw [List.range_succ, List.flatMap_append, ih, Nat.succ_mul, arc_append]
    simp

/-- **Coverage**. -/
theorem mem_arc (start : Nat) {len : Nat} (hlen : n ≤ len) (b : Fin n) : b ∈ arc hn start len := by
  -- the way up from the starting point to the place
  obtain ⟨d, hd, hb⟩ : ∃ d < n, (start + d) % n = b.val := by
    have ht := Nat.mod_lt start hn
    by_cases hle : start % n ≤ b.val
    · refine ⟨b.val - start % n, by omega, ?_⟩
      rw [← Nat.mod_add_mod, Nat.add_sub_cancel' hle, Nat.mod_eq_of_lt b.isLt]
    · refine ⟨b.val + n - start % n, by omega, ?_⟩
      rw [← Nat.mod_add_mod, Nat.add_sub_cancel' (by omega), Nat.add_mod_right,
        Nat.mod_eq_of_lt b.isLt]
  exact List.mem_map.mpr ⟨d, List.mem_range.mpr (hd.trans_le hlen), Fin.ext hb⟩

/-- **No repeats**. -/
theorem nodup_arc (start : Nat) {len : Nat} (hlen : len ≤ n) : (arc hn start len).Nodup := by
  refine List.Nodup.map_on (fun i hi j hj heq => ?_) List.nodup_range
  have hi := List.mem_range.mp hi
  have hj := List.mem_range.mp hj
  have hmod : i % n = j % n := Nat.ModEq.add_left_cancel' start (Fin.mk.inj heq)
  rwa [Nat.mod_eq_of_lt (by omega), Nat.mod_eq_of_lt (by omega)] at hmod

end Ring
