import Mathlib.Algebra.BigOperators.Group.Finset.Basic
import Mathlib.Algebra.Order.BigOperators.Group.Finset
import Mathlib.Algebra.Order.Group.Multiset
import Mathlib.Data.Multiset.Basic
import Mathlib.Data.Fintype.Sum
import Mathlib.Tactic.Abel

/-!
# Tallies: items spread over finitely many places

A conservation argument counts items over a finite family of places (`∑ i, f i`
in a commutative monoid: a number, a multiset) while each step of the system
rewrites the content of one place. `sum_update` is the bookkeeping of one such
rewrite, without subtraction: *new total + old content = old total + new content*.

From a conserved total, `count_sum_eq_one` recovers the statement one wants: an
item counted once in the total sits in exactly one place, once.
-/

namespace Tally

universe u v w

variable {ι : Type u} {α : Type v}

/-- Rewriting place `i` to `x` changes the total by exactly that place. -/
theorem sum_update [Fintype ι] [DecidableEq ι] {M : Type w} [AddCommMonoid M]
    (g : α → M) (f : ι → α) (i : ι) (x : α) :
    (∑ j, g (Function.update f i x j)) + g (f i) = (∑ j, g (f j)) + g x := by
  rw [← Finset.add_sum_erase _ _ (Finset.mem_univ i),
    ← Finset.add_sum_erase (a := i) Finset.univ (fun j => g (f j)) (Finset.mem_univ i)]
  have hrest : ∑ j ∈ Finset.univ.erase i, g (Function.update f i x j)
      = ∑ j ∈ Finset.univ.erase i, g (f j) := by
    refine Finset.sum_congr rfl fun j hj => ?_
    rw [Function.update_of_ne (Finset.ne_of_mem_erase hj)]
  rw [hrest, Function.update_self]
  abel

/-- Naturals that sum to one: exactly one of them is one, the others zero. -/
theorem exists_unique_of_sum_eq_one [Fintype ι] {f : ι → ℕ} (h : ∑ i, f i = 1) :
    ∃ i, f i = 1 ∧ ∀ j, 0 < f j → j = i := by
  classical
  obtain ⟨i, hi⟩ : ∃ i, f i ≠ 0 := by
    by_contra hnone
    have hzero : ∀ i, f i = 0 := fun i => not_not.mp (not_exists.mp hnone i)
    rw [Finset.sum_eq_zero fun i _ => hzero i] at h
    exact absurd h (by decide)
  have hsplit := Finset.add_sum_erase Finset.univ f (Finset.mem_univ i)
  refine ⟨i, by omega, fun j hj => ?_⟩
  by_contra hne
  have hle : f j ≤ ∑ k ∈ Finset.univ.erase i, f k :=
    Finset.single_le_sum (fun k _ => Nat.zero_le (f k))
      (Finset.mem_erase.mpr ⟨hne, Finset.mem_univ j⟩)
  omega

/-- An item that occurs once in the union of all places occurs in exactly one
place, and there once. -/
theorem count_sum_eq_one [Fintype ι] [DecidableEq α] {f : ι → Multiset α} {a : α}
    (h : (∑ i, f i).count a = 1) :
    ∃ i, (f i).count a = 1 ∧ ∀ j, a ∈ f j → j = i := by
  rw [Multiset.count_sum'] at h
  obtain ⟨i, hi, huniq⟩ := exists_unique_of_sum_eq_one h
  exact ⟨i, hi, fun j hj => huniq j (Multiset.count_pos.mpr hj)⟩

/-- What sits in some place is in the union. -/
theorem mem_sum_of_mem [Fintype ι] {f : ι → Multiset α} {a : α} {i : ι} (h : a ∈ f i) :
    a ∈ ∑ j, f j :=
  Multiset.mem_sum.mpr ⟨i, Finset.mem_univ i, h⟩

end Tally
