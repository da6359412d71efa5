import Mathlib

/-!
# The cheapest pairing of two lists

Two lists of equal length are paired position by position, and the pair `(a, b)`
costs `c a b`. A cost is `Monge` when uncrossing a pair of pairs never makes it
dearer; then no pairing is cheaper than the one of the sorted lists
(`Monge.sum_zipWith_le`). The argument moves the least element of the second
list to its front: the exchange is one application of `Monge`
(`Monge.swap_front`), and what remains is the same problem one element shorter.

`monge_dist` is the instance on integers, the distance: the sorted pairing is
the cheapest transport between two sets of points on a line.
-/

namespace Rearrange

variable {α β γ : Type*}

/-- Some order of the second list has the same pairs as a given order of the first. -/
theorem exists_zip_perm {as as' : List α} (h : as.Perm as') :
    ∀ bs : List β, bs.length = as.length →
      ∃ bs' : List β, bs'.Perm bs ∧ (as'.zip bs').Perm (as.zip bs) := by
  induction h with
  | nil => exact fun bs _ => ⟨bs, .refl _, by simp⟩
  | @cons a as as' _ ih =>
    intro bs hlen
    match bs, hlen with
    | b :: bs, hlen =>
      obtain ⟨bs', hperm, hzip⟩ := ih bs (Nat.succ.inj hlen)
      exact ⟨b :: bs', hperm.cons b, hzip.cons (a, b)⟩
  | swap a a' as =>
    intro bs hlen
    match bs, hlen with
    | b :: b' :: bs, _ => exact ⟨b' :: b :: bs, .swap .., .swap ..⟩
  | trans h₁ _ ih₁ ih₂ =>
    intro bs hlen
    obtain ⟨bs₁, hperm₁, hzip₁⟩ := ih₁ bs hlen
    obtain ⟨bs₂, hperm₂, hzip₂⟩ := ih₂ bs₁ (by rw [hperm₁.length_eq, hlen, h₁.length_eq])
    exact ⟨bs₂, hperm₂.trans hperm₁, hzip₂.trans hzip₁⟩

/-- The total cost depends on the pairs only, not on their order. -/
theorem sum_zipWith_eq [AddCommMonoid γ] (c : α → β → γ) (as : List α) (bs : List β) :
    (List.zipWith c as bs).sum = ((as.zip bs).map fun p => c p.1 p.2).sum := by
  rw [List.zip, List.map_zipWith]

variable [LinearOrder α] [LinearOrder β]
variable [AddCommMonoid γ] [PartialOrder γ] [IsOrderedAddMonoid γ]

/-- Pairing the smaller with the smaller is never dearer. -/
def Monge (c : α → β → γ) : Prop :=
  ∀ ⦃a a' : α⦄ ⦃b b' : β⦄, a ≤ a' → b ≤ b' → c a b + c a' b' ≤ c a b' + c a' b

/-- The distance of integers. -/
theorem monge_dist : Monge fun a b : Int => |a - b| := by
  intro a a' b b' ha hb
  simp only [abs_eq_max_neg]
  omega

/-- However two lists of integers are paired, the distances add up to at least
the distance of the sums. -/
theorem abs_sum_sub_sum_le : ∀ {as bs : List Int}, as.length = bs.length →
    |as.sum - bs.sum| ≤ (List.zipWith (fun a b => |a - b|) as bs).sum
  | [], [], _ => by simp
  | a :: as, b :: bs, hlen => by
    have hrest := abs_sum_sub_sum_le (Nat.succ.inj hlen : as.length = bs.length)
    simp only [List.zipWith_cons_cons, List.sum_cons]
    calc |a + as.sum - (b + bs.sum)|
        = |(a - b) + (as.sum - bs.sum)| := by rw [add_sub_add_comm]
      _ ≤ |a - b| + |as.sum - bs.sum| := abs_add_le ..
      _ ≤ |a - b| + (List.zipWith (fun a b => |a - b|) as bs).sum := by gcongr

variable {c : α → β → γ}

/-- Exchange `b`, met somewhere in the second list, with the larger `x` paired
with the least element `a` of the first. -/
theorem Monge.swap_front (hc : Monge c) {a : α} {b x : β} (hbx : b ≤ x) (ys : List β) :
    ∀ (as : List α) (xs : List β), (∀ a' ∈ as, a ≤ a') → as.length = (xs ++ b :: ys).length →
      c a b + (List.zipWith c as (xs ++ x :: ys)).sum
        ≤ c a x + (List.zipWith c as (xs ++ b :: ys)).sum
  | [], xs, _, hlen => by simp at hlen
  | a' :: as, [], ha, _ => by
    have hswap := hc (ha a' List.mem_cons_self) hbx
    simp only [List.nil_append, List.zipWith_cons_cons, List.sum_cons, ← add_assoc]
    gcongr
  | a' :: as, y :: xs, ha, hlen => by
    have hrest := Monge.swap_front hc hbx ys as xs (fun z hz => ha z (List.mem_cons_of_mem _ hz))
      (by simpa using hlen)
    simp only [List.cons_append, List.zipWith_cons_cons, List.sum_cons]
    calc c a b + (c a' y + (List.zipWith c as (xs ++ x :: ys)).sum)
        = c a' y + (c a b + (List.zipWith c as (xs ++ x :: ys)).sum) := add_left_comm ..
      _ ≤ c a' y + (c a x + (List.zipWith c as (xs ++ b :: ys)).sum) := by gcongr
      _ = c a x + (c a' y + (List.zipWith c as (xs ++ b :: ys)).sum) := add_left_comm ..

/-- Against a sorted list, the sorted order of the other is the cheapest. -/
theorem Monge.sum_zipWith_le_of_sorted (hc : Monge c) :
    ∀ {as : List α} {bs bs' : List β}, as.Pairwise (· ≤ ·) → bs.Pairwise (· ≤ ·) →
      bs'.Perm bs → as.length = bs.length →
      (List.zipWith c as bs).sum ≤ (List.zipWith c as bs').sum
  | [], _, _, _, _, _, _ => by simp
  | a :: as, [], _, _, _, _, hlen => by simp at hlen
  | a :: as, b :: bs, bs', has, hbs, hperm, hlen => by
    obtain ⟨ha, has⟩ := List.pairwise_cons.mp has
    obtain ⟨hb, hbs⟩ := List.pairwise_cons.mp hbs
    have hlen : as.length = bs.length := Nat.succ.inj hlen
    obtain ⟨xs, ys, rfl⟩ := List.append_of_mem (hperm.mem_iff.mpr List.mem_cons_self)
    have hrest : (xs ++ ys).Perm bs := List.Perm.cons_inv (List.perm_middle.symm.trans hperm)
    cases xs with
    | nil =>
      have ih := Monge.sum_zipWith_le_of_sorted hc has hbs hrest hlen
      simp only [List.nil_append, List.zipWith_cons_cons, List.sum_cons] at ih ⊢
      gcongr
    | cons x xs =>
      -- `x` is paired with `a`: bring the least element `b` there instead
      have hbx : b ≤ x := hb x (hrest.subset List.mem_cons_self)
      have hmoved : (xs ++ x :: ys).Perm bs := List.perm_middle.trans hrest
      have hlen' : as.length = (xs ++ b :: ys).length := by
        have := hmoved.length_eq
        simp only [List.length_append, List.length_cons] at this ⊢
        omega
      have ih := Monge.sum_zipWith_le_of_sorted hc has hbs hmoved hlen
      simp only [List.cons_append, List.zipWith_cons_cons, List.sum_cons]
      calc c a b + (List.zipWith c as bs).sum
          ≤ c a b + (List.zipWith c as (xs ++ x :: ys)).sum := by gcongr
        _ ≤ c a x + (List.zipWith c as (xs ++ b :: ys)).sum :=
          hc.swap_front hbx ys as xs ha hlen'

/-- **Rearrangement**: no pairing of two lists is cheaper than that of the lists
in sorted order. -/
theorem Monge.sum_zipWith_le (hc : Monge c) {as as' : List α} {bs bs' : List β}
    (has : as.Pairwise (· ≤ ·)) (hbs : bs.Pairwise (· ≤ ·)) (ha : as'.Perm as)
    (hb : bs'.Perm bs) (hlen : as'.length = bs'.length) :
    (List.zipWith c as bs).sum ≤ (List.zipWith c as' bs').sum := by
  obtain ⟨cs, hcs, hzip⟩ := exists_zip_perm ha bs' hlen.symm
  calc (List.zipWith c as bs).sum
      ≤ (List.zipWith c as cs).sum :=
        hc.sum_zipWith_le_of_sorted has hbs (hcs.trans hb)
          (by rw [← ha.length_eq, hlen, hb.length_eq])
    _ = (List.zipWith c as' bs').sum := by
        rw [sum_zipWith_eq, sum_zipWith_eq]
        exact (hzip.map _).sum_eq

end Rearrange
