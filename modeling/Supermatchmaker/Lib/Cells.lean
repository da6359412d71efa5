import Mathlib.Data.List.Basic

/-!
# Cells: a list spread over addresses

Every element has an address, `home x`, and a family of lists keeps each element in
the cell of its address (`Homed`). Reading the cells one after the other gives a list,
`is.flatMap cells`; `spread` goes the other way, and gives each cell the elements of a
list that belong there, in the order of the list.

`spread` undoes the reading exactly (`spread_flatMap`): what a cell had in front is
still in front. Reading undoes `spread` up to the order (`flatMap_spread`): a list
comes back sorted by address.
-/

namespace Cells

universe u v

variable {ι : Type u} {α : Type v} {home : α → ι}

/-- Each element is in the cell of its address. -/
def Homed (home : α → ι) (cells : ι → List α) : Prop := ∀ i, ∀ x ∈ cells i, home x = i

variable [DecidableEq ι]

/-- What goes into cell `i`. -/
def spread (home : α → ι) (l : List α) (i : ι) : List α := l.filter fun x => home x = i

theorem spread_cons (x : α) (l : List α) (i : ι) :
    spread home (x :: l) i = (if home x = i then [x] else []) ++ spread home l i := by
  unfold spread
  rw [List.filter_cons]
  by_cases hx : home x = i
  · rw [if_pos hx, if_pos (decide_eq_true hx), List.singleton_append]
  · rw [if_neg hx, if_neg (by simpa using hx), List.nil_append]

theorem mem_spread {l : List α} {i : ι} {x : α} :
    x ∈ spread home l i ↔ x ∈ l ∧ home x = i := by
  rw [spread, List.mem_filter, decide_eq_true_eq]

theorem spread_homed (home : α → ι) (l : List α) : Homed home (spread home l) :=
  fun _ _ hx => (mem_spread.mp hx).2

/-- **Read, then spread**: every cell has its content back. -/
theorem spread_flatMap {cells : ι → List α} (h : Homed home cells) {is : List ι}
    (hnd : is.Nodup) {i : ι} (hi : i ∈ is) : spread home (is.flatMap cells) i = cells i := by
  induction is with
  | nil => cases hi
  | cons j is ih =>
    obtain ⟨hj, hnd⟩ := List.nodup_cons.mp hnd
    rw [spread, List.flatMap_cons, List.filter_append]
    by_cases hji : j = i
    · subst hji
      have hself : (cells j).filter (fun x => home x = j) = cells j :=
        List.filter_eq_self.mpr fun x hx => decide_eq_true (h j x hx)
      have hrest : (is.flatMap cells).filter (fun x => home x = j) = [] := by
        refine List.filter_eq_nil_iff.mpr fun x hx => ?_
        obtain ⟨k, hk, hxk⟩ := List.mem_flatMap.mp hx
        rw [h k x hxk, decide_eq_true_eq]
        rintro rfl
        exact hj hk
      rw [hself, hrest, List.append_nil]
    · have hnone : (cells j).filter (fun x => home x = i) = [] := by
        refine List.filter_eq_nil_iff.mpr fun x hx => ?_
        rwa [h j x hx, decide_eq_true_eq]
      have hi : i ∈ is := (List.mem_cons.mp hi).resolve_left fun hij => hji hij.symm
      rw [hnone, List.nil_append]
      exact ih hnd hi

/-- **Spread, then read**: the same elements, sorted by address. -/
theorem flatMap_spread {is : List ι} (hnd : is.Nodup) :
    ∀ {l : List α}, (∀ x ∈ l, home x ∈ is) → (is.flatMap (spread home l)).Perm l := by
  induction is with
  | nil =>
    intro l hall
    have hl : l = [] := List.eq_nil_iff_forall_not_mem.mpr fun x hx =>
      List.not_mem_nil (hall x hx)
    rw [hl]
    exact List.Perm.refl _
  | cons i is ih =>
    intro l hall
    obtain ⟨hi, hnd⟩ := List.nodup_cons.mp hnd
    -- the other cells get the same whether or not the elements of cell `i` are there
    have hothers : is.flatMap (spread home l) =
        is.flatMap (spread home (l.filter fun x => ¬ home x = i)) := by
      refine List.flatMap_congr fun j hj => ?_
      rw [spread, spread, List.filter_filter]
      refine List.filter_congr fun x _ => ?_
      by_cases hx : home x = j
      · have hji : ¬ j = i := fun hji => hi (hji ▸ hj)
        simp [hx, hji]
      · simp [hx]
    have hrest := ih hnd (l := l.filter fun x => ¬ home x = i) fun x hx => by
      obtain ⟨hx, hne⟩ := List.mem_filter.mp hx
      exact (List.mem_cons.mp (hall x hx)).resolve_left (of_decide_eq_true hne)
    rw [List.flatMap_cons, hothers]
    refine (hrest.append_left _).trans ?_
    simpa only [spread, decide_not] using List.filter_append_perm (fun x => decide (home x = i)) l

end Cells
