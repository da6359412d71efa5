import Supermatchmaker.Matcher.Worker

/-!
# Windows, borders and the drain order

What the index arithmetic of `run_worker` and `harvest` comes to: `reach` is the
list of buckets an attempt can take players from, the window and the borders of
its last bucket. The density check adds up just these, bucket by bucket, and the
drain order visits them all, the anchor's first (`mem_drainOrder`).

A window that does not wrap around is an interval, and so is its reach; one that
does wrap holds buckets of both ends of the scale, and its last bucket, having
none above it, has no borders.
-/

namespace Supermatchmaker

variable {cfg : Config}

/-- The buckets an attempt on the window can take players from. -/
def reach (win : List (Fin cfg.numBuckets)) : List (Fin cfg.numBuckets) :=
  win ++ borders cfg (edge win)

/-- A window is `STRIDE` buckets from its start on, around the end of the scale. -/
theorem mem_window {start : Nat} {b : Fin cfg.numBuckets} :
    b ∈ window cfg start ↔ ∃ k < cfg.stride, b.val = (start + k) % cfg.numBuckets := by
  simp only [window, List.mem_map, List.mem_range, Fin.ext_iff, eq_comm (b := b.val)]

/-- The borders are the two buckets past the last one of the window. -/
theorem mem_borders {last : Nat} {b : Fin cfg.numBuckets} :
    b ∈ borders cfg last ↔ b.val = last + 1 ∨ b.val = last + 2 := by
  have hentry : ∀ c : Nat, (if h : c < cfg.numBuckets then some (⟨c, h⟩ : Fin cfg.numBuckets)
      else none) = some b ↔ b.val = c := by
    intro c
    split
    next hlt => simp only [Option.some.injEq, Fin.ext_iff, eq_comm]
    next hge =>
      simp only [reduceCtorEq, false_iff]
      omega
  simp only [borders, List.mem_filterMap, hentry, List.mem_cons, List.not_mem_nil, or_false]
  constructor
  · rintro ⟨c, rfl | rfl, hb⟩
    · exact Or.inl hb
    · exact Or.inr hb
  · rintro (hb | hb)
    · exact ⟨_, Or.inl rfl, hb⟩
    · exact ⟨_, Or.inr rfl, hb⟩

theorem length_borders_le (last : Nat) : (borders cfg last).length ≤ 2 :=
  List.length_filterMap_le ..

/-- A running maximum bounds what was seen and is attained. -/
theorem foldl_max_spec {β : Type} (f : β → Nat) : ∀ (l : List β) (m : Nat),
    m ≤ l.foldl (fun m x => max m (f x)) m ∧
    (∀ x ∈ l, f x ≤ l.foldl (fun m x => max m (f x)) m) ∧
    (l.foldl (fun m x => max m (f x)) m = m ∨
      ∃ x ∈ l, f x = l.foldl (fun m x => max m (f x)) m)
  | [], m => ⟨le_refl m, by simp, Or.inl rfl⟩
  | x :: l, m => by
    obtain ⟨hstart, hbound, hattained⟩ := foldl_max_spec f l (max m (f x))
    rw [List.foldl_cons]
    refine ⟨(le_max_left ..).trans hstart, ?_, ?_⟩
    · intro y hy
      rcases List.mem_cons.mp hy with rfl | hy
      · exact (le_max_right ..).trans hstart
      · exact hbound y hy
    · rcases hattained with heq | ⟨y, hy, heq⟩
      · rw [heq]
        rcases le_total m (f x) with hle | hle
        · exact Or.inr ⟨x, List.mem_cons_self, (max_eq_right hle).symm⟩
        · exact Or.inl (max_eq_left hle)
      · exact Or.inr ⟨y, List.mem_cons_of_mem _ hy, heq⟩

theorem le_edge {win : List (Fin cfg.numBuckets)} {b : Fin cfg.numBuckets} (h : b ∈ win) :
    b.val ≤ edge win :=
  (foldl_max_spec Fin.val win 0).2.1 b h

theorem exists_edge {win : List (Fin cfg.numBuckets)} (h : win ≠ []) :
    ∃ b ∈ win, b.val = edge win := by
  rcases (foldl_max_spec Fin.val win 0).2.2 with hzero | hattained
  · obtain ⟨b, hb⟩ := List.exists_mem_of_ne_nil win h
    have hle := le_edge hb
    unfold edge at hle ⊢
    exact ⟨b, hb, by omega⟩
  · exact hattained

/-- The last bucket of the sorted window is the edge of the window. -/
theorem getLast?_insertionSort {win : List (Fin cfg.numBuckets)} (h : win ≠ []) :
    ∃ last, (win.insertionSort (· ≤ ·)).getLast? = some last ∧ last.val = edge win := by
  have hsorted : (win.insertionSort (· ≤ ·)) ≠ [] := by
    intro hnil
    have hlen := List.length_insertionSort (· ≤ ·) win
    rw [hnil] at hlen
    exact h (List.eq_nil_of_length_eq_zero hlen.symm)
  refine ⟨_, List.getLast?_eq_some_getLast hsorted, ?_⟩
  have hmem : (win.insertionSort (· ≤ ·)).getLast hsorted ∈ win :=
    (List.mem_insertionSort _).mp (List.getLast_mem hsorted)
  refine le_antisymm (le_edge hmem) ?_
  obtain ⟨b, hb, hedge⟩ := exists_edge h
  rw [← hedge]
  exact (List.pairwise_insertionSort (· ≤ ·) win).rel_getLast ((List.mem_insertionSort _).mpr hb)

/-- **The drain order** visits the reach of the window. -/
theorem mem_drainOrder {win : List (Fin cfg.numBuckets)} {a b : Fin cfg.numBuckets}
    (ha : a ∈ win) : b ∈ drainOrder win a ↔ b ∈ reach win := by
  obtain ⟨last, hlast, hedge⟩ := getLast?_insertionSort (List.ne_nil_of_mem ha)
  simp only [drainOrder, reach, hlast, hedge, Option.map_some, Option.getD_some, List.mem_append,
    List.mem_cons, List.mem_filter, List.mem_insertionSort, decide_eq_true_eq]
  constructor
  · rintro ((rfl | ⟨hb, _⟩) | hb)
    · exact Or.inl ha
    · exact Or.inl hb
    · exact Or.inr hb
  · rintro (hb | hb)
    · by_cases hab : b = a
      · exact Or.inl (Or.inl hab)
      · exact Or.inl (Or.inr ⟨hb, hab⟩)
    · exact Or.inr hb

/-- The drain order is the anchor, the rest of the window and at most two borders. -/
theorem length_drainOrder_le (win : List (Fin cfg.numBuckets)) (a : Fin cfg.numBuckets) :
    (drainOrder win a).length ≤ win.length + 3 := by
  have hfilter := List.length_filter_le (· ≠ a) (win.insertionSort (· ≤ ·))
  rw [List.length_insertionSort] at hfilter
  have hborders : ∀ last : Option (Fin cfg.numBuckets),
      ((last.map fun b => borders cfg b.val).getD []).length ≤ 2 := by
    intro last
    cases last with
    | none => exact Nat.zero_le _
    | some b => exact length_borders_le _
  have hlast := hborders (win.insertionSort (· ≤ ·)).getLast?
  simp only [drainOrder, List.length_append, List.length_cons]
  omega

/-! ## Windows that do not wrap around -/

/-- A window that does not wrap is an interval. -/
theorem mem_window_of_le {start : Nat} (hstart : start + cfg.stride ≤ cfg.numBuckets)
    {b : Fin cfg.numBuckets} :
    b ∈ window cfg start ↔ start ≤ b.val ∧ b.val < start + cfg.stride := by
  rw [mem_window]
  constructor
  · rintro ⟨k, hk, hb⟩
    rw [Nat.mod_eq_of_lt (by omega)] at hb
    omega
  · rintro ⟨hle, hlt⟩
    refine ⟨b.val - start, by omega, ?_⟩
    rw [Nat.add_sub_cancel' hle, Nat.mod_eq_of_lt b.isLt]

/-- Two buckets within reach of a window that does not wrap are at most
`STRIDE + 1` apart; so are any two where there are no more than `STRIDE + 2`. -/
theorem reach_window_close {start : Nat}
    (h : start + cfg.stride ≤ cfg.numBuckets ∨ cfg.numBuckets ≤ cfg.stride + 2)
    {b c : Fin cfg.numBuckets} (hb : b ∈ reach (window cfg start))
    (hc : c ∈ reach (window cfg start)) : b.val ≤ c.val + cfg.stride + 1 := by
  rcases h with hstart | hfew
  · have hedge : start ≤ edge (window cfg start) ∧
        edge (window cfg start) < start + cfg.stride := by
      have hne : window cfg start ≠ [] := by
        have hpos : cfg.stride ≠ 0 := cfg.constraints.2.2.2
        intro hnil
        have hlen := congrArg List.length hnil
        simp only [window, List.length_map, List.length_range, List.length_nil] at hlen
        exact hpos hlen
      obtain ⟨last, hlast, hval⟩ := exists_edge hne
      rw [← hval]
      exact (mem_window_of_le hstart).mp hlast
    have hbound : ∀ d ∈ reach (window cfg start),
        start ≤ d.val ∧ d.val ≤ start + cfg.stride + 1 := by
      intro d hd
      rcases List.mem_append.mp hd with hwin | hborder
      · have := (mem_window_of_le hstart).mp hwin
        omega
      · rcases mem_borders.mp hborder with hval | hval <;> omega
    have := hbound b hb
    have := hbound c hc
    omega
  · have := b.isLt
    omega

end Supermatchmaker
