import Mathlib

/-!
# Sorting a list into bins

One pass over a list with an ordered map beside it: every element updates the
entry of its key, which it creates where there is none. What a key ends up with
depends on the elements of that key only, in their order (`getElem?_fill`), and
the map lists its keys ascending, each once (`ordered_fill`) and with its
content (`mem_toList_fill`).
-/

namespace Bins

universe u v w

variable {ρ : Type u} {κ : Type v} {β : Type w} {cmp : κ → κ → Ordering}

/-- Update the entry of the element's key. -/
def put (key : ρ → κ) (update : Option β → ρ → β) (m : Std.TreeMap κ β cmp) (r : ρ) :
    Std.TreeMap κ β cmp :=
  m.alter (key r) fun entry => some (update entry r)

/-- The bins of a list of rows. -/
def fill (cmp : κ → κ → Ordering) (key : ρ → κ) (update : Option β → ρ → β) (rows : List ρ) :
    Std.TreeMap κ β cmp :=
  rows.foldl (put key update) ∅

/-- The entry of a key after its elements. -/
def entry (update : Option β → ρ → β) (rows : List ρ) (before : Option β) : Option β :=
  rows.foldl (fun e r => some (update e r)) before

theorem entry_isSome (update : Option β → ρ → β) {rows : List ρ} :
    (entry update rows none).isSome ↔ rows ≠ [] := by
  rcases List.eq_nil_or_concat rows with rfl | ⟨init, last, rfl⟩
  · exact iff_of_false Bool.false_ne_true fun h => h rfl
  · rw [List.concat_eq_append]
    refine iff_of_true ?_ (List.append_ne_nil_of_right_ne_nil _ (List.cons_ne_nil _ _))
    unfold entry
    rw [List.foldl_append]
    rfl

variable [Std.TransCmp cmp]

theorem ordered_fill (key : ρ → κ) (update : Option β → ρ → β) (rows : List ρ) :
    (fill cmp key update rows).keys.Pairwise fun a b => cmp a b = .lt :=
  Std.TreeMap.ordered_keys

variable [Std.LawfulEqCmp cmp] [DecidableEq κ]

/-- What is in a bin depends on the rows with its key and on nothing else. -/
theorem getElem?_foldl_put (key : ρ → κ) (update : Option β → ρ → β) (k : κ) (rows : List ρ) :
    ∀ m : Std.TreeMap κ β cmp, (rows.foldl (put key update) m)[k]?
      = entry update (rows.filter fun r => key r = k) m[k]? := by
  induction rows with
  | nil => exact fun m => rfl
  | cons r rows ih =>
    intro m
    rw [List.foldl_cons, ih]
    unfold put
    rw [Std.TreeMap.getElem?_alter]
    by_cases hk : key r = k
    · rw [List.filter_cons_of_pos (by simpa using hk), hk,
        if_pos (Std.LawfulEqCmp.compare_eq_iff_eq.mpr rfl)]
      rfl
    · rw [List.filter_cons_of_neg (by simpa using hk),
        if_neg (fun heq => hk (Std.LawfulEqCmp.compare_eq_iff_eq.mp heq))]

/-- **What is in a bin.** -/
theorem getElem?_fill (key : ρ → κ) (update : Option β → ρ → β) (rows : List ρ) (k : κ) :
    (fill cmp key update rows)[k]? = entry update (rows.filter fun r => key r = k) none := by
  unfold fill
  rw [getElem?_foldl_put, Std.TreeMap.getElem?_emptyc]

/-- **The content of a bin** is made of the rows with its key, in their order. -/
theorem mem_toList_fill {key : ρ → κ} {update : Option β → ρ → β} {rows : List ρ} {k : κ} {b : β} :
    (k, b) ∈ (fill cmp key update rows).toList ↔
      entry update (rows.filter fun r => key r = k) none = some b := by
  rw [Std.TreeMap.mem_toList_iff_getElem?_eq_some, getElem?_fill]

end Bins
