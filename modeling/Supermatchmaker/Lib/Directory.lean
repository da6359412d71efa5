import Mathlib.Data.Finmap
import Mathlib.Data.Finset.Sort
import Mathlib.Data.String.Basic

/-!
# Directories of files

A directory maps names to contents (a finite map: a name has one content, and the
order in which a directory lists its names is nobody's business). A program that
wants an order sorts them: `listed` are the names that pass a filter, the greatest
first.

What the file operations do to such a listing is said once here: nothing if the
name does not pass the filter, a new head if it is greater than all that do, and
one name less where a file is removed.

Names often carry a number, and are sorted as text. `toDigits_lt` says when that is
the order of the numbers: when they have equally many digits.
-/

namespace Directory

universe u

/-- A directory, from names to contents. -/
abbrev Dir (β : Type u) := Finmap fun _ : String => β

variable {β : Type u} {p : String → Bool} {d : Dir β}

/-- `rename`: the content moves, in one step, over whatever has the new name. -/
def rename (d : Dir β) (old new : String) : Dir β :=
  match d.lookup old with
  | some x => (d.erase old).insert new x
  | none => d

/-- The names that pass the filter, in descending order. -/
def listed (p : String → Bool) (d : Dir β) : List String :=
  (d.keys.filter fun n => p n = true).sort (· ≥ ·)

theorem mem_listed {n : String} : n ∈ listed p d ↔ n ∈ d ∧ p n = true := by
  rw [listed, Finset.mem_sort, Finset.mem_filter, Finmap.mem_keys]

theorem listed_nodup (p : String → Bool) (d : Dir β) : (listed p d).Nodup := Finset.sort_nodup ..

theorem listed_empty (p : String → Bool) : listed p (∅ : Dir β) = [] :=
  List.eq_nil_iff_forall_not_mem.mpr fun _ hn => Finmap.notMem_empty (mem_listed.mp hn).1

/-- Names that do not pass the filter do not show. -/
theorem listed_congr {d' : Dir β} (h : ∀ n, p n = true → (n ∈ d' ↔ n ∈ d)) :
    listed p d' = listed p d := by
  unfold listed
  congr 1
  ext n
  rw [Finset.mem_filter, Finset.mem_filter, Finmap.mem_keys, Finmap.mem_keys]
  exact and_congr_left (h n)

/-- Writing a file with another kind of name does not show. -/
theorem listed_insert_of_not {n : String} (hn : p n ≠ true) (x : β) :
    listed p (d.insert n x) = listed p d :=
  listed_congr fun _ hm => Finmap.mem_insert.trans (or_iff_right fun hmn => hn (hmn ▸ hm))

/-- Nor does removing one. -/
theorem listed_erase_of_not {n : String} (hn : p n ≠ true) : listed p (d.erase n) = listed p d :=
  listed_congr fun _ hm => Finmap.mem_erase.trans (and_iff_right fun hmn => hn (hmn ▸ hm))

/-- A name greater than all listed ones comes first. -/
theorem listed_insert_greatest {n : String} (hn : p n = true) (h : ∀ m ∈ listed p d, m < n)
    (x : β) : listed p (d.insert n x) = n :: listed p d := by
  have hkeys : ((d.insert n x).keys.filter fun m => p m = true) =
      insert n (d.keys.filter fun m => p m = true) := by
    ext m
    simp only [Finset.mem_filter, Finset.mem_insert, Finmap.mem_keys, Finmap.mem_insert]
    constructor
    · rintro ⟨rfl | hm, hp⟩
      · exact .inl rfl
      · exact .inr ⟨hm, hp⟩
    · rintro (rfl | ⟨hm, hp⟩)
      · exact ⟨.inl rfl, hn⟩
      · exact ⟨.inr hm, hp⟩
  have hlt : ∀ m ∈ d.keys.filter fun m => p m = true, m < n :=
    fun m hm => h m (Finset.mem_sort _ |>.mpr hm)
  unfold listed
  rw [hkeys]
  exact Finset.sort_insert (· ≥ ·) (fun m hm => (hlt m hm).le) fun hm => lt_irrefl n (hlt n hm)

/-- A removed name is missing in the listing. -/
theorem listed_erase {n : String} {before after : List String}
    (h : listed p d = before ++ n :: after) : listed p (d.erase n) = before ++ after := by
  have hsorted : (before ++ n :: after).Pairwise (· ≥ ·) := h ▸ Finset.pairwise_sort ..
  have hnodup : (before ++ n :: after).Nodup := h ▸ listed_nodup p d
  have hsub : (before ++ after).Sublist (before ++ n :: after) :=
    List.Sublist.append_left (List.sublist_cons_self n after) before
  have hn : n ∉ before ++ after := (List.nodup_middle.mp hnodup |> List.nodup_cons.mp).1
  have hkeys : ((d.erase n).keys.filter fun m => p m = true) = (before ++ after).toFinset := by
    ext m
    have hmem : m ∈ d ∧ p m = true ↔ m = n ∨ m ∈ before ++ after := by
      rw [← mem_listed, h]
      simp [or_left_comm]
    rw [Finset.mem_filter, Finmap.mem_keys, Finmap.mem_erase, and_assoc, hmem,
      List.mem_toFinset]
    constructor
    · rintro ⟨hne, hm⟩
      exact hm.resolve_left hne
    · exact fun hm => ⟨fun hmn => hn (hmn ▸ hm), .inr hm⟩
  unfold listed
  rw [hkeys]
  exact (List.toFinset_sort (· ≥ ·) (hnodup.sublist hsub)).mpr (hsorted.sublist hsub)

/-! ## Numbers in names -/

/-- Lists of one length compare like their beginnings, if these differ. -/
theorem append_lt_append {α : Type u} [LT α] :
    ∀ {l l' : List α}, l.length = l'.length → l < l' → ∀ t t', l ++ t < l' ++ t'
  | [], [], _, h, _, _ => absurd h (List.not_lt_nil [])
  | a :: l, a' :: l', hlen, h, t, t' => by
    rw [List.cons_append, List.cons_append, List.cons_lt_cons_iff]
    rcases List.cons_lt_cons_iff.mp h with ha | ⟨ha, hl⟩
    · exact .inl ha
    · exact .inr ⟨ha, append_lt_append (Nat.succ.inj hlen) hl t t'⟩

theorem digitChar_lt : ∀ b < 10, ∀ a < b, Nat.digitChar a < Nat.digitChar b := by decide

/-- **Numerals**: with equally many digits they sort like the numbers. -/
theorem toDigits_lt {a b : Nat} (h : a < b)
    (hlen : (Nat.toDigits 10 a).length = (Nat.toDigits 10 b).length) :
    Nat.toDigits 10 a < Nat.toDigits 10 b := by
  induction b using Nat.strongRecOn generalizing a with
  | ind b ih =>
    rcases Nat.lt_or_ge b 10 with hb | hb
    · rw [Nat.toDigits_of_lt_base hb, Nat.toDigits_of_lt_base (h.trans hb)]
      exact List.cons_lt_cons_iff.mpr (.inl (digitChar_lt b hb a h))
    · have htwo : 0 < (Nat.toDigits 10 (b / 10)).length := Nat.length_toDigits_pos
      have ha : 10 ≤ a := by
        by_contra hlt
        rw [Nat.toDigits_of_lt_base (by omega), Nat.toDigits_of_base_le (by decide) hb,
          List.length_append] at hlen
        simp only [List.length_singleton] at hlen
        omega
      rw [Nat.toDigits_of_base_le (by decide) ha, Nat.toDigits_of_base_le (by decide) hb] at hlen ⊢
      rw [List.length_append, List.length_append] at hlen
      -- the digits but the last are those of the tenths
      rcases Nat.lt_or_ge (a / 10) (b / 10) with hlt | hge
      · exact append_lt_append (Nat.add_right_cancel hlen)
          (ih (b / 10) (by omega) hlt (Nat.add_right_cancel hlen)) _ _
      · have hsame : a / 10 = b / 10 := by omega
        rw [hsame]
        exact List.append_left_lt (List.cons_lt_cons_iff.mpr
          (.inl (digitChar_lt _ (Nat.mod_lt _ (by decide)) _ (by omega))))

end Directory
