/-!
# Tables, unique indexes and transactions

Just enough of a relational store to give SQL statements a meaning: a table is
the list of its rows, oldest first.

- `insertNew key new t`: `INSERT .. ON CONFLICT (key) DO NOTHING`: each row in
  turn, unless its key is already there (stored before or by an earlier row of
  the same statement).
- `updateWhere p f t`: `UPDATE .. SET f WHERE p`.
- `UniqueOn p key t`: the partial unique index on `key` over the rows where `p`.
- `transaction`: the statements of a transaction see each other's effect and
  either all of them take effect or none.
-/

namespace Table

universe u v w

variable {ρ : Type u} {κ : Type v} [DecidableEq κ]

/-! ## `INSERT .. ON CONFLICT DO NOTHING` -/

/-- Insert one row unless its key is present. -/
def insertRow (key : ρ → κ) (t : List ρ) (r : ρ) : List ρ :=
  if key r ∈ t.map key then t else t ++ [r]

/-- `INSERT .. ON CONFLICT (key) DO NOTHING`, row by row. -/
def insertNew (key : ρ → κ) (new t : List ρ) : List ρ := new.foldl (insertRow key) t

theorem mem_insertRow {key : ρ → κ} {t : List ρ} {r x : ρ} (h : x ∈ insertRow key t r) :
    x ∈ t ∨ x = r := by
  unfold insertRow at h
  split at h
  · exact Or.inl h
  · rcases List.mem_append.mp h with h | h
    · exact Or.inl h
    · exact Or.inr (List.mem_singleton.mp h)

theorem subset_insertRow {key : ρ → κ} {t : List ρ} {r x : ρ} (h : x ∈ t) :
    x ∈ insertRow key t r := by
  unfold insertRow
  split
  · exact h
  · exact List.mem_append_left _ h

theorem subset_insertNew {key : ρ → κ} {x : ρ} :
    ∀ (new : List ρ) {t : List ρ}, x ∈ t → x ∈ insertNew key new t
  | [], _, h => h
  | r :: new, t, h => by
    show x ∈ insertNew key new (insertRow key t r)
    exact subset_insertNew new (subset_insertRow h)

/-- A row of the result was there before or was inserted. -/
theorem mem_insertNew {key : ρ → κ} {x : ρ} :
    ∀ (new : List ρ) {t : List ρ}, x ∈ insertNew key new t → x ∈ t ∨ x ∈ new
  | [], _, h => Or.inl h
  | r :: new, t, h => by
    rcases mem_insertNew new (t := insertRow key t r) h with h | h
    · rcases mem_insertRow h with h | h
      · exact Or.inl h
      · exact Or.inr (h ▸ List.mem_cons_self)
    · exact Or.inr (List.mem_cons_of_mem _ h)

/-- After the statement every inserted key is present. -/
theorem key_mem_insertNew {key : ρ → κ} {x : ρ} :
    ∀ (new : List ρ) {t : List ρ}, x ∈ new → key x ∈ (insertNew key new t).map key
  | r :: new, t, h => by
    rcases List.mem_cons.mp h with rfl | h
    · have hrow : key x ∈ (insertRow key t x).map key := by
        unfold insertRow
        split
        next hmem => exact hmem
        next => simp
      obtain ⟨y, hy, hyx⟩ := List.mem_map.mp hrow
      exact List.mem_map.mpr ⟨y, subset_insertNew new hy, hyx⟩
    · exact key_mem_insertNew new h

/-- A row whose key is neither stored nor shared with another inserted row goes
in. -/
theorem mem_insertNew_of_fresh {key : ρ → κ} {x : ρ} (new : List ρ) {t : List ρ} (hx : x ∈ new)
    (ht : key x ∉ t.map key) (huniq : ∀ y ∈ new, key y = key x → y = x) :
    x ∈ insertNew key new t := by
  have hkey : key x ∈ (insertNew key new t).map key := key_mem_insertNew new hx
  obtain ⟨y, hy, hyx⟩ := List.mem_map.mp hkey
  rcases mem_insertNew new hy with hold | hnew
  · exact absurd (List.mem_map.mpr ⟨y, hold, hyx⟩) ht
  · rwa [← huniq y hnew hyx]

/-- Rows with fresh, pairwise different keys are simply appended. -/
theorem insertNew_fresh {key : ρ → κ} :
    ∀ (new t : List ρ), ((t ++ new).map key).Nodup → insertNew key new t = t ++ new
  | [], t, _ => by simp [insertNew]
  | r :: new, t, h => by
    have hr : key r ∉ t.map key := by
      rw [List.map_append, List.map_cons, List.nodup_append] at h
      exact fun hmem => h.2.2 (key r) hmem (key r) List.mem_cons_self rfl
    have hrow : insertRow key t r = t ++ [r] := by
      unfold insertRow
      rw [if_neg hr]
    show insertNew key new (insertRow key t r) = t ++ r :: new
    rw [hrow, insertNew_fresh new (t ++ [r]) (by simpa using h)]
    simp

/-- The keys stay unique. -/
theorem nodup_insertNew {key : ρ → κ} :
    ∀ (new : List ρ) {t : List ρ}, (t.map key).Nodup → ((insertNew key new t).map key).Nodup
  | [], _, h => h
  | r :: new, t, h => by
    refine nodup_insertNew new (t := insertRow key t r) ?_
    unfold insertRow
    split
    · exact h
    next hr =>
      rw [List.map_append, List.nodup_append]
      refine ⟨h, by simp, fun a ha b hb hab => hr ?_⟩
      rw [List.map_singleton, List.mem_singleton] at hb
      rwa [← hb, ← hab]

/-- Two inserts are one insert of both. -/
theorem insertNew_append (key : ρ → κ) (new more t : List ρ) :
    insertNew key (new ++ more) t = insertNew key more (insertNew key new t) :=
  List.foldl_append

/-! ## `UPDATE .. WHERE` -/

/-- `UPDATE .. WHERE p`. -/
def updateWhere (p : ρ → Bool) (f : ρ → ρ) (t : List ρ) : List ρ :=
  t.map fun r => if p r then f r else r

/-- Two updates of different rows are one update. -/
theorem updateWhere_updateWhere {p q : ρ → Bool} {f : ρ → ρ} {t : List ρ}
    (hq : ∀ r, q (f r) = q r) (hpq : ∀ r ∈ t, p r → ¬ q r) :
    updateWhere q f (updateWhere p f t) = updateWhere (fun r => p r || q r) f t := by
  unfold updateWhere
  rw [List.map_map]
  refine List.map_congr_left fun r hr => ?_
  show (if q (if p r then f r else r) then f (if p r then f r else r)
    else if p r then f r else r) = _
  by_cases hp : p r
  · have hno : ¬ q (f r) := by
      rw [hq]
      exact hpq r hr hp
    rw [if_pos hp, if_neg hno, if_pos (by simp [hp])]
  · rw [if_neg hp]
    by_cases hqr : q r
    · rw [if_pos hqr, if_pos (by simp [hqr])]
    · rw [if_neg hqr, if_neg (by simp [hp, hqr])]

/-- How many rows an `UPDATE .. WHERE p` touches. -/
def affected (p : ρ → Bool) (t : List ρ) : Nat := (t.filter p).length

/-! ## Partial unique indexes -/

/-- No two rows where `p` holds share a key. -/
def UniqueOn (p : ρ → Bool) (key : ρ → κ) (t : List ρ) : Prop := ((t.filter p).map key).Nodup

instance (p : ρ → Bool) (key : ρ → κ) (t : List ρ) : Decidable (UniqueOn p key t) :=
  inferInstanceAs (Decidable (List.Nodup _))

omit [DecidableEq κ] in
/-- New rows that are all in the index: they must be unique among themselves
and miss every indexed row. -/
theorem uniqueOn_append {p : ρ → Bool} {key : ρ → κ} {t new : List ρ} (hnew : ∀ r ∈ new, p r) :
    UniqueOn p key (t ++ new) ↔ UniqueOn p key t ∧ (new.map key).Nodup ∧
      ∀ r ∈ new, ∀ r' ∈ t, p r' → key r' ≠ key r := by
  unfold UniqueOn
  rw [List.filter_append, List.filter_eq_self.mpr hnew, List.map_append, List.nodup_append]
  constructor
  · rintro ⟨ht, hn, hdisj⟩
    refine ⟨ht, hn, fun r hr r' hr' hp => ?_⟩
    exact hdisj (key r') (List.mem_map_of_mem (List.mem_filter.mpr ⟨hr', hp⟩)) (key r)
      (List.mem_map_of_mem hr)
  · rintro ⟨ht, hn, hdisj⟩
    refine ⟨ht, hn, ?_⟩
    intro a ha b hb
    obtain ⟨r', hr', rfl⟩ := List.mem_map.mp ha
    obtain ⟨r, hr, rfl⟩ := List.mem_map.mp hb
    obtain ⟨hmem, hp⟩ := List.mem_filter.mp hr'
    exact hdisj r hr r' hmem hp

omit [DecidableEq κ] in
/-- Part of a table has part of the index. -/
theorem UniqueOn.left {p : ρ → Bool} {key : ρ → κ} {t new : List ρ}
    (h : UniqueOn p key (t ++ new)) : UniqueOn p key t := by
  unfold UniqueOn at h ⊢
  rw [List.filter_append, List.map_append] at h
  exact (List.nodup_append.mp h).1

omit [DecidableEq κ] in
/-- Rewriting rows without putting any into the index leaves a part of it. -/
theorem map_filter_map_sublist {p : ρ → Bool} {key : ρ → κ} {g : ρ → ρ}
    (hp : ∀ r, p (g r) → p r) (hkey : ∀ r, key (g r) = key r) (t : List ρ) :
    (((t.map g).filter p).map key).Sublist ((t.filter p).map key) := by
  induction t with
  | nil => exact List.Sublist.refl _
  | cons r t ih =>
    rw [List.map_cons, List.filter_cons, List.filter_cons]
    by_cases hr : p (g r)
    · rw [if_pos hr, if_pos (hp r hr), List.map_cons, List.map_cons, hkey]
      exact ih.cons_cons _
    · rw [if_neg hr]
      split
      · exact ih.cons _
      · exact ih

omit [DecidableEq κ] in
/-- An update that puts no row into the index keeps it unique. -/
theorem UniqueOn.updateWhere {p q : ρ → Bool} {f : ρ → ρ} {key : ρ → κ} {t : List ρ}
    (h : UniqueOn p key t) (hp : ∀ r, p (f r) → p r) (hkey : ∀ r, key (f r) = key r) :
    UniqueOn p key (updateWhere q f t) := by
  refine h.sublist (map_filter_map_sublist (fun r => ?_) (fun r => ?_) t)
  · split
    · exact hp r
    · exact id
  · split
    · exact hkey r
    · rfl

/-! ## Transactions -/

/-- Run the statements; on an error the store is as before. -/
def transaction {σ : Type u} {ε : Type v} (tx : σ → Except ε σ) (s : σ) : Except ε Unit × σ :=
  match tx s with
  | .ok s' => (.ok (), s')
  | .error e => (.error e, s)

end Table
