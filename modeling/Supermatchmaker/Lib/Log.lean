import Mathlib.Data.List.Basic

/-!
# Append-only logs, cursors and consumer groups

A `Log α` is a stream of a message broker. `entries` is everything that was
ever appended, oldest first, and the id of an entry is its position, counted
from one: ids are handed out in increasing order and compared, nothing else is
ever done with them. `trimmed` says how many of the oldest entries have been
removed again.

`after c` is a read from the cursor `c`: the entries with a greater id. The rule
that makes cursor-based consumption correct is `after_of_split`: a consumer that
moves its cursor to an entry it has read is left with exactly the entries behind
that one.

A `Consumer` is the state a consumer group keeps for its (only) consumer: the
last id delivered, and the entries delivered and not acknowledged.

Payloads that do not parse are `none`, and `decoded` is the reader that skips
them. A reader that takes `k` entries at a time and moves to the last one that
parsed gets through just if the log is `Readable k` behind it.
-/

universe u v

/-- An append-only stream. -/
structure Log (α : Type u) where
  entries : List α
  trimmed : Nat
  trimmed_le : trimmed ≤ entries.length

namespace Log

variable {α : Type u} {β : Type v} (l : Log α)

/-- Nothing was appended yet. -/
def empty : Log α := ⟨[], 0, Nat.le_refl 0⟩

/-- The id of the newest entry, zero when there is none. -/
def lastId : Nat := l.entries.length

/-- Append an entry; its id is the new `lastId`. -/
def append (x : α) : Log α :=
  ⟨l.entries ++ [x], l.trimmed, by
    have := l.trimmed_le
    rw [List.length_append]
    omega⟩

/-- Remove the entries up to the id `c`. -/
def trim (c : Nat) : Log α :=
  ⟨l.entries, max l.trimmed (min c l.entries.length), by
    have := l.trimmed_le
    omega⟩

/-- Every entry with its id. -/
def numbered : List (Nat × α) := l.entries.mapIdx fun i x => (i + 1, x)

/-- The entries with an id greater than `c`. -/
def after (c : Nat) : List (Nat × α) := l.numbered.drop (max c l.trimmed)

/-! ## Ids and positions -/

@[simp] theorem lastId_append (x : α) : (l.append x).lastId = l.lastId + 1 := by
  simp [lastId, append]

@[simp] theorem length_numbered : l.numbered.length = l.lastId := by
  simp [numbered, lastId]

theorem numbered_append (x : α) : (l.append x).numbered = l.numbered ++ [(l.lastId + 1, x)] := by
  simp [numbered, append, lastId, List.mapIdx_append]

theorem getElem_numbered {i : Nat} (h : i < l.numbered.length) : (l.numbered[i]).1 = i + 1 := by
  simp [numbered]

/-- The id of an entry is its own. -/
theorem numbered_inj {i : Nat} {x y : α} (hx : (i, x) ∈ l.numbered) (hy : (i, y) ∈ l.numbered) :
    x = y := by
  obtain ⟨j, hj, hjx⟩ := List.getElem_of_mem hx
  obtain ⟨k, hk, hky⟩ := List.getElem_of_mem hy
  have hji := l.getElem_numbered hj
  have hki := l.getElem_numbered hk
  rw [hjx] at hji
  rw [hky] at hki
  obtain rfl : j = k := by
    change i = j + 1 at hji
    change i = k + 1 at hki
    omega
  rw [hjx] at hky
  exact congrArg Prod.snd hky

/-- Nothing is behind the newest entry. -/
theorem after_lastId : l.after l.lastId = [] := by
  unfold after
  rw [List.drop_eq_nil_iff, length_numbered]
  exact Nat.le_max_left _ _

/-- An append is seen behind every cursor. -/
theorem after_append {c : Nat} (hc : c ≤ l.lastId) (x : α) :
    (l.append x).after c = l.after c ++ [(l.lastId + 1, x)] := by
  have htrim : l.trimmed ≤ l.lastId := l.trimmed_le
  unfold after
  rw [numbered_append]
  show (l.numbered ++ _).drop (max c l.trimmed) = _
  rw [List.drop_append_of_le_length (by rw [length_numbered]; omega)]

/-- What a read returns lies strictly behind its cursor. -/
theorem lt_of_mem_after {c : Nat} {e : Nat × α} (h : e ∈ l.after c) : c < e.1 ∧ e.1 ≤ l.lastId := by
  unfold after at h
  obtain ⟨i, hi, rfl⟩ := List.getElem_of_mem h
  rw [List.length_drop, length_numbered] at hi
  rw [List.getElem_drop, getElem_numbered]
  omega

/-- A read from a cursor that the log still reaches back to misses nothing. -/
theorem mem_after {c : Nat} {e : Nat × α} (he : e ∈ l.numbered) (hlt : c < e.1)
    (htrim : l.trimmed ≤ c) : e ∈ l.after c := by
  obtain ⟨i, hi, rfl⟩ := List.getElem_of_mem he
  rw [getElem_numbered] at hlt
  unfold after
  refine List.mem_drop_iff_getElem.mpr ⟨i - max c l.trimmed, by omega, ?_⟩
  congr 1
  omega

/-- Ids increase along a read. -/
theorem after_sorted (c : Nat) : ((l.after c).map Prod.fst).Pairwise (· < ·) := by
  unfold after
  rw [List.pairwise_map, List.pairwise_iff_getElem]
  intro i j hi hj hij
  rw [List.getElem_drop, List.getElem_drop, getElem_numbered, getElem_numbered]
  omega

/-- **Cursor rule**: behind an entry that was read lies what followed it in the
read, nothing less and nothing more. -/
theorem after_of_split {c : Nat} {pre post : List (Nat × α)} {e : Nat × α}
    (h : l.after c = pre ++ e :: post) : l.after e.1 = post := by
  have hlen := congrArg List.length h
  unfold after at h hlen
  rw [List.length_drop, List.length_append, List.length_cons] at hlen
  have hlt : max c l.trimmed + pre.length < l.numbered.length := by omega
  -- the entry stands at position `max c trimmed + |pre|`, so its id is one more
  have hid : e.1 = max c l.trimmed + pre.length + 1 := by
    have hget : (l.numbered.drop (max c l.trimmed))[pre.length]? = some e := by
      rw [h]
      simp
    rw [List.getElem?_drop, List.getElem?_eq_getElem hlt, Option.some.injEq] at hget
    rw [← hget, getElem_numbered]
  have hmax : max e.1 l.trimmed = max c l.trimmed + (pre.length + 1) := by omega
  calc l.after e.1
      = (l.numbered.drop (max c l.trimmed)).drop (pre.length + 1) := by
        rw [after, hmax, List.drop_drop]
    _ = post := by
        rw [h]
        simp

/-- What is left of a read after trimming. -/
theorem after_trim_sublist {c : Nat} (k : Nat) : ((l.trim k).after c).Sublist (l.after c) := by
  have hle : max c l.trimmed ≤ max c (l.trim k).trimmed := by
    show max c l.trimmed ≤ max c (max l.trimmed _)
    omega
  exact List.drop_sublist_drop_left l.numbered hle

/-! ## Payloads that parse -/

/-- A read with the entries that do not parse skipped. -/
def decoded (es : List (Nat × Option β)) : List (Nat × β) :=
  es.filterMap fun e => e.2.map (e.1, ·)

@[simp] theorem decoded_nil : decoded ([] : List (Nat × Option β)) = [] := rfl

theorem decoded_append (es es' : List (Nat × Option β)) :
    decoded (es ++ es') = decoded es ++ decoded es' :=
  List.filterMap_append ..

theorem mem_decoded {es : List (Nat × Option β)} {i : Nat} {x : β} :
    (i, x) ∈ decoded es ↔ (i, some x) ∈ es := by
  unfold decoded
  rw [List.mem_filterMap]
  constructor
  · rintro ⟨⟨j, y⟩, hmem, hy⟩
    cases y with
    | none => cases hy
    | some y =>
      simp only [Option.map_some, Option.some.injEq, Prod.mk.injEq] at hy
      rw [← hy.1, ← hy.2]
      exact hmem
  · intro hmem
    exact ⟨(i, some x), hmem, rfl⟩

/-- Skipping entries keeps the ids in order. -/
theorem decoded_sorted {es : List (Nat × Option β)} (h : (es.map Prod.fst).Pairwise (· < ·)) :
    ((decoded es).map Prod.fst).Pairwise (· < ·) := by
  induction es with
  | nil => exact List.Pairwise.nil
  | cons e es ih =>
    rw [List.map_cons, List.pairwise_cons] at h
    obtain ⟨i, x⟩ := e
    cases x with
    | none => exact ih h.2
    | some x =>
      show ((i, x) :: decoded es).map Prod.fst |>.Pairwise (· < ·)
      rw [List.map_cons, List.pairwise_cons]
      refine ⟨fun j hj => ?_, ih h.2⟩
      obtain ⟨⟨j', y⟩, hmem, rfl⟩ := List.mem_map.mp hj
      exact h.1 j' (List.mem_map.mpr ⟨(j', some y), mem_decoded.mp hmem, rfl⟩)

/-- The last entry that parses, and the ones behind it, which do not. -/
theorem decoded_eq_concat {es : List (Nat × Option β)} {ds : List (Nat × β)} {d : Nat × β}
    (h : decoded es = ds ++ [d]) :
    ∃ pre post, es = pre ++ (d.1, some d.2) :: post ∧ decoded post = [] := by
  unfold decoded at h
  obtain ⟨pre, post, rfl, _, hpost⟩ := List.filterMap_eq_append_iff.mp h
  obtain ⟨skip, e, rest, rfl, _, he, hrest⟩ := List.filterMap_eq_cons_iff.mp hpost
  obtain ⟨i, x⟩ := e
  cases x with
  | none => cases he
  | some x =>
    simp only [Option.map_some, Option.some.injEq] at he
    refine ⟨pre ++ skip, rest, ?_, hrest⟩
    rw [List.append_assoc, ← he]

/-- A reader that takes up to `k` entries behind its cursor and moves the cursor
to the last one that parses neither skips nor repeats one that parses. -/
theorem decoded_after_take {l : Log (Option β)} {c k : Nat} {ds : List (Nat × β)} {d : Nat × β}
    (h : decoded ((l.after c).take k) = ds ++ [d]) :
    decoded (l.after c) = ds ++ [d] ++ decoded (l.after d.1) := by
  obtain ⟨pre, post, hsplit, hpost⟩ := decoded_eq_concat h
  have hall : l.after c = pre ++ (d.1, some d.2) :: (post ++ (l.after c).drop k) := by
    calc l.after c = (l.after c).take k ++ (l.after c).drop k := (List.take_append_drop k _).symm
      _ = _ := by rw [hsplit]; simp
  have hbehind := l.after_of_split hall
  rw [hbehind, decoded_append, hpost, List.nil_append]
  calc decoded (l.after c)
      = decoded ((l.after c).take k) ++ decoded ((l.after c).drop k) := by
        rw [← decoded_append, List.take_append_drop]
    _ = _ := by rw [h]

/-! ## Reading in windows -/

/-- Such a reader is left with what lies behind the last entry that parses. -/
theorem after_take {l : Log (Option β)} {c k : Nat} {ds : List (Nat × β)} {d : Nat × β}
    (h : decoded ((l.after c).take k) = ds ++ [d]) :
    ∃ pre, l.after c = pre ++ (d.1, some d.2) :: l.after d.1 ∧ pre.length < k := by
  obtain ⟨pre, post, hsplit, _⟩ := decoded_eq_concat h
  have hall : l.after c = pre ++ (d.1, some d.2) :: (post ++ (l.after c).drop k) := by
    calc l.after c = (l.after c).take k ++ (l.after c).drop k := (List.take_append_drop k _).symm
      _ = _ := by rw [hsplit]; simp
  have hlen := congrArg List.length hsplit
  rw [List.length_take, List.length_append, List.length_cons] at hlen
  refine ⟨pre, ?_, by omega⟩
  rw [l.after_of_split hall]
  exact hall

/-- Entries that a reader in windows of `k` gets through: wherever it stands, something
in its window parses. -/
def Readable (k : Nat) (es : List (Nat × Option β)) : Prop :=
  ∀ rest, rest <:+ es → rest ≠ [] → decoded (rest.take k) ≠ []

theorem Readable.suffix {k : Nat} {es es' : List (Nat × Option β)} (h : Readable k es)
    (hsuf : es' <:+ es) : Readable k es' :=
  fun rest hrest => h rest (hrest.trans hsuf)

/-- **Window rule**: a window in which nothing parses stays ahead of the reader. -/
theorem unreadable_stays {l : Log (Option β)} {c k : Nat} {ds : List (Nat × β)} {d : Nat × β}
    {rest : List (Nat × Option β)} (hrest : decoded (rest.take k) = [])
    (hsuf : rest <:+ l.after c) (h : decoded ((l.after c).take k) = ds ++ [d]) :
    rest <:+ l.after d.1 := by
  obtain ⟨pre, hsplit, hlen⟩ := after_take h
  -- the entry the reader moves to is not in the window, and not behind it either
  have hbefore : ¬ (d.1, some d.2) :: l.after d.1 <:+ rest := by
    rintro ⟨pre', rfl⟩
    obtain ⟨front, hfront⟩ := hsuf
    have hpre : front ++ pre' = pre := by
      rw [hsplit, ← List.append_assoc] at hfront
      exact List.append_cancel_right hfront
    have hshort := congrArg List.length hpre
    rw [List.length_append] at hshort
    have hmem : (d.1, some d.2) ∈ (pre' ++ (d.1, some d.2) :: l.after d.1).take k := by
      refine List.mem_take_iff_getElem.mpr ⟨pre'.length, ?_, ?_⟩
      · rw [List.length_append, List.length_cons]
        omega
      · simp
    have hdec := mem_decoded.mpr hmem
    rw [hrest] at hdec
    cases hdec
  have hentry : (d.1, some d.2) :: l.after d.1 <:+ l.after c := ⟨pre, hsplit.symm⟩
  rcases List.suffix_or_suffix_of_suffix hsuf hentry with hshort | hlong
  · rcases List.suffix_cons_iff.mp hshort with heq | htail
    · exact absurd (heq ▸ List.suffix_refl _) hbefore
    · exact htail
  · exact absurd hlong hbefore

/-! ## Reading through a decoder -/

theorem eq_of {l l' : Log α} (he : l.entries = l'.entries) (ht : l.trimmed = l'.trimmed) :
    l = l' := by
  obtain ⟨entries, trimmed, _⟩ := l
  obtain ⟨entries', trimmed', _⟩ := l'
  obtain rfl : entries = entries' := he
  obtain rfl : trimmed = trimmed' := ht
  rfl

/-- The log as it is read by who applies `f` to each payload. -/
def map (f : α → β) (l : Log α) : Log β :=
  ⟨l.entries.map f, l.trimmed, by rw [List.length_map]; exact l.trimmed_le⟩

variable (f : α → β)

@[simp] theorem lastId_map : (l.map f).lastId = l.lastId := List.length_map f

theorem map_append (x : α) : (l.append x).map f = (l.map f).append (f x) :=
  eq_of List.map_append rfl

theorem map_trim (c : Nat) : (l.trim c).map f = (l.map f).trim c := by
  refine eq_of rfl ?_
  show max l.trimmed (min c l.entries.length) = max l.trimmed (min c (l.entries.map f).length)
  rw [List.length_map]

theorem after_map (c : Nat) : (l.map f).after c = (l.after c).map fun e => (e.1, f e.2) := by
  have hnumbered : (l.map f).numbered = l.numbered.map fun e => (e.1, f e.2) := by
    unfold numbered map
    refine List.ext_getElem? fun i => ?_
    rw [List.getElem?_mapIdx, List.getElem?_map, List.getElem?_map, List.getElem?_mapIdx,
      Option.map_map, Option.map_map]
    rfl
  show (l.map f).numbered.drop (max c l.trimmed) = _
  rw [hnumbered, ← List.map_drop]
  rfl

end Log

/-! ## Consumer groups -/

/-- What a group keeps for its consumer. -/
structure Consumer (α : Type u) where
  delivered : Nat
  pending : List (Nat × α)

namespace Consumer

variable {α : Type u} (g : Consumer α) (l : Log α)

/-- A group created at the end of the log. -/
def create : Consumer α := ⟨l.lastId, []⟩

/-- Up to `count` entries that were never delivered. -/
def undelivered (count : Nat) : List (Nat × α) := (l.after g.delivered).take count

/-- The group after they were delivered: they are pending until acknowledged. -/
def deliver (count : Nat) : Consumer α :=
  let batch := g.undelivered l count
  ⟨(batch.getLast?.map Prod.fst).getD g.delivered, g.pending ++ batch⟩

/-- An entry that was to be delivered is delivered now, or still to be. -/
theorem mem_after_deliver (count : Nat) {e : Nat × α} (h : e ∈ l.after g.delivered) :
    e ∈ g.undelivered l count ∨ e ∈ l.after (g.deliver l count).delivered := by
  rw [← List.take_append_drop count (l.after g.delivered)] at h
  rcases List.mem_append.mp h with h | h
  · exact Or.inl h
  · right
    rcases List.eq_nil_or_concat (g.undelivered l count) with hnil | ⟨pre, x, hbatch⟩
    · have hsame : (g.deliver l count).delivered = g.delivered := by
        unfold deliver
        rw [hnil]
        rfl
      rw [hsame]
      exact List.mem_of_mem_drop h
    · rw [List.concat_eq_append] at hbatch
      have hlast : (g.deliver l count).delivered = x.1 := by
        unfold deliver
        rw [hbatch]
        simp
      have hsplit : l.after g.delivered = pre ++ x :: (l.after g.delivered).drop count := by
        calc l.after g.delivered
            = g.undelivered l count ++ (l.after g.delivered).drop count :=
              (List.take_append_drop count _).symm
          _ = _ := by rw [hbatch]; simp
      rw [hlast, l.after_of_split hsplit]
      exact h

/-- Up to `count` pending entries, oldest first. -/
def redeliver (count : Nat) : List (Nat × α) := g.pending.take count

/-- Acknowledge the ids. -/
def ack (ids : List Nat) : Consumer α :=
  { g with pending := g.pending.filter fun e => e.1 ∉ ids }

theorem mem_pending_ack {ids : List Nat} {e : Nat × α} :
    e ∈ (g.ack ids).pending ↔ e ∈ g.pending ∧ e.1 ∉ ids := by
  show e ∈ g.pending.filter _ ↔ _
  rw [List.mem_filter, decide_eq_true_iff]

/-! ## Reading through a decoder -/

variable {β : Type v} (f : α → β)

/-- The same deliveries, with other payloads. -/
def map (f : α → β) (g : Consumer α) : Consumer β :=
  ⟨g.delivered, g.pending.map fun e => (e.1, f e.2)⟩

theorem map_create : (create l).map f = create (l.map f) := by
  unfold create map
  rw [Log.lastId_map]
  rfl

theorem undelivered_map (count : Nat) :
    (g.map f).undelivered (l.map f) count =
      (g.undelivered l count).map fun e => (e.1, f e.2) := by
  unfold undelivered
  rw [Log.after_map, ← List.map_take]
  rfl

theorem map_deliver (count : Nat) :
    (g.deliver l count).map f = (g.map f).deliver (l.map f) count := by
  unfold deliver
  simp only [undelivered_map, List.getLast?_map, Option.map_map]
  unfold map
  rw [List.map_append]
  rfl

theorem redeliver_map (count : Nat) :
    (g.map f).redeliver count = (g.redeliver count).map fun e => (e.1, f e.2) :=
  List.map_take.symm

theorem map_ack (ids : List Nat) : (g.ack ids).map f = (g.map f).ack ids := by
  unfold ack map
  rw [List.filter_map]
  rfl

end Consumer
