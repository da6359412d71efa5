import Supermatchmaker.Db.Statements

/-!
# Batches are only a matter of speed

The poller writes matches in batches: up to 50 of those that are new, up to 500 of
those that were pending when the process started, each in one transaction of three
bulk statements. How the stream is cut into batches depends on when the poller reads.
The modelled columns do not: batches that each fit into a statement leave the same
tables as one transaction for each match, and as one transaction for all of them where
that still fits; and the database takes all the batches just when it takes all the
matches (`batching_transparent`).

It comes down to one cut, `insertMatchBatch_append`. The three statements of the
second transaction see what the first has written, so its index check covers the rows
of both; and since the index lets no user into both, no counter is bumped twice.

Mirroring notes:
- A statement binds at most 65535 parameters. The poller stays far below it with five
  players in each team (`sendable_of_fives`), so `insertMatchBatch` does not look at it;
  one transaction for a longer list is not sent, and `sendMatchBatch` is the call with
  this limit.
- `matches.created_at` is the time of the transaction, so it does depend on the cut,
  and `GET /matches` sorts by it. It is not among the modelled columns.
-/

namespace Supermatchmaker

theorem batchUsers_append (xs ys : List BatchItem) :
    batchUsers (xs ++ ys) = batchUsers xs ++ batchUsers ys := List.flatMap_append

/-- The users of two batches that fit into the index together. -/
theorem disjoint_of_unique {db : Db} {xs ys : List BatchItem}
    (h : Table.UniqueOn PlayerRow.active PlayerRow.userId
      (db.matchPlayers ++ (xs ++ ys).flatMap (·.playerRows true))) :
    ∀ id ∈ batchUsers xs, id ∉ batchUsers ys := by
  have hnodup := ((Table.uniqueOn_append batch_rows_active).mp h).2.1
  rw [batch_rows_users, batchUsers_append] at hnodup
  intro id hx hy
  exact List.disjoint_of_nodup_append hnodup hx hy

/-- The users that the first batch leaves to the second are as before. -/
theorem stored_users {db : Db} {xs : List BatchItem} {u : UserRow}
    (hu : u ∈ (stored db xs).users) :
    (u ∈ db.users ∧ u.id ∉ batchUsers xs) ∨ u.id ∈ batchUsers xs := by
  obtain ⟨old, hold, rfl⟩ := List.mem_map.mp hu
  by_cases hin : old.id ∈ batchUsers xs
  · rw [if_pos (decide_eq_true hin)]
    exact .inr hin
  · rw [if_neg (by simpa using hin)]
    exact .inl ⟨hold, hin⟩

/-- **One cut**: the database takes two batches together just when it takes the second after
the first. -/
theorem accepted_append {db : Db} {xs ys : List BatchItem} :
    Accepted db (xs ++ ys) ↔ Accepted db xs ∧ Accepted (stored db xs) ys := by
  have hrows : (xs ++ ys).flatMap (·.playerRows true)
      = xs.flatMap (·.playerRows true) ++ ys.flatMap (·.playerRows true) := List.flatMap_append
  constructor
  · intro h
    have hdisj := disjoint_of_unique h.unique
    have hunique := h.unique
    rw [hrows, ← List.append_assoc] at hunique
    refine ⟨⟨hunique.left, fun u hu hid => h.counters u hu ?_⟩, ⟨hunique, fun u hu hid => ?_⟩⟩
    · rw [batchUsers_append]
      exact List.mem_append_left _ hid
    · rcases stored_users hu with ⟨hold, _⟩ | hin
      · refine h.counters u hold ?_
        rw [batchUsers_append]
        exact List.mem_append_right _ hid
      · exact absurd hid (hdisj u.id hin)
  · rintro ⟨hx, hy⟩
    have hunique : Table.UniqueOn PlayerRow.active PlayerRow.userId
        (db.matchPlayers ++ (xs ++ ys).flatMap (·.playerRows true)) := by
      rw [hrows, ← List.append_assoc]
      exact hy.unique
    refine ⟨hunique, fun u hu hid => ?_⟩
    rw [batchUsers_append] at hid
    rcases List.mem_append.mp hid with hid | hid
    · exact hx.counters u hu hid
    · -- the first batch has not touched this user
      have hnot : u.id ∉ batchUsers xs := fun hin => disjoint_of_unique hunique u.id hin hid
      refine hy.counters u (List.mem_map.mpr ⟨u, hu, ?_⟩) hid
      exact if_neg (by simpa using hnot)

/-- What two batches leave is what they leave together. -/
theorem stored_append {db : Db} {xs ys : List BatchItem} (h : Accepted db (xs ++ ys)) :
    stored db (xs ++ ys) = stored (stored db xs) ys := by
  have hdisj := disjoint_of_unique h.unique
  have husers := Table.updateWhere_updateWhere (t := db.users)
    (p := fun u : UserRow => u.id ∈ batchUsers xs) (q := fun u : UserRow => u.id ∈ batchUsers ys)
    (f := fun u => { u with inMatch := true, matchesPlayed := u.matchesPlayed + 1 })
    (fun _ => rfl) fun u _ hx => by
      rw [decide_eq_true_eq] at hx ⊢
      exact hdisj u.id hx
  unfold stored
  simp only [husers, List.map_append, Table.insertNew_append, List.flatMap_append,
    List.append_assoc, Db.mk.injEq, and_true]
  unfold Table.updateWhere
  refine List.map_congr_left fun u _ => ?_
  rw [batchUsers_append]
  simp only [List.mem_append, Bool.decide_or]

/-- **One cut**, as the caller sees it. -/
theorem insertMatchBatch_append {db db' : Db} {xs ys : List BatchItem} :
    insertMatchBatch (xs ++ ys) db = .ok db' ↔
      ∃ db₁, insertMatchBatch xs db = .ok db₁ ∧ insertMatchBatch ys db₁ = .ok db' := by
  by_cases hx : xs = []
  · subst hx
    constructor
    · exact fun h => ⟨db, rfl, h⟩
    · rintro ⟨db₁, hfirst, hsecond⟩
      rw [Except.ok.inj (hfirst : Except.ok db = Except.ok db₁)]
      exact hsecond
  by_cases hy : ys = []
  · subst hy
    rw [List.append_nil]
    constructor
    · exact fun h => ⟨db', h, rfl⟩
    · rintro ⟨db₁, hfirst, hsecond⟩
      rw [← Except.ok.inj (hsecond : Except.ok db₁ = Except.ok db')]
      exact hfirst
  have hxy : xs ++ ys ≠ [] := fun hnil => hx (List.append_eq_nil_iff.mp hnil).1
  constructor
  · intro h
    rcases eq_of_insertMatchBatch h with ⟨hnil, _⟩ | ⟨_, ha, rfl⟩
    · exact absurd hnil hxy
    · obtain ⟨hax, hay⟩ := accepted_append.mp ha
      refine ⟨stored db xs, (insertMatchBatch_ok hx).1 hax, ?_⟩
      rw [stored_append ha]
      exact (insertMatchBatch_ok hy).1 hay
  · rintro ⟨db₁, hfirst, hsecond⟩
    rcases eq_of_insertMatchBatch hfirst with ⟨hnil, _⟩ | ⟨_, hax, rfl⟩
    · exact absurd hnil hx
    rcases eq_of_insertMatchBatch hsecond with ⟨hnil, _⟩ | ⟨_, hay, rfl⟩
    · exact absurd hnil hy
    have ha := accepted_append.mpr ⟨hax, hay⟩
    rw [← stored_append ha]
    exact (insertMatchBatch_ok hxy).1 ha

/-! ## What fits into a statement -/

/-- The most parameters a statement can bind. -/
def maxBound : Nat := 65535

/-- The two bulk inserts bind three parameters for each match and five for each player row.
The update binds its ids as one array. -/
def Sendable (batch : List BatchItem) : Prop :=
  3 * batch.length ≤ maxBound ∧ 5 * (batchUsers batch).length ≤ maxBound

instance (batch : List BatchItem) : Decidable (Sendable batch) :=
  inferInstanceAs (Decidable (_ ∧ _))

/-- `insert_match_batch` with the limit: a statement that binds more is not sent, and its
transaction is rolled back. -/
def sendMatchBatch (batch : List BatchItem) (db : Db) : Except DbError Db :=
  if Sendable batch then insertMatchBatch batch db else .error .unavailable

theorem sendMatchBatch_eq {batch : List BatchItem} (h : Sendable batch) (db : Db) :
    sendMatchBatch batch db = insertMatchBatch batch db := if_pos h

/-- A part of what fits does so too. -/
theorem sendable_of_append {xs ys : List BatchItem} (h : Sendable (xs ++ ys)) :
    Sendable xs ∧ Sendable ys := by
  obtain ⟨hrows, husers⟩ := h
  rw [List.length_append] at hrows
  rw [batchUsers_append, List.length_append] at husers
  exact ⟨⟨by omega, by omega⟩, by omega, by omega⟩

theorem sendable_singleton {batch : List BatchItem} (h : Sendable batch) {e : BatchItem}
    (he : e ∈ batch) : Sendable [e] := by
  obtain ⟨xs, ys, rfl⟩ := List.append_of_mem he
  have hrest : Sendable ([e] ++ ys) := (sendable_of_append h).2
  exact (sendable_of_append hrest).1

/-- With five players in each team, 1310 matches fit and no more. -/
theorem sendable_of_fives {batch : List BatchItem}
    (h : ∀ e ∈ batch, e.teamA.length = 5 ∧ e.teamB.length = 5) :
    Sendable batch ↔ batch.length ≤ 1310 := by
  have husers : (batchUsers batch).length = 10 * batch.length := by
    induction batch with
    | nil => rfl
    | cons e batch ih =>
      obtain ⟨hA, hB⟩ := h e List.mem_cons_self
      have hrest := ih fun e he => h e (List.mem_cons_of_mem _ he)
      have hten : e.users.length = 10 := by
        unfold BatchItem.users
        rw [List.length_map, List.length_append, hA, hB]
      show (e.users ++ batchUsers batch).length = _
      rw [List.length_append, hrest, hten, List.length_cons]
      omega
  unfold Sendable maxBound
  rw [husers]
  omega

/-! ## Any cut -/

/-- The calls of a poller whose batches are all taken, with no other call between them. -/
def insertBatches (batches : List (List BatchItem)) (db : Db) : Except DbError Db :=
  batches.foldlM (fun db batch => sendMatchBatch batch db) db

theorem insertBatches_cons {batch : List BatchItem} {batches : List (List BatchItem)}
    {db db' : Db} :
    insertBatches (batch :: batches) db = .ok db' ↔
      ∃ db₁, sendMatchBatch batch db = .ok db₁ ∧ insertBatches batches db₁ = .ok db' := by
  unfold insertBatches
  rw [List.foldlM_cons]
  cases sendMatchBatch batch db with
  | error e =>
    constructor
    · exact fun h => by cases h
    · rintro ⟨_, h, _⟩
      cases h
  | ok db₁ =>
    constructor
    · exact fun h => ⟨db₁, rfl, h⟩
    · rintro ⟨_, heq, h⟩
      cases heq
      exact h

/-- Batches that fit are one list of matches to the database. -/
theorem insertBatches_flatten {batches : List (List BatchItem)}
    (hfit : ∀ batch ∈ batches, Sendable batch) (db db' : Db) :
    insertBatches batches db = .ok db' ↔ insertMatchBatch batches.flatten db = .ok db' := by
  induction batches generalizing db with
  | nil => exact Iff.rfl
  | cons batch batches ih =>
    have hrest := ih fun b hb => hfit b (List.mem_cons_of_mem _ hb)
    rw [insertBatches_cons, List.flatten_cons, insertMatchBatch_append,
      sendMatchBatch_eq (hfit batch List.mem_cons_self)]
    simp only [hrest]

/-- **Batches are transparent**: however the matches are cut into batches that fit, the
database takes them all just when it takes each by itself, and with the same result; so also
when it gets them in one transaction, as long as that fits. -/
theorem batching_transparent {batches : List (List BatchItem)}
    (hfit : ∀ batch ∈ batches, Sendable batch) (db db' : Db) :
    (insertBatches batches db = .ok db' ↔
      insertBatches (batches.flatten.map fun e => [e]) db = .ok db') ∧
    (Sendable batches.flatten →
      (insertBatches batches db = .ok db' ↔ sendMatchBatch batches.flatten db = .ok db')) := by
  have hall := insertBatches_flatten hfit db db'
  constructor
  · -- single matches are batches too, with the same flattening
    have hone : ∀ batch ∈ batches.flatten.map fun e => [e], Sendable batch := by
      intro one hmem
      obtain ⟨e, he, rfl⟩ := List.mem_map.mp hmem
      obtain ⟨batch, hbatch, he⟩ := List.mem_flatten.mp he
      exact sendable_singleton (hfit batch hbatch) he
    rw [hall, insertBatches_flatten hone, ← List.flatMap_def, List.flatMap_singleton']
  · intro hflat
    rw [hall, sendMatchBatch_eq hflat]

/-- A match of the users `10 i + 1` to `10 i + 10`. -/
def matchOf (i : Nat) : BatchItem :=
  ⟨Int64.ofNat (i + 1), 0, (List.range 5).map fun j => (Int64.ofNat (10 * i + j + 1), 0),
    (List.range 5).map fun j => (Int64.ofNat (10 * i + j + 6), 0)⟩

/-- Cut after the first, cut everywhere and not cut at all. -/
theorem batching_transparent_three :
    ∃ db, insertBatches [[matchOf 0], [matchOf 1, matchOf 2]] Db.empty = .ok db ∧
      insertBatches [[matchOf 0], [matchOf 1], [matchOf 2]] Db.empty = .ok db ∧
      sendMatchBatch [matchOf 0, matchOf 1, matchOf 2] Db.empty = .ok db := by
  have hfit : ∀ batch ∈ [[matchOf 0], [matchOf 1, matchOf 2]], Sendable batch := by decide
  have htaken : (insertBatches [[matchOf 0], [matchOf 1, matchOf 2]] Db.empty).toOption.isSome
      = true := by decide +kernel
  cases hdb : insertBatches [[matchOf 0], [matchOf 1, matchOf 2]] Db.empty with
  | error err =>
    rw [hdb] at htaken
    cases htaken
  | ok db =>
    obtain ⟨hsingle, hwhole⟩ := batching_transparent hfit Db.empty db
    exact ⟨db, rfl, hsingle.mp hdb, (hwhole (by decide)).mp hdb⟩

end Supermatchmaker
