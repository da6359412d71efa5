import Supermatchmaker.Lib.Log

/-!
# The ingest stream and the ingestion thread

`read_ingest_after` from `queue.rs` and the ingestion thread of `main.rs`, over
the Redis stream `mm:ingest:stream`.

The thread is a program counter with its local variables. `XREAD` is two steps:
Redis receives the call and resolves its cursor (`"$"` is the newest id at that
moment), and later answers with up to 100 entries behind it, or the call comes
back empty (timeout, or any failure: the code does not tell them apart). Then
each event of the batch is placed in the pool and counted, one step each, and
the shared cursor is moved once at the end.

Mirroring notes:
- Redis ids are the positions of the log; the cursor `"$"` is `none`.
- A payload that `parse_ingest_reply` skips is `none` in the stream.
- The thread is the only writer of `read_cursor` after boot.

`ahead` is what the rest of the development needs of this thread: the events it
has in hand or will still read, in stream order. Every step either hands the
first of them to the pool, or leaves them alone, or, in one situation only,
drops them (`threadStep_advance`).
-/

namespace Supermatchmaker

/-- What `enter_queue` publishes. -/
structure IngestEvent where
  id : Int64
  rating : Int32
  deriving DecidableEq, Repr

/-- `e.event.rating.max(0) as u32`. -/
def IngestEvent.poolRating (ev : IngestEvent) : UInt32 := (max ev.rating 0).toUInt32

/-- The value of `read_cursor`; `none` is `"$"`. -/
abbrev Cursor := Option Nat

/-- Where the ingestion thread stands. -/
inductive IngestPc
  /-- top of the loop -/
  | idle
  /-- in `XREAD`; `start` is the id the cursor `last` was resolved to -/
  | reading (last : Cursor) (start : Nat)
  /-- in the loop over the batch; `due` while an enqueued event is not counted yet -/
  | placing (due : Bool) (todo : List (Nat × IngestEvent)) (newest : Cursor)
  deriving DecidableEq

/-- The ingest stream and the thread that reads it. -/
structure Ingest where
  stream : Log (Option IngestEvent)
  cursor : Cursor
  pc : IngestPc
  /-- ghost: where the first read of the loop started -/
  base : Option Nat
  /-- ghost: the events passed to `Pool::enqueue`, in order -/
  delivered : List (Nat × IngestEvent)

/-- What a step of the thread does to the pool. -/
inductive PoolCall
  | none
  | enqueue (e : Nat × IngestEvent)
  | counted
  deriving DecidableEq

/-- A step of the ingestion thread. -/
inductive IngestStep
  | run
  /-- `read_ingest_after` returns, with what Redis has or empty-handed -/
  | reply (ok : Bool)
  deriving DecidableEq, Repr

namespace Ingest

/-- The thread starts with the cursor that boot left in `read_cursor`. -/
def start (stream : Log (Option IngestEvent)) (cursor : Cursor) : Ingest where
  stream := stream
  cursor := cursor
  pc := .idle
  base := none
  delivered := []

variable (s : Ingest)

/-- `XADD mm:ingest:stream * data payload`. -/
def xadd (payload : Option IngestEvent) : Ingest := { s with stream := s.stream.append payload }

/-- `XREAD COUNT 100 .. start`, decoded. -/
def readBatch (start : Nat) : List (Nat × IngestEvent) :=
  Log.decoded ((s.stream.after start).take 100)

/-- One step of the ingestion thread. -/
def threadStep : IngestStep → Option (Ingest × PoolCall)
  | .run =>
    match s.pc with
    | .idle =>
      let start := s.cursor.getD s.stream.lastId
      some ({ s with pc := .reading s.cursor start, base := s.base.or (some start) }, .none)
    | .reading .. => none
    | .placing true todo newest => some ({ s with pc := .placing false todo newest }, .counted)
    | .placing false (e :: todo) _ =>
      some ({ s with pc := .placing true todo (some e.1), delivered := s.delivered ++ [e] },
        .enqueue e)
    | .placing false [] newest => some ({ s with pc := .idle, cursor := newest }, .none)
  | .reply ok =>
    match s.pc with
    | .reading last start =>
      if ok then
        if s.stream.after start = [] then none
        else if s.readBatch start = [] then some ({ s with pc := .idle }, .none)
        else some ({ s with pc := .placing false (s.readBatch start) last }, .none)
      else some ({ s with pc := .idle }, .none)
    | _ => none

/-! ## What lies ahead of the thread -/

/-- The events of the batch that are not placed yet. -/
def inHand : List (Nat × IngestEvent) :=
  match s.pc with
  | .placing _ todo _ => todo
  | _ => []

/-- The id behind which the read in progress, or else the next one, starts;
`none` while that will be wherever the stream ends then. -/
def position : Option Nat :=
  match s.pc with
  | .idle => s.cursor
  | .reading _ start => some start
  | .placing _ todo newest => (todo.getLast?.map Prod.fst).or newest

/-- The events on the stream that a read from there returns. -/
def willRead : List (Nat × IngestEvent) :=
  match s.position with
  | some c => Log.decoded (s.stream.after c)
  | none => []

/-- The events the thread has still to place: those in its hand and those its next reads will
find. -/
def ahead : List (Nat × IngestEvent) := s.inHand ++ s.willRead

/-- The local variables agree with the cursor. -/
structure Local (s : Ingest) : Prop where
  position_le : ∀ p, s.position = some p → p ≤ s.stream.lastId
  cursor_le : ∀ c, s.cursor = some c → ∃ p, s.position = some p ∧ c ≤ p
  reading : ∀ last start, s.pc = .reading last start → last = s.cursor ∧
    ∀ c, s.cursor = some c → start = c
  placing : ∀ due todo newest, s.pc = .placing due todo newest → s.position.isSome

/-- The thread's invariant: the events ahead lie behind the cursor, in order. -/
structure Wf (s : Ingest) : Prop extends Local s where
  ahead_gt : ∀ c, s.cursor = some c → ∀ e ∈ s.ahead, c < e.1
  ahead_le : ∀ e ∈ s.ahead, e.1 ≤ s.stream.lastId
  sorted : (s.ahead.map Prod.fst).Pairwise (· < ·)

/-- What a step of the thread does to the events ahead of it. The third case is
the defect of the symbolic cursor: a `"$"` read that comes back without an event
forgets where it started. -/
inductive Advance (s s' : Ingest) : PoolCall → Prop
  | kept {call : PoolCall} (hcall : ∀ e, call ≠ .enqueue e) (ha : s'.ahead = s.ahead)
      (hd : s'.delivered = s.delivered) : Advance s s' call
  | placed {e : Nat × IngestEvent} (ha : s.ahead = e :: s'.ahead)
      (hd : s'.delivered = s.delivered ++ [e]) : Advance s s' (.enqueue e)
  | dropped {start : Nat} (hpc : s.pc = .reading none start) (ha : s'.ahead = [])
      (hd : s'.delivered = s.delivered) : Advance s s' .none

/-! ## Lemmas about `ahead` -/

theorem ahead_idle {s : Ingest} (h : s.pc = .idle) : s.inHand = [] ∧ s.position = s.cursor := by
  unfold inHand position
  rw [h]
  exact ⟨rfl, rfl⟩

theorem ahead_reading {s : Ingest} {last : Cursor} {start : Nat} (h : s.pc = .reading last start) :
    s.inHand = [] ∧ s.position = some start := by
  unfold inHand position
  rw [h]
  exact ⟨rfl, rfl⟩

theorem ahead_placing {s : Ingest} {due : Bool} {todo : List (Nat × IngestEvent)} {newest : Cursor}
    (h : s.pc = .placing due todo newest) :
    s.inHand = todo ∧ s.position = (todo.getLast?.map Prod.fst).or newest := by
  unfold inHand position
  rw [h]
  exact ⟨rfl, rfl⟩

theorem ahead_eq {s : Ingest} {p : Nat} (hp : s.position = some p) :
    s.ahead = s.inHand ++ Log.decoded (s.stream.after p) := by
  unfold ahead willRead
  rw [hp]

theorem ahead_none {s : Ingest} (hp : s.position = none) : s.ahead = s.inHand := by
  unfold ahead willRead
  rw [hp, List.append_nil]

/-- The same stream, batch and position: the same events ahead. -/
theorem ahead_congr {s s' : Ingest} (hs : s'.stream = s.stream) (hh : s'.inHand = s.inHand)
    (hp : s'.position = s.position) : s'.ahead = s.ahead := by
  unfold ahead willRead
  rw [hp, hs, hh]

/-- Where the thread starts. -/
theorem start_wf (stream : Log (Option IngestEvent)) {cursor : Cursor}
    (h : ∀ c, cursor = some c → c ≤ stream.lastId) : (start stream cursor).Wf := by
  have hbehind : ∀ c, cursor = some c → (start stream cursor).ahead
      = Log.decoded (stream.after c) := fun c hc => ahead_eq (s := start stream cursor) hc
  have hmem : ∀ x ∈ (start stream cursor).ahead, ∃ c, cursor = some c ∧ c < x.1 ∧
      x.1 ≤ stream.lastId := by
    intro x hx
    rcases Option.eq_none_or_eq_some cursor with hc | ⟨c, hc⟩
    · rw [ahead_none (s := start stream cursor) hc] at hx
      cases hx
    · rw [hbehind c hc] at hx
      exact ⟨c, hc, stream.lt_of_mem_after (Log.mem_decoded.mp hx)⟩
  refine ⟨⟨h, fun c hc => ⟨c, hc, Nat.le_refl c⟩, nofun, nofun⟩, fun c hc x hx => ?_,
    fun x hx => ?_, ?_⟩
  · obtain ⟨c', hc', hlt, _⟩ := hmem x hx
    rw [show c = c' from Option.some.inj (hc.symm.trans hc')]
    exact hlt
  · obtain ⟨_, _, _, hle⟩ := hmem x hx
    exact hle
  · rcases Option.eq_none_or_eq_some cursor with hc | ⟨c, hc⟩
    · rw [ahead_none (s := start stream cursor) hc]
      exact List.Pairwise.nil
    · rw [hbehind c hc]
      exact Log.decoded_sorted (stream.after_sorted c)

/-- Placing the first event of the batch moves no position. -/
theorem position_place (e : Nat × IngestEvent) (todo : List (Nat × IngestEvent)) (newest : Cursor) :
    (todo.getLast?.map Prod.fst).or (some e.1) = ((e :: todo).getLast?.map Prod.fst).or newest := by
  rw [List.getLast?_cons]
  cases todo.getLast? with
  | none => rfl
  | some x => rfl

/-- Decoding a batch moves its events from the stream into the thread's hands. -/
theorem readBatch_split {s : Ingest} {start : Nat} (h : s.readBatch start ≠ []) :
    ∃ n, (s.readBatch start).getLast?.map Prod.fst = some n ∧
      Log.decoded (s.stream.after start) = s.readBatch start ++ Log.decoded (s.stream.after n) := by
  obtain ⟨ds, d, hds⟩ := List.eq_nil_or_concat (s.readBatch start) |>.resolve_left h
  rw [List.concat_eq_append] at hds
  refine ⟨d.1, by rw [hds]; simp, ?_⟩
  rw [hds]
  exact Log.decoded_after_take hds

/-! ## One step -/

/-- The moves of the thread, one for each way through `threadStep`. -/
inductive ThreadMove (s : Ingest) : IngestStep → Ingest → PoolCall → Prop
  | read (hpc : s.pc = .idle) :
      ThreadMove s .run { s with
        pc := .reading s.cursor (s.cursor.getD s.stream.lastId)
        base := s.base.or (some (s.cursor.getD s.stream.lastId)) } .none
  | count {todo : List (Nat × IngestEvent)} {newest : Cursor}
      (hpc : s.pc = .placing true todo newest) :
      ThreadMove s .run { s with pc := .placing false todo newest } .counted
  | place {x : Nat × IngestEvent} {todo : List (Nat × IngestEvent)} {newest : Cursor}
      (hpc : s.pc = .placing false (x :: todo) newest) :
      ThreadMove s .run { s with
        pc := .placing true todo (some x.1)
        delivered := s.delivered ++ [x] } (.enqueue x)
  | finish {newest : Cursor} (hpc : s.pc = .placing false [] newest) :
      ThreadMove s .run { s with pc := .idle, cursor := newest } .none
  /-- the read comes back empty-handed, or nothing in its batch decodes -/
  | empty {ok : Bool} {last : Cursor} {start : Nat} (hpc : s.pc = .reading last start)
      (hnone : ok = false ∨ s.readBatch start = []) :
      ThreadMove s (.reply ok) { s with pc := .idle } .none
  | batch {last : Cursor} {start : Nat} (hpc : s.pc = .reading last start)
      (hbatch : s.readBatch start ≠ []) :
      ThreadMove s (.reply true) { s with pc := .placing false (s.readBatch start) last } .none

/-- The one place where `threadStep` is taken apart. -/
theorem threadStep_move {s s' : Ingest} {e : IngestStep} {call : PoolCall}
    (h : s.threadStep e = some (s', call)) : ThreadMove s e s' call := by
  cases e with
  | run =>
    unfold threadStep at h
    cases hpc : s.pc with
    | idle =>
      simp only [hpc, Option.some.injEq, Prod.mk.injEq] at h
      obtain ⟨rfl, rfl⟩ := h
      exact .read hpc
    | reading last start => simp only [hpc, reduceCtorEq] at h
    | placing due todo newest =>
      cases due with
      | true =>
        simp only [hpc, Option.some.injEq, Prod.mk.injEq] at h
        obtain ⟨rfl, rfl⟩ := h
        exact .count hpc
      | false =>
        cases todo with
        | nil =>
          simp only [hpc, Option.some.injEq, Prod.mk.injEq] at h
          obtain ⟨rfl, rfl⟩ := h
          exact .finish hpc
        | cons x todo =>
          simp only [hpc, Option.some.injEq, Prod.mk.injEq] at h
          obtain ⟨rfl, rfl⟩ := h
          exact .place hpc
  | reply ok =>
    unfold threadStep at h
    cases hpc : s.pc with
    | idle => simp only [hpc, reduceCtorEq] at h
    | placing due todo newest => simp only [hpc, reduceCtorEq] at h
    | reading last start =>
      simp only [hpc] at h
      cases ok with
      | false =>
        rw [if_neg Bool.false_ne_true, Option.some.injEq, Prod.mk.injEq] at h
        obtain ⟨rfl, rfl⟩ := h
        exact .empty hpc (.inl rfl)
      | true =>
        rw [if_pos rfl] at h
        by_cases hafter : s.stream.after start = []
        · rw [if_pos hafter] at h
          cases h
        · rw [if_neg hafter] at h
          by_cases hbatch : s.readBatch start = []
          · rw [if_pos hbatch, Option.some.injEq, Prod.mk.injEq] at h
            obtain ⟨rfl, rfl⟩ := h
            exact .empty hpc (.inr hbatch)
          · rw [if_neg hbatch, Option.some.injEq, Prod.mk.injEq] at h
            obtain ⟨rfl, rfl⟩ := h
            exact .batch hpc hbatch

/-- Where the thread stands once it has a batch: at its last event, which the
stream still has behind `start`. -/
theorem position_batch {s : Ingest} {start : Nat} (last : Cursor) (h : s.readBatch start ≠ []) :
    ∃ n, ((s.readBatch start).getLast?.map Prod.fst).or last = some n ∧
      (∃ x ∈ Log.decoded (s.stream.after start), x.1 = n) ∧
      Log.decoded (s.stream.after start) = s.readBatch start ++ Log.decoded (s.stream.after n) := by
  obtain ⟨n, hn, hsplit⟩ := readBatch_split h
  obtain ⟨x, hx, hxn⟩ := Option.map_eq_some_iff.mp hn
  refine ⟨n, by rw [hn, Option.some_or], ⟨x, ?_, hxn⟩, hsplit⟩
  rw [hsplit]
  exact List.mem_append_left _ (List.mem_of_getLast? hx)

/-- **A step of the thread**: what it does to the events ahead. -/
theorem threadStep_advance {s s' : Ingest} {e : IngestStep} {call : PoolCall} (hwf : s.Wf)
    (h : s.threadStep e = some (s', call)) : Advance s s' call := by
  cases threadStep_move h with
  | read hpc =>
    obtain ⟨hhand, hpos⟩ := ahead_idle hpc
    refine .kept (fun _ => by simp) ?_ rfl
    show [] ++ Log.decoded (s.stream.after (s.cursor.getD s.stream.lastId)) = s.ahead
    cases hc : s.cursor with
    | none =>
      -- `"$"` is resolved to the newest id: nothing is behind it
      rw [ahead_none (hpos.trans hc), hhand]
      show Log.decoded (s.stream.after s.stream.lastId) = []
      rw [Log.after_lastId, Log.decoded_nil]
    | some c =>
      rw [ahead_eq (hpos.trans hc), hhand]
      rfl
  | count hpc =>
    obtain ⟨hhand, hpos⟩ := ahead_placing hpc
    exact .kept (fun _ => by simp) (ahead_congr rfl hhand.symm hpos.symm) rfl
  | @place x todo newest hpc =>
    obtain ⟨hhand, hpos⟩ := ahead_placing hpc
    refine .placed ?_ rfl
    obtain ⟨p, hp⟩ := Option.isSome_iff_exists.mp (hwf.placing false _ _ hpc)
    rw [ahead_eq hp, hhand]
    rw [hpos, ← position_place] at hp
    rw [ahead_eq (s := { s with
      pc := .placing true todo (some x.1), delivered := s.delivered ++ [x] }) hp]
    rfl
  | finish hpc =>
    obtain ⟨hhand, hpos⟩ := ahead_placing hpc
    exact .kept (fun _ => by simp) (ahead_congr rfl hhand.symm hpos.symm) rfl
  | @empty ok last start hpc =>
    obtain ⟨hhand, hpos⟩ := ahead_reading hpc
    obtain ⟨hlast, hstart⟩ := hwf.reading last start hpc
    rcases Option.eq_none_or_eq_some s.cursor with hc | ⟨c, hc⟩
    · refine .dropped (by rw [hpc, hlast, hc]) ?_ rfl
      exact ahead_none hc
    · refine .kept (fun _ => by simp) (ahead_congr rfl hhand.symm ?_) rfl
      rw [hpos, hstart c hc]
      exact hc
  | @batch last start hpc hbatch =>
    obtain ⟨hhand, hpos⟩ := ahead_reading hpc
    obtain ⟨n, hn, _, hsplit⟩ := position_batch last hbatch
    refine .kept (fun _ => by simp) ?_ rfl
    rw [ahead_eq hpos, hhand, List.nil_append, hsplit]
    exact ahead_eq hn

/-- The step leaves the stream alone, and moves the cursor only at the end of a
batch, to the position. -/
theorem threadStep_frame {s s' : Ingest} {e : IngestStep} {call : PoolCall}
    (h : s.threadStep e = some (s', call)) :
    s'.stream = s.stream ∧ (s'.cursor = s.cursor ∨
      (∃ newest, s.pc = .placing false [] newest ∧ s'.pc = .idle ∧ s'.cursor = newest)) := by
  cases threadStep_move h with
  | finish hpc => exact ⟨rfl, .inr ⟨_, hpc, rfl, rfl⟩⟩
  | read | count | place | empty | batch => exact ⟨rfl, .inl rfl⟩

/-- **Step**: the local variables still agree with the cursor. -/
theorem threadStep_local {s s' : Ingest} {e : IngestStep} {call : PoolCall} (hwf : s.Wf)
    (h : s.threadStep e = some (s', call)) : s'.Local := by
  -- a step that moves no position and no cursor
  have hmove : ∀ {due due' : Bool} {todo todo' : List (Nat × IngestEvent)} {newest newest' : Cursor}
      (delivered' : List (Nat × IngestEvent)), s.pc = .placing due todo newest →
      (todo'.getLast?.map Prod.fst).or newest' = s.position →
      Local { s with pc := .placing due' todo' newest', delivered := delivered' } := by
    intro due due' todo todo' newest newest' delivered' hpc hsame
    refine ⟨fun p hp => hwf.position_le p (hsame.symm.trans hp), fun c hc => ?_, nofun, ?_⟩
    · obtain ⟨p, hp, hle⟩ := hwf.cursor_le c hc
      exact ⟨p, hsame.trans hp, hle⟩
    · intro _ _ _ _
      show ((todo'.getLast?.map Prod.fst).or newest').isSome
      rw [hsame]
      exact hwf.placing due todo newest hpc
  cases threadStep_move h with
  | read hpc =>
    have hpos := (ahead_idle hpc).2
    have hle : s.cursor.getD s.stream.lastId ≤ s.stream.lastId := by
      rcases Option.eq_none_or_eq_some s.cursor with hc | ⟨c, hc⟩
      · rw [hc]
        exact Nat.le_refl _
      · rw [hc]
        exact hwf.position_le c (hpos.trans hc)
    refine ⟨fun p hp => ?_, fun c hc => ⟨c, ?_, Nat.le_refl c⟩, ?_, nofun⟩
    · rw [← Option.some.inj hp]
      exact hle
    · show some (s.cursor.getD _) = some c
      rw [show s.cursor = some c from hc]
      rfl
    · intro last start hread
      simp only [IngestPc.reading.injEq] at hread
      refine ⟨hread.1.symm, fun c hc => ?_⟩
      rw [← hread.2, show s.cursor = some c from hc]
      rfl
  | count hpc => exact hmove s.delivered hpc (ahead_placing hpc).2.symm
  | @place x todo newest hpc =>
    exact hmove _ hpc ((position_place x todo newest).trans (ahead_placing hpc).2.symm)
  | finish hpc =>
    exact ⟨fun p hp => hwf.position_le p ((ahead_placing hpc).2.trans hp),
      fun c hc => ⟨c, hc, Nat.le_refl c⟩, nofun, nofun⟩
  | @empty ok last start hpc =>
    have hpos := (ahead_reading hpc).2
    obtain ⟨hlast, hstart⟩ := hwf.reading last start hpc
    refine ⟨fun p hp => ?_, fun c hc => ⟨c, hc, Nat.le_refl c⟩, nofun, nofun⟩
    rw [hstart p hp] at hpos
    exact hwf.position_le p hpos
  | @batch last start hpc hbatch =>
    obtain ⟨hhand, hpos⟩ := ahead_reading hpc
    -- the position moves forward to the last event of the batch
    obtain ⟨n, hn, ⟨x, hx, hxn⟩, _⟩ := position_batch last hbatch
    have hmem : x ∈ s.ahead := by
      rw [ahead_eq hpos]
      exact List.mem_append_right _ hx
    refine ⟨fun p hp => ?_, fun c hc => ⟨n, hn, ?_⟩, nofun, ?_⟩
    · rw [show p = n from Option.some.inj (hp.symm.trans hn), ← hxn]
      exact hwf.ahead_le x hmem
    · rw [← hxn]
      exact Nat.le_of_lt (hwf.ahead_gt c hc x hmem)
    · intro _ _ _ _
      exact Option.isSome_iff_exists.mpr ⟨n, hn⟩

/-- Whatever the thread does, it has no more ahead than before. -/
theorem Advance.suffix {s s' : Ingest} {call : PoolCall} (h : Advance s s' call) :
    s'.ahead <:+ s.ahead := by
  cases h with
  | kept _ ha _ => exact ⟨[], ha⟩
  | placed ha _ =>
    rw [ha]
    exact List.suffix_cons _ _
  | dropped _ ha _ =>
    rw [ha]
    exact List.nil_suffix

/-- **Step**: the invariant of the thread. -/
theorem threadStep_wf {s s' : Ingest} {e : IngestStep} {call : PoolCall} (hwf : s.Wf)
    (h : s.threadStep e = some (s', call)) : s'.Wf := by
  have hsub := (threadStep_advance hwf h).suffix
  obtain ⟨hstream, hcursor⟩ := threadStep_frame h
  refine ⟨threadStep_local hwf h, fun c hc x hx => ?_, fun x hx => ?_, ?_⟩
  · rcases hcursor with hsame | ⟨newest, _, hidle, hnew⟩
    · exact hwf.ahead_gt c (hsame.symm.trans hc) x (hsub.subset hx)
    · -- at the end of a batch everything ahead is behind the new cursor
      have hpos := (ahead_idle hidle).2.trans hc
      rw [ahead_eq hpos, (ahead_idle hidle).1, List.nil_append] at hx
      exact (s'.stream.lt_of_mem_after (Log.mem_decoded.mp hx)).1
  · rw [hstream]
    exact hwf.ahead_le x (hsub.subset hx)
  · exact hwf.sorted.sublist (hsub.sublist.map _)

/-- The thread only ever moves forward; `"$"` takes it to the newest entry. -/
theorem threadStep_position {s s' : Ingest} {e : IngestStep} {call : PoolCall} (hwf : s.Wf)
    (h : s.threadStep e = some (s', call)) {p' : Nat} (hp' : s'.position = some p') :
    (∃ p, s.position = some p ∧ p ≤ p') ∨ p' = s.stream.lastId := by
  have hsame : s'.position = s.position → ∃ p, s.position = some p ∧ p ≤ p' := by
    intro heq
    exact ⟨p', heq.symm.trans hp', Nat.le_refl _⟩
  cases threadStep_move h with
  | read hpc =>
    have hstart : s.cursor.getD s.stream.lastId = p' := Option.some.inj hp'
    cases hc : s.cursor with
    | none =>
      rw [hc] at hstart
      exact .inr hstart.symm
    | some c =>
      rw [hc] at hstart
      exact .inl ⟨c, (ahead_idle hpc).2.trans hc, Nat.le_of_eq hstart⟩
  | count hpc => exact .inl (hsame (ahead_placing hpc).2.symm)
  | @place x todo newest hpc =>
    exact .inl (hsame ((position_place x todo newest).trans (ahead_placing hpc).2.symm))
  | finish hpc => exact .inl (hsame (ahead_placing hpc).2.symm)
  | @empty ok last start hpc =>
    -- without an event the thread is back at its cursor, where it started
    exact .inl ⟨start, (ahead_reading hpc).2, Nat.le_of_eq ((hwf.reading last start hpc).2 p' hp')⟩
  | @batch last start hpc hbatch =>
    obtain ⟨n, hn, ⟨x, hx, hxn⟩, _⟩ := position_batch last hbatch
    have hlt := (s.stream.lt_of_mem_after (Log.mem_decoded.mp hx)).1
    have hend : n = p' := Option.some.inj (hn.symm.trans hp')
    exact .inl ⟨start, (ahead_reading hpc).2, by omega⟩

/-! ## Steps of others on the stream -/

/-- An appended event is ahead of the thread, unless the thread is between two
`"$"` reads. -/
theorem xadd_ahead {s : Ingest} (hwf : s.Wf) (payload : Option IngestEvent) :
    (s.xadd payload).ahead = s.ahead ++
      (if s.position.isSome then Log.decoded [(s.stream.lastId + 1, payload)] else []) := by
  rcases Option.eq_none_or_eq_some s.position with hp | ⟨p, hp⟩
  · rw [ahead_none (s := s.xadd payload) hp, ahead_none hp, hp]
    simp only [Option.isSome_none, Bool.false_eq_true, if_false, List.append_nil]
    rfl
  · rw [ahead_eq (s := s.xadd payload) hp, ahead_eq hp, hp]
    show s.inHand ++ Log.decoded ((s.stream.append payload).after p) = _
    rw [Log.after_append _ (hwf.position_le p hp), Log.decoded_append, List.append_assoc]
    rfl

theorem xadd_wf {s : Ingest} (hwf : s.Wf) (payload : Option IngestEvent) : (s.xadd payload).Wf := by
  have hlast : (s.xadd payload).stream.lastId = s.stream.lastId + 1 := Log.lastId_append _ _
  have hnew : ∀ x ∈
      (if s.position.isSome then Log.decoded [(s.stream.lastId + 1, payload)] else []),
      x.1 = s.stream.lastId + 1 := by
    intro x hx
    split at hx
    · have hmem := Log.mem_decoded.mp hx
      rw [List.mem_singleton, Prod.mk.injEq] at hmem
      exact hmem.1
    · cases hx
  refine ⟨⟨fun p hp => ?_, hwf.cursor_le, hwf.reading, hwf.placing⟩, fun c hc x hx => ?_,
    fun x hx => ?_, ?_⟩
  · rw [hlast]
    exact Nat.le_succ_of_le (hwf.position_le p hp)
  · rw [xadd_ahead hwf] at hx
    rcases List.mem_append.mp hx with hx | hx
    · exact hwf.ahead_gt c hc x hx
    · obtain ⟨p, hp, hle⟩ := hwf.cursor_le c hc
      have hplast := hwf.position_le p hp
      have hid := hnew x hx
      omega
  · rw [hlast]
    rw [xadd_ahead hwf] at hx
    rcases List.mem_append.mp hx with hx | hx
    · exact Nat.le_succ_of_le (hwf.ahead_le x hx)
    · exact Nat.le_of_eq (hnew x hx)
  · rw [xadd_ahead hwf, List.map_append, List.pairwise_append]
    refine ⟨hwf.sorted, ?_, ?_⟩
    · split
      · exact Log.decoded_sorted (List.pairwise_singleton _ _)
      · exact List.Pairwise.nil
    · intro i hi j hj
      obtain ⟨x, hx, rfl⟩ := List.mem_map.mp hi
      obtain ⟨y, hy, rfl⟩ := List.mem_map.mp hj
      have hle := hwf.ahead_le x hx
      rw [hnew y hy]
      omega

/-- `XTRIM`: the oldest entries go. -/
def trim (s : Ingest) (c : Nat) : Ingest := { s with stream := s.stream.trim c }

/-- A trim can only take events away. -/
theorem trim_ahead (s : Ingest) (c : Nat) : (s.trim c).ahead.Sublist s.ahead := by
  rcases Option.eq_none_or_eq_some s.position with hp | ⟨p, hp⟩
  · rw [ahead_none (s := s.trim c) hp, ahead_none hp]
    exact List.Sublist.refl _
  · rw [ahead_eq (s := s.trim c) hp, ahead_eq hp]
    exact List.Sublist.append_left ((s.stream.after_trim_sublist c).filterMap _) _

theorem trim_wf {s : Ingest} (hwf : s.Wf) (c : Nat) : (s.trim c).Wf where
  position_le := hwf.position_le
  cursor_le := hwf.cursor_le
  reading := hwf.reading
  placing := hwf.placing
  ahead_gt c' hc x hx := hwf.ahead_gt c' hc x ((s.trim_ahead c).subset hx)
  ahead_le x hx := hwf.ahead_le x ((s.trim_ahead c).subset hx)
  sorted := hwf.sorted.sublist ((s.trim_ahead c).map _)

end Ingest

end Supermatchmaker
