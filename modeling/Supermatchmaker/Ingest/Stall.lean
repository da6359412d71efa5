import Supermatchmaker.Ingest.Delivery

/-!
# Entries that do not decode

An entry that `parse_ingest_reply` rejects should cost nothing but itself: the loop
goes past it, places every decodable entry behind the starting cursor and then has
nothing left to read (`Drains`).

But the cursor is moved to the last *event* of a batch. A batch of which nothing
decodes is empty for the loop, which then reads the same hundred entries again, for
ever: everything behind them waits with them. So the loop gets through just if such a
batch never comes up (`drains_iff`): every hundred entries in a row, and the last
entries of the stream, have a decodable one among them.
-/

namespace Supermatchmaker

namespace Ingest

/-- Nobody appends, and a read returns empty-handed only if there is nothing to read. -/
def Answered (s : Ingest) : Change → Prop
  | .xadd _ => False
  | .thread .run => True
  | .thread (.reply ok) => ∀ last start, s.pc = .reading last start →
      (ok = true ↔ s.stream.after start ≠ [])

/-- A step of an iteration of the loop that has begun. -/
def Within (s : Ingest) (e : Change) : Prop := s.pc ≠ .idle ∧ Answered s e

/-- The loop gets to an empty reply with every decodable entry placed, and each
iteration that reads something moves the cursor. -/
def Drains (stream : Log (Option IngestEvent)) (cursor : Cursor) : Prop :=
  (∃ t last behind, Lts.Run step Answered (start stream cursor) t ∧
    t.pc = .reading last behind ∧ t.stream.after behind = [] ∧
    ∀ e ∈ Log.decoded (stream.after (cursor.getD stream.lastId)), e ∈ t.delivered) ∧
  ∀ s last behind, Lts.Run step Answered (start stream cursor) s →
    s.pc = .reading last behind → s.stream.after behind ≠ [] →
    ∃ t, Lts.Run step Within s t ∧ t.pc = .idle ∧ t.cursor ≠ s.cursor

/-! ## Where the loop stands -/

/-- The id behind which the loop goes on, where `"$"` is the end of the stream. -/
def standing (s : Ingest) : Nat := s.position.getD s.stream.lastId

/-- A read in progress started at the cursor, and nobody has appended since. -/
structure Settled (stream : Log (Option IngestEvent)) (s : Ingest) : Prop where
  stream_eq : s.stream = stream
  reading : ∀ last start, s.pc = .reading last start → start = s.cursor.getD stream.lastId

/-- What a step does to where the loop stands: nothing, or it moves to the last entry
of the window that decodes. -/
inductive Stride (s s' : Ingest) : Prop
  | stays (h : s'.standing = s.standing)
  | moves (ds : List (Nat × IngestEvent)) (d : Nat × IngestEvent)
      (hbatch : s.readBatch s.standing = ds ++ [d]) (h : s'.standing = d.1)

theorem standing_some {s : Ingest} {p : Nat} (h : s.position = some p) : s.standing = p := by
  unfold standing
  rw [h]
  rfl

theorem standing_congr {s s' : Ingest} (hs : s'.stream = s.stream)
    (hp : s'.position = s.position) : s'.standing = s.standing := by
  unfold standing
  rw [hp, hs]

/-- **Step** of the thread on a stream that no longer grows: it stays, or moves on by one
readable batch. -/
theorem threadStep_stride {stream : Log (Option IngestEvent)} {s s' : Ingest} {e : IngestStep}
    {call : PoolCall} (hs : Settled stream s) (h : s.threadStep e = some (s', call)) :
    Settled stream s' ∧ Stride s s' := by
  have hreading := hs.reading
  cases threadStep_move h with
  | read hpc =>
    refine ⟨⟨hs.stream_eq, fun last start hpc' => ?_⟩, .stays ?_⟩
    · rw [← ((IngestPc.reading.injEq ..).mp hpc').2, hs.stream_eq]
    · have hstart := standing_some (s := { s with
        pc := .reading s.cursor (s.cursor.getD s.stream.lastId)
        base := s.base.or (some (s.cursor.getD s.stream.lastId)) }) rfl
      rw [hstart]
      unfold standing
      rw [(ahead_idle hpc).2]
  | count hpc =>
    exact ⟨⟨hs.stream_eq, nofun⟩, .stays (standing_congr rfl (ahead_placing hpc).2.symm)⟩
  | @place x todo newest hpc =>
    exact ⟨⟨hs.stream_eq, nofun⟩, .stays (standing_congr rfl
      ((position_place x todo newest).trans (ahead_placing hpc).2.symm))⟩
  | finish hpc =>
    exact ⟨⟨hs.stream_eq, nofun⟩, .stays (standing_congr rfl (ahead_placing hpc).2.symm)⟩
  | @empty ok last start hpc hnone =>
    refine ⟨⟨hs.stream_eq, nofun⟩, .stays ?_⟩
    rw [standing_some (ahead_reading hpc).2, hreading last start hpc, ← hs.stream_eq]
    rfl
  | @batch last start hpc hbatch =>
    refine ⟨⟨hs.stream_eq, nofun⟩, ?_⟩
    obtain ⟨ds, d, hds⟩ := List.eq_nil_or_concat (s.readBatch start) |>.resolve_left hbatch
    rw [List.concat_eq_append] at hds
    refine .moves ds d (by rw [standing_some (ahead_reading hpc).2, hds]) (standing_some ?_)
    show ((s.readBatch start).getLast?.map Prod.fst).or last = some d.1
    rw [hds]
    simp

/-- **Step**, with reads that are answered. -/
theorem step_stride {stream : Log (Option IngestEvent)} {s s' : Ingest} {e : Change}
    (hs : Settled stream s) (hguard : Answered s e) (h : step s e = some s') :
    Settled stream s' ∧ Stride s s' := by
  cases e with
  | xadd payload => cases hguard
  | thread e =>
    obtain ⟨⟨_, call⟩, hstep, rfl⟩ := Option.map_eq_some_iff.mp h
    exact threadStep_stride hs hstep

theorem start_settled (stream : Log (Option IngestEvent)) (cursor : Cursor) :
    Settled stream (start stream cursor) :=
  ⟨rfl, nofun⟩

/-- **Run**: what holds where the loop starts, and is kept when it moves to the last
entry of a window that decodes, holds wherever the loop stands. -/
theorem run_standing {stream : Log (Option IngestEvent)} {cursor : Cursor} {s : Ingest}
    {P : Nat → Prop} (hstart : P (cursor.getD stream.lastId))
    (hmoves : ∀ {c ds d}, Log.decoded ((stream.after c).take 100) = ds ++ [d] → P c → P d.1)
    (h : Lts.Run step Answered (start stream cursor) s) : Settled stream s ∧ P s.standing := by
  refine h.inv (I := fun s => Settled stream s ∧ P s.standing)
    (fun ⟨hs, hP⟩ hguard hstep => ?_) ⟨start_settled stream cursor, hstart⟩
  obtain ⟨hs', hstride⟩ := step_stride hs hguard hstep
  refine ⟨hs', ?_⟩
  cases hstride with
  | stays heq =>
    rw [heq]
    exact hP
  | moves ds d hbatch heq =>
    unfold readBatch at hbatch
    rw [hs.stream_eq] at hbatch
    rw [heq]
    exact hmoves hbatch hP

/-- What is still unread is the end of what was unread at the start. -/
theorem run_suffix {stream : Log (Option IngestEvent)} {cursor : Cursor} {s : Ingest}
    (h : Lts.Run step Answered (start stream cursor) s) :
    Settled stream s ∧ stream.after s.standing <:+ stream.after (cursor.getD stream.lastId) := by
  refine run_standing (P := fun c => stream.after c <:+ stream.after (cursor.getD stream.lastId))
    (List.suffix_refl _) (fun {c ds d} hbatch hsuf => ?_) h
  obtain ⟨pre, hsplit, _⟩ := Log.after_take hbatch
  refine List.IsSuffix.trans ?_ hsuf
  rw [hsplit]
  exact (List.suffix_cons _ _).trans (List.suffix_append _ _)

/-- **Stalled**: the loop never gets past a window in which nothing decodes. -/
theorem run_stalled {stream : Log (Option IngestEvent)} {cursor : Cursor} {s : Ingest}
    {rest : List (Nat × Option IngestEvent)} (hrest : Log.decoded (rest.take 100) = [])
    (hsuf : rest <:+ stream.after (cursor.getD stream.lastId))
    (h : Lts.Run step Answered (start stream cursor) s) :
    Settled stream s ∧ rest <:+ stream.after s.standing :=
  run_standing (P := fun c => rest <:+ stream.after c) hsuf
    (fun hbatch hstay => Log.unreadable_stays hrest hstay hbatch) h

/-- A stream that is drained has an entry that decodes in each full batch on the way. -/
theorem readable_of_drains {stream : Log (Option IngestEvent)} {cursor : Cursor}
    (h : Drains stream cursor) :
    Log.Readable 100 (stream.after (cursor.getD stream.lastId)) := by
  intro rest hsuf hne hrest
  obtain ⟨⟨t, last, behind, hrun, hpc, hempty, _⟩, _⟩ := h
  obtain ⟨hs, hstay⟩ := run_stalled hrest hsuf hrun
  rw [standing_some (ahead_reading hpc).2, ← hs.stream_eq, hempty] at hstay
  exact hne (List.suffix_nil.mp hstay)

/-! ## Getting through -/

/-- The rest of an iteration: the batch is placed and the cursor set to its end. -/
theorem place_batch (todo : List (Nat × IngestEvent)) :
    ∀ {s : Ingest} {newest : Cursor}, s.pc = .placing false todo newest →
      ∃ t, Lts.Run step Within s t ∧ t.pc = .idle ∧ t.stream = s.stream ∧
        t.cursor = (todo.getLast?.map Prod.fst).or newest ∧
        t.delivered = s.delivered ++ todo := by
  induction todo with
  | nil =>
    intro s newest hpc
    have hstep : step s (.thread .run) = some { s with pc := .idle, cursor := newest } := by
      simp only [step, threadStep, hpc, Option.map_some]
    exact ⟨_, .single (e := .thread .run) ⟨by simp [hpc], trivial⟩ hstep, rfl, rfl, rfl,
      (List.append_nil _).symm⟩
  | cons x todo ih =>
    intro s newest hpc
    let placed : Ingest :=
      { s with pc := .placing true todo (some x.1), delivered := s.delivered ++ [x] }
    let counted : Ingest := { placed with pc := .placing false todo (some x.1) }
    have hplace : step s (.thread .run) = some placed := by
      simp only [step, threadStep, hpc, Option.map_some, placed]
    have hcount : step placed (.thread .run) = some counted := rfl
    obtain ⟨t, hrun, hidle, hstream, hcursor, hdel⟩ := ih (s := counted) rfl
    have htwo : Lts.Run step Within s counted :=
      .tail (e := .thread .run) (.single (e := .thread .run) ⟨by simp [hpc], trivial⟩ hplace)
        ⟨by simp [placed], trivial⟩ hcount
    refine ⟨t, htwo.trans hrun, hidle, hstream, ?_, ?_⟩
    · rw [hcursor, position_place]
    · rw [hdel]
      show s.delivered ++ [x] ++ todo = _
      rw [List.append_assoc, List.singleton_append]

/-- A read that returns an event moves the cursor to the last one it returns. -/
theorem read_moves {s : Ingest} {last : Cursor} {behind : Nat} (hpc : s.pc = .reading last behind)
    {ds : List (Nat × IngestEvent)} {d : Nat × IngestEvent}
    (hbatch : s.readBatch behind = ds ++ [d]) :
    ∃ t, Lts.Run step Within s t ∧ t.pc = .idle ∧ t.stream = s.stream ∧
      t.cursor = some d.1 ∧ t.delivered = s.delivered ++ (ds ++ [d]) := by
  have hne : s.readBatch behind ≠ [] := by rw [hbatch]; simp
  have hafter : s.stream.after behind ≠ [] := by
    intro hnil
    unfold readBatch at hne
    rw [hnil] at hne
    exact hne rfl
  let got : Ingest := { s with pc := .placing false (ds ++ [d]) last }
  have hreply : step s (.thread (.reply true)) = some got := by
    simp only [step, threadStep, hpc, if_true]
    rw [if_neg hafter, if_neg hne, hbatch]
    rfl
  have hguard : Within s (.thread (.reply true)) := by
    refine ⟨by simp [hpc], fun last' start' hpc' => ?_⟩
    rw [hpc] at hpc'
    rw [← ((IngestPc.reading.injEq ..).mp hpc').2]
    exact ⟨fun _ => hafter, fun _ => rfl⟩
  obtain ⟨t, hrun, hidle, hstream, hcursor, hdel⟩ := place_batch (ds ++ [d]) (s := got) rfl
  have hone : Lts.Run step Within s got := .single hguard hreply
  refine ⟨t, hone.trans hrun, hidle, hstream, ?_, hdel⟩
  rw [hcursor]
  simp

/-- **Termination**: from the top of the loop, over entries that can be got through, it
comes to an empty reply, with every event placed once and in order. -/
theorem drained {s : Ingest} (hidle : s.pc = .idle)
    (hread : Log.Readable 100 (s.stream.after s.standing)) :
    ∃ t last behind, Lts.Run step Answered s t ∧ t.pc = .reading last behind ∧
      t.stream.after behind = [] ∧
      t.delivered = s.delivered ++ Log.decoded (s.stream.after s.standing) := by
  -- by induction on how much is unread: each iteration reads the stream up to an event
  induction hn : (s.stream.after s.standing).length using Nat.strongRecOn generalizing s with
  | ind n ih =>
    let asked : Ingest := { s with
      pc := .reading s.cursor s.standing, base := s.base.or (some s.standing) }
    have hstart : s.cursor.getD s.stream.lastId = s.standing := by
      unfold standing
      rw [(ahead_idle hidle).2]
    have hask : Lts.Run step Answered s asked := by
      refine .single (e := .thread .run) trivial ?_
      simp only [step, threadStep, hidle, Option.map_some, hstart, asked]
    rcases List.eq_nil_or_concat (s.readBatch s.standing) with hnone | ⟨ds, d, hbatch⟩
    · have hnil : s.stream.after s.standing = [] := by
        by_contra hne
        exact hread _ (List.suffix_refl _) hne hnone
      refine ⟨asked, s.cursor, s.standing, hask, rfl, hnil, ?_⟩
      rw [hnil, Log.decoded_nil, List.append_nil]
    · rw [List.concat_eq_append] at hbatch
      obtain ⟨t, hrun, hidle', hstream, hcursor, hdel⟩ := read_moves (s := asked) rfl hbatch
      have hstand : t.standing = d.1 :=
        standing_some ((ahead_idle hidle').2.trans hcursor)
      obtain ⟨pre, hsplit, _⟩ := Log.after_take hbatch
      have hbehind : t.stream.after t.standing = s.stream.after d.1 := by rw [hstand, hstream]
      have hsuf : s.stream.after d.1 <:+ s.stream.after s.standing := by
        rw [hsplit]
        exact (List.suffix_cons _ _).trans (List.suffix_append _ _)
      have hlt : (t.stream.after t.standing).length < n := by
        rw [hbehind, ← hn, hsplit, List.length_append, List.length_cons]
        omega
      obtain ⟨u, last, behind, hrest, hpc, hnil, hdel'⟩ :=
        ih _ hlt hidle' (hbehind ▸ hread.suffix hsuf) rfl
      have hiter : Lts.Run step Answered s t := hask.trans (hrun.mono And.right)
      refine ⟨u, last, behind, hiter.trans hrest, hpc, hnil, ?_⟩
      have hdec : Log.decoded (s.stream.after s.standing) =
          ds ++ [d] ++ Log.decoded (s.stream.after d.1) := Log.decoded_after_take hbatch
      rw [hdel', hdel, hbehind, hdec]
      exact List.append_assoc ..

/-- And such a stream is drained. -/
theorem drains_of_readable {stream : Log (Option IngestEvent)} {cursor : Cursor}
    (h : Log.Readable 100 (stream.after (cursor.getD stream.lastId))) :
    Drains stream cursor := by
  refine ⟨?_, fun s last behind hrun hpc hne => ?_⟩
  · obtain ⟨t, last, behind, hrun, hpc, hnil, hdel⟩ := drained (s := start stream cursor) rfl h
    refine ⟨t, last, behind, hrun, hpc, hnil, fun e he => ?_⟩
    rw [hdel]
    exact List.mem_append_right _ he
  · obtain ⟨hs, hsuf⟩ := run_suffix hrun
    have hstand : s.standing = behind := standing_some (ahead_reading hpc).2
    have hread := h.suffix hsuf
    rw [hstand, ← hs.stream_eq] at hread
    obtain ⟨ds, d, hbatch⟩ :=
      List.eq_nil_or_concat (s.readBatch behind) |>.resolve_left (hread _ (List.suffix_refl _) hne)
    rw [List.concat_eq_append] at hbatch
    obtain ⟨t, hwithin, hidle, _, hcursor, _⟩ := read_moves hpc hbatch
    refine ⟨t, hwithin, hidle, fun hsame => ?_⟩
    -- the event is behind the cursor the read started from
    have hmem : d ∈ Log.decoded ((s.stream.after behind).take 100) := by
      show d ∈ s.readBatch behind
      rw [hbatch]
      exact List.mem_append_right _ List.mem_cons_self
    have hlt := (s.stream.lt_of_mem_after (List.mem_of_mem_take (Log.mem_decoded.mp hmem))).1
    rw [hs.reading last behind hpc, ← hsame, hcursor] at hlt
    exact Nat.lt_irrefl _ hlt

/-- **Getting through the stream**: just if, behind the starting cursor, no hundred
entries in a row fail to decode and the last entry decodes. -/
theorem drains_iff (stream : Log (Option IngestEvent)) (cursor : Cursor) :
    Drains stream cursor ↔ Log.Readable 100 (stream.after (cursor.getD stream.lastId)) :=
  ⟨readable_of_drains, drains_of_readable⟩

/-- A hundred entries that do not decode, and one that does. -/
def blockedStream : Log (Option IngestEvent) where
  entries := List.replicate 100 none ++ [some ⟨1, 1500⟩]
  trimmed := 0
  trimmed_le := Nat.zero_le _

/-- The event behind them is never placed. -/
theorem drains_fails :
    ¬ ∀ (stream : Log (Option IngestEvent)) (cursor : Cursor), Drains stream cursor := by
  intro hdrains
  exact readable_of_drains (hdrains blockedStream (some 0)) _ (List.suffix_refl _)
    (by decide +kernel) (by decide +kernel)

end Ingest

end Supermatchmaker
