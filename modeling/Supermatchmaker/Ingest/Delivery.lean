import Supermatchmaker.Ingest.Loop
import Supermatchmaker.Lib.Lts

/-!
# Delivery of ingest events without gaps

"No message lost": what was appended since the first read of the loop is either
with the pool already, once and in stream order, or still ahead of the thread
(`Ingest.Gapless`, one equation between lists).

The cursor `"$"` breaks it. It is resolved anew by every `XREAD`, so an event
appended between two reads, or during a read that comes back empty-handed, is
behind the next one: `gapless_fails`. As soon as the cursor is concrete nothing
is lost any more, and before that nothing is lost as long as somebody is
listening (`Listening`): `gapless_of_listening`.
-/

namespace Supermatchmaker

namespace Ingest

/-- What can happen to the stream and to the thread. -/
inductive Change
  | xadd (payload : Option IngestEvent)
  | thread (e : IngestStep)
  deriving DecidableEq

/-- An event is appended, or the thread takes a step. -/
def step (s : Ingest) : Change → Option Ingest
  | .xadd payload => some (s.xadd payload)
  | .thread e => (s.threadStep e).map Prod.fst

/-- Every decodable event appended since the first read of the loop began, in
stream order: passed to `Pool::enqueue`, then those in hand, then those the next
read will return. -/
def Gapless (s : Ingest) : Prop :=
  ∀ b, s.base = some b → s.delivered ++ s.ahead = Log.decoded (s.stream.after b)

/-- Where the `"$"` read in progress started. -/
def tailRead (s : Ingest) : Option Nat :=
  match s.pc with
  | .reading none start => some start
  | _ => none

/-- While the cursor is `"$"`: no event is appended between two reads, and no
read comes back without an event when one was appended since it began. -/
def Listening (s : Ingest) : Change → Prop
  | .xadd payload => payload.isSome → s.base.isSome → s.cursor = none → s.pc ≠ .idle
  | .thread .run => True
  | .thread (.reply ok) => ∀ start ∈ s.tailRead,
      ok = false ∨ s.readBatch start = [] → Log.decoded (s.stream.after start) = []

instance (s : Ingest) (e : Change) : Decidable (Listening s e) :=
  match e with
  | .xadd _ => by unfold Listening; infer_instance
  | .thread .run => .isTrue trivial
  | .thread (.reply _) => by unfold Listening; infer_instance

/-- The invariant: before the first read the thread has done nothing; from then
on nothing is missing. -/
structure Tracked (s : Ingest) : Prop where
  wf : s.Wf
  base_le : ∀ b, s.base = some b → b ≤ s.stream.lastId
  fresh : s.base = none → s.pc = .idle ∧ s.cursor = none ∧ s.delivered = []
  gapless : s.Gapless

theorem start_tracked (stream : Log (Option IngestEvent)) : (start stream none).Tracked where
  wf := start_wf stream nofun
  base_le := nofun
  fresh _ := ⟨rfl, rfl, rfl⟩
  gapless := nofun

/-- An append is ahead of a thread that is listening. -/
theorem xadd_tracked {s : Ingest} {payload : Option IngestEvent} (ht : s.Tracked)
    (hl : Listening s (.xadd payload)) : (s.xadd payload).Tracked := by
  have hlast : (s.xadd payload).stream.lastId = s.stream.lastId + 1 := Log.lastId_append _ _
  refine ⟨xadd_wf ht.wf payload, fun b hb => ?_, ht.fresh, ?_⟩
  · rw [hlast]
    exact Nat.le_succ_of_le (ht.base_le b hb)
  · intro b hb
    have happ : Log.decoded ((s.stream.append payload).after b)
        = Log.decoded (s.stream.after b) ++ Log.decoded [(s.stream.lastId + 1, payload)] := by
      rw [Log.after_append _ (ht.base_le b hb), Log.decoded_append]
    show s.delivered ++ (s.xadd payload).ahead = Log.decoded ((s.stream.append payload).after b)
    rw [xadd_ahead ht.wf, ← List.append_assoc, ht.gapless b hb, happ]
    congr 1
    split
    · rfl
    next hpos =>
      -- nobody is listening: the guard says that the payload does not decode
      have hcur : s.cursor = none := by
        rcases Option.eq_none_or_eq_some s.cursor with hc | ⟨c, hc⟩
        · exact hc
        · obtain ⟨p, hp, _⟩ := ht.wf.cursor_le c hc
          rw [hp] at hpos
          exact absurd rfl hpos
      have hidle : s.pc = .idle := by
        cases hpc : s.pc with
        | idle => rfl
        | reading last start =>
          rw [(ahead_reading hpc).2] at hpos
          exact absurd rfl hpos
        | placing due todo newest => exact absurd (ht.wf.placing _ _ _ hpc) hpos
      cases payload with
      | none => rfl
      | some ev =>
        have hbase : s.base.isSome := Option.isSome_iff_exists.mpr ⟨b, hb⟩
        exact absurd hidle (hl rfl hbase hcur)

/-- The first read of the loop sets the base, no other step changes it. -/
theorem threadStep_base {s s' : Ingest} {e : IngestStep} {call : PoolCall}
    (h : s.threadStep e = some (s', call)) :
    s'.base = s.base ∨
      (s.base = none ∧ s'.delivered = s.delivered ∧
        ∃ last start, s'.pc = .reading last start ∧ s'.base = some start) := by
  cases threadStep_move h with
  | read hpc =>
    rcases Option.eq_none_or_eq_some s.base with hb | ⟨b, hb⟩
    · right
      refine ⟨hb, rfl, _, _, rfl, ?_⟩
      show s.base.or _ = _
      rw [hb]
      rfl
    · left
      show s.base.or _ = s.base
      rw [hb]
      rfl
  | count | place | finish | empty | batch => exact .inl rfl

/-- The drop of `Advance.dropped` is what the guard rules out. -/
theorem dropped_of_listening {s s' : Ingest} {e : IngestStep} {start : Nat}
    (h : s.threadStep e = some (s', .none)) (hl : Listening s (.thread e))
    (hpc : s.pc = .reading none start) (ha : s'.ahead = []) :
    Log.decoded (s.stream.after start) = [] := by
  have htail : start ∈ s.tailRead := by
    unfold tailRead
    rw [hpc]
    rfl
  have hsame : ∀ {last : Cursor} {start' : Nat}, s.pc = .reading last start' → start' = start := by
    intro last start' hpc'
    rw [hpc] at hpc'
    exact ((IngestPc.reading.injEq ..).mp hpc').2.symm
  cases threadStep_move h with
  | read hpc' | finish hpc' =>
    rw [hpc] at hpc'
    cases hpc'
  | empty hpc' hnone =>
    obtain rfl := hsame hpc'
    exact hl _ htail hnone
  | batch hpc' hbatch =>
    -- the batch is in hand, so something is ahead
    exact absurd (List.append_eq_nil_iff.mp ha).1 hbatch

/-- **Step** of the thread: what it reads continues what it has delivered, unless it asks for
`$`. -/
theorem threadStep_tracked {s s' : Ingest} {e : IngestStep} {call : PoolCall} (ht : s.Tracked)
    (hl : Listening s (.thread e)) (h : s.threadStep e = some (s', call)) : s'.Tracked := by
  have hwf' := threadStep_wf ht.wf h
  have hstream := (threadStep_frame h).1
  have hadv := threadStep_advance ht.wf h
  rcases threadStep_base h with hbase | ⟨hnone, hdel, last, first, hpc, hbase⟩
  · have hsplit : s'.delivered ++ s'.ahead = s.delivered ++ s.ahead := by
      cases hadv with
      | kept _ ha hd => rw [ha, hd]
      | placed ha hd => rw [ha, hd, List.append_assoc, List.singleton_append]
      | dropped hpc ha hd =>
        rw [ha, hd, ahead_eq (ahead_reading hpc).2, (ahead_reading hpc).1,
          dropped_of_listening h hl hpc ha, List.nil_append]
    refine ⟨hwf', fun b hb => ?_, fun hb => ?_, fun b hb => ?_⟩
    · rw [hstream]
      exact ht.base_le b (hbase.symm.trans hb)
    · -- a thread that has not read yet can only begin to
      rw [hbase] at hb
      obtain ⟨hidle, _, _⟩ := ht.fresh hb
      cases threadStep_move h with
      | read _ =>
        rw [hb] at hbase
        cases hbase
      | count hpc | place hpc | finish hpc | empty hpc _ | batch hpc _ =>
        rw [hidle] at hpc
        cases hpc
    · rw [hsplit, hstream]
      exact ht.gapless b (hbase.symm.trans hb)
  · obtain ⟨hidle, hcur, hfresh⟩ := ht.fresh hnone
    have hahead : s.ahead = [] := by
      rw [ahead_none ((ahead_idle hidle).2.trans hcur), (ahead_idle hidle).1]
    have hpos := (ahead_reading hpc).2
    have hnil : s'.ahead = [] := List.suffix_nil.mp (hahead ▸ hadv.suffix)
    refine ⟨hwf', fun b hb => ?_, fun hb => ?_, fun b hb => ?_⟩
    · rw [hbase, Option.some.injEq] at hb
      rw [← hb]
      exact hwf'.position_le first hpos
    · rw [hbase] at hb
      cases hb
    · rw [hbase, Option.some.injEq] at hb
      rw [hdel, hfresh, List.nil_append, ahead_eq hpos, (ahead_reading hpc).1, List.nil_append, hb]

/-- **Delivery without gaps**: in every run in which somebody is listening while
the cursor is `"$"`, over any stream the loop is started on. -/
theorem gapless_of_listening {stream : Log (Option IngestEvent)} {s : Ingest}
    (h : Lts.Run step Listening (start stream none) s) : s.Gapless := by
  have htracked : s.Tracked := by
    refine h.inv (fun {a e b} ht hl hs => ?_) (start_tracked stream)
    cases e with
    | xadd payload =>
      simp only [step, Option.some.injEq] at hs
      subst hs
      exact xadd_tracked ht hl
    | thread e =>
      simp only [step, Option.map_eq_some_iff] at hs
      obtain ⟨⟨b', call⟩, hstep, rfl⟩ := hs
      exact threadStep_tracked ht hl hstep
  exact htracked.gapless

/-- One event arrives during the first read, another one once the cursor is
concrete; the thread has placed the first. -/
theorem gapless_of_listening_two :
    ∃ s, s.delivered.length = 1 ∧ s.ahead.length = 1 ∧ Gapless s := by
  have hexec : (Lts.exec step (fun s e => Listening s e) (start Log.empty none)
      [.thread .run, .xadd (some ⟨1, 1500⟩), .thread (.reply true), .thread .run, .thread .run,
        .thread .run, .xadd (some ⟨2, 1500⟩)]).any
      (fun s => s.delivered.length = 1 ∧ s.ahead.length = 1) = true := by decide
  obtain ⟨s, hrun, hlen⟩ := Lts.exists_run_of_exec hexec
  obtain ⟨hdel, hahead⟩ := of_decide_eq_true hlen
  exact ⟨s, hdel, hahead, gapless_of_listening (hrun.mono of_decide_eq_true)⟩

/-- Two `"$"` reads time out and an event is appended between them: it was
appended after the first read began, and no read will ever return it. -/
theorem gapless_fails :
    ¬ ∀ (stream : Log (Option IngestEvent)) (s : Ingest),
      Lts.Run step Lts.Free (start stream none) s → s.Gapless := by
  intro hclaim
  have hexec : (Lts.exec step (fun _ _ => true) (start Log.empty none)
      [.thread .run, .thread (.reply false), .xadd (some ⟨1, 1500⟩), .thread .run]).any
      (fun s => s.base = some 0 ∧ s.delivered ++ s.ahead = [] ∧
        Log.decoded (s.stream.after 0) ≠ []) = true := by decide
  obtain ⟨s, hrun, hlost⟩ := Lts.exists_run_of_exec hexec
  obtain ⟨hbase, hnone, hsome⟩ := of_decide_eq_true hlost
  have hgap := hclaim Log.empty s hrun.free 0 hbase
  rw [hnone] at hgap
  exact hsome hgap.symm

end Ingest

end Supermatchmaker
