import Supermatchmaker.Redis.Wire
import Supermatchmaker.Service.World

/-!
# What the service says to Redis

The model of the service keeps the two caches, the two streams and the consumer group in
fields of their own, and its threads read them as values. `World.traffic` lists what a
step has Redis execute; `step_stores` says that the fields move with it and with nothing
else.

`wire_faithful` goes down to the key space from there: whatever the service does in a
run, over any number of processes, every exchange is one with a single Redis that was
empty at first. No command is ever refused for what its key holds, every reply, decoded
as `queue.rs` decodes it, is what the thread in the model has read, and no other key
exists. Commands of a failed `commit_match` that Redis runs late are in neither level.
-/

namespace Supermatchmaker

open Redis Spec

variable {cfg : Config}

/-! ## The traffic of a step -/

/-- The fields that stand for what is in Redis. -/
def World.stores (s : World cfg) : Stores :=
  ⟨s.playerCache, s.status, s.ingest.stream, s.writer.stream, s.writer.group⟩

/-- `enter_queue`. -/
def World.callTraffic (s : World cfg) (c : Nat) (link : Link) : List Exchange :=
  match s.calls[c]? with
  | some ⟨user, .cache⟩ => if link = .up then [.cachedRating user (s.playerCache user)] else []
  | some ⟨user, .store rating⟩ => if link = .down then [] else [.cachePlayer user rating]
  | some ⟨user, .publish rating⟩ =>
    if link = .down then [] else [.pushIngest ⟨user, rating⟩ (s.ingest.stream.lastId + 1)]
  | some ⟨user, .queued _⟩ => if link = .down then [] else [.setStatus user .queued]
  | _ => []

/-- The ingestion thread. -/
def Ingest.traffic (s : Ingest) : IngestStep → List Exchange
  | .run =>
    match s.pc, s.cursor with
    | .idle, none => [.newestIngest s.stream.lastId]
    | _, _ => []
  | .reply ok =>
    match s.pc with
    | .reading _ start => if ok then [.readIngestAfter start (s.readBatch start)] else []
    | _ => []

/-- A command of `commit_match`. -/
def World.commitTraffic (s : World cfg) : Option (Formed Nat × Command Nat) → List Exchange
  | some (_, .setStatus user payload) => [.setStatus user payload]
  | some (_, .xaddSync f) => [.addSync f.result (s.writer.stream.lastId + 1)]
  | none => []

/-- The poller. -/
def Writer.traffic (s : Writer) : PollerStep → List Exchange
  | .ensure link => if link = .down then [] else [.ensureSyncGroup]
  | .read link =>
    match s.pc with
    | .recover =>
      if link = .up then [.readPending (Log.decoded ((s.group.map (·.redeliver 500)).getD []))]
      else []
    | _ =>
      if link = .down then []
      else [.readSyncBatch (Log.decoded ((s.group.map (·.undelivered s.stream 50)).getD []))]
  | .insert _ => []
  | .ack link =>
    match s.pc with
    | .ack batch => if link = .down then [] else [.ackSync (batch.map Prod.fst)]
    | _ => []

/-- What Redis executes in a step. -/
def World.traffic (s : World cfg) (e : WorldEvent cfg) (_ : World cfg) : List Exchange :=
  match e with
  | .call c link => s.callTraffic c link
  | .ingest e => s.ingest.traffic e
  | .worker w e => s.commitTraffic (effective e (s.mem.workers w).command)
  | .retry e => s.commitTraffic (effective e s.mem.retry.command)
  | .snapshot (.trimmed upTo) => [.trimIngest upTo]
  | .poller e => s.writer.traffic e
  | .expireStatus user => [.statusExpired user]
  | .expirePlayer user => [.playerExpired user]
  | _ => []

/-! ## The stores move with it -/

section Step

variable {s t : World cfg}

/-- **A call**: each of its steps is one exchange or none. -/
theorem callStep_stores {c : Nat} {link : Link} (h : s.callStep c link = some t) :
    Trace Stores.Step s.stores (s.callTraffic c link) t.stores := by
  unfold World.callStep at h
  unfold World.callTraffic
  split at h
  next user hcall =>
    simp only [hcall]
    have hsame : t.stores = s.stores := by
      split at h <;> simp only [Option.some.injEq] at h <;> subst h <;> rfl
    rw [hsame]
    split
    · exact .single ⟨rfl, rfl⟩
    · exact .nil
  next user hcall =>
    simp only [hcall]
    have hsame : t.stores = s.stores := by
      split at h <;> simp only [Option.some.injEq] at h <;> subst h <;> rfl
    rw [hsame]
    exact .nil
  next user rating hcall =>
    simp only [hcall]
    simp only [Option.some.injEq] at h
    subst h
    split
    · exact .nil
    · exact .single ⟨trivial, rfl⟩
  next user rating hcall =>
    simp only [hcall]
    split at h <;> simp only [Option.some.injEq] at h <;> subst h
    next hlink =>
      rw [if_pos hlink]
      exact .nil
    next hlink =>
      rw [if_neg hlink]
      exact .single ⟨rfl, rfl⟩
  next user origin hcall =>
    simp only [hcall]
    split at h <;> simp only [Option.some.injEq] at h <;> subst h
    next hlink =>
      rw [if_pos hlink]
      exact .nil
    next hlink =>
      rw [if_neg hlink]
      exact .single ⟨trivial, rfl⟩
  · cases h
  · cases h

/-- The thread reads, and leaves the stream as it is. -/
theorem Ingest.threadStep_traffic {s s' : Ingest} {e : IngestStep} {call : PoolCall}
    (h : s.threadStep e = some (s', call)) (x : Stores) (hx : x.ingest = s.stream) :
    s'.stream = s.stream ∧ Trace Stores.Step x (s.traffic e) x := by
  unfold Ingest.traffic
  cases threadStep_move h with
  | read hpc =>
    simp only [hpc]
    refine ⟨trivial, ?_⟩
    cases s.cursor with
    | none => exact .single ⟨by rw [Exchange.Answered, hx], rfl⟩
    | some c => exact .nil
  | count hpc | place hpc | finish hpc =>
    simp only [hpc]
    exact ⟨trivial, .nil⟩
  | empty hpc _ =>
    simp only [hpc]
    refine ⟨trivial, ?_⟩
    split
    · exact .single ⟨by rw [Exchange.Answered, hx]; rfl, rfl⟩
    · exact .nil
  | batch hpc _ =>
    simp only [hpc, if_pos]
    exact ⟨trivial, .single ⟨by rw [Exchange.Answered, hx]; rfl, rfl⟩⟩

/-- **A commit**: so is each of its commands. -/
theorem execute_stores (s : World cfg) (cmd : Option (Formed Nat × Command Nat)) :
    Trace Stores.Step s.stores (s.commitTraffic cmd) (s.execute cmd).stores := by
  match cmd with
  | none => exact .nil
  | some (_, .setStatus user payload) => exact .single ⟨trivial, rfl⟩
  | some (_, .xaddSync f) => exact .single ⟨rfl, rfl⟩

/-- What an acknowledgement says is in the thread's hand. -/
theorem traffic_ack {writer : Writer} {batch : List SyncEntry} (hpc : writer.pc = .ack batch)
    (link : Link) : writer.traffic (.ack link)
      = if link = .down then [] else [.ackSync (batch.map Prod.fst)] := by
  unfold Writer.traffic
  rw [hpc]

/-- **The poller**: each of its calls is one exchange or none. -/
theorem pollerStep_stores {writer : Writer} {e : PollerStep}
    (h : s.writer.pollerStep e = some writer) :
    Trace Stores.Step s.stores (s.writer.traffic e)
      ({ s with writer := writer } : World cfg).stores := by
  unfold Writer.pollerStep at h
  cases e with
  | ensure link =>
    unfold Writer.traffic
    simp only at h
    split at h <;> simp only [Option.some.injEq, reduceCtorEq] at h
    subst h
    by_cases hlink : link = .down
    · simp only [if_pos hlink]
      exact .nil
    · simp only [if_neg hlink]
      exact .single ⟨trivial, rfl⟩
  | read link =>
    unfold Writer.traffic
    simp only at h
    split at h <;> simp only [Option.some.injEq, reduceCtorEq] at h <;> subst h
    next hpc =>
      simp only [hpc]
      split
      · exact .single ⟨rfl, rfl⟩
      · exact .nil
    next hpc =>
      simp only [hpc]
      by_cases hlink : link = .down
      · subst hlink
        rw [if_pos rfl, Writer.deliver_down]
        exact .nil
      · rw [if_neg hlink, Writer.deliver_eq _ hlink]
        exact .single ⟨rfl, rfl⟩
  | insert pg =>
    simp only at h
    split at h
    · split at h <;> simp only [Option.some.injEq] at h <;> subst h <;> exact .nil
    · cases h
  | ack link =>
    simp only at h
    split at h <;> simp only [Option.some.injEq, reduceCtorEq] at h
    next batch hpc =>
      subst h
      rw [traffic_ack hpc]
      unfold ackSync
      by_cases hlink : link = .down
      · simp only [if_pos hlink]
        have hsame : s.writer.group.map (fun g => g) = s.writer.group := Option.map_id'
        rw [hsame]
        exact .nil
      · simp only [if_neg hlink]
        exact .single ⟨trivial, rfl⟩

/-- **Each step**: the stores move with the traffic, which reads what is in them. -/
theorem step_stores {e : WorldEvent cfg} (h : s.step e = some t) :
    Trace Stores.Step s.stores (s.traffic e t) t.stores := by
  cases e with
  | call c link => exact callStep_stores h
  | ingest e =>
    simp only [World.step, Option.map_eq_some_iff] at h
    obtain ⟨⟨ingest, call⟩, hstep, rfl⟩ := h
    obtain ⟨hstream, htrace⟩ := Ingest.threadStep_traffic hstep s.stores rfl
    have hsame : ({ s with ingest := ingest, mem := s.mem.apply call } : World cfg).stores
        = s.stores := by
      unfold World.stores
      rw [hstream]
    rw [hsame]
    exact htrace
  | worker w e =>
    simp only [World.step, Option.map_eq_some_iff] at h
    obtain ⟨mem, _, rfl⟩ := h
    exact execute_stores s _
  | retry e =>
    simp only [World.step, Option.map_eq_some_iff] at h
    obtain ⟨mem, _, rfl⟩ := h
    exact execute_stores s _
  | snapshot e =>
    have hsnap : World.snapStep s e = some t := h
    unfold World.snapStep at hsnap
    cases e with
    | run =>
      simp only at hsnap
      split at hsnap
      · simp only [Option.some.injEq] at hsnap
        subst hsnap
        exact .nil
      · split at hsnap <;> simp only [Option.some.injEq] at hsnap <;> subst hsnap <;> exact .nil
      · cases hsnap
    | written ok =>
      simp only at hsnap
      split at hsnap <;> simp only [Option.some.injEq, reduceCtorEq] at hsnap
      subst hsnap
      exact .nil
    | trimmed upTo =>
      simp only at hsnap
      split at hsnap <;> simp only [Option.some.injEq, reduceCtorEq] at hsnap
      subst hsnap
      exact .single ⟨trivial, rfl⟩
  | poller e =>
    simp only [World.step, Option.map_eq_some_iff] at h
    obtain ⟨writer, hstep, rfl⟩ := h
    exact pollerStep_stores hstep
  | expireStatus user | expirePlayer user =>
    simp only [World.step, Option.some.injEq] at h
    subst h
    exact .single ⟨trivial, rfl⟩
  | signup rating | request user | endMatch matchId pg | tick nanos | restart =>
    simp only [World.step, Option.some.injEq] at h
    subst h
    exact .nil

end Step

/-! ## The result -/

theorem init_backed (C : Codec) : Backed C (World.init cfg).stores fun _ => none where
  backs := {
    player := fun _ => rfl
    legible := fun _ _ h => by cases h
    status := fun _ => rfl
    ingest := ⟨.empty, .missing, rfl⟩
    sync := ⟨.empty, none, .missing, rfl, rfl⟩ }
  others _ _ := rfl

/-- **One Redis is enough for four stores.** Take any run of the service, over any number of
processes, and all that its threads have had Redis execute, in order, with what the model
says they have read. If `serde_json` reads back what was written, then a single Redis, empty
at first, serves all of it: no command meets a value of the wrong kind, each reply decodes to
what was read, and what is under the keys in the end is what the model keeps, under the keys
of the players, the statuses and the two streams and under no others. -/
theorem wire_faithful {C : Codec} {s : World cfg} {log : List Exchange}
    (h : Lts.Run (Lts.record World.step World.traffic) Lts.Free (World.init cfg, []) (s, log))
    (hlog : ∀ x ∈ log, x.Decodes C) :
    ∃ k, Trace (Serves C) (fun _ => none) log k ∧ Backed C s.stores k := by
  have hstores : Trace Stores.Step (World.init cfg).stores log s.stores := by
    refine Lts.Run.refines (P := Lts.Free) (I := fun _ => True) World.stores ?_ ?_
      (h.mono fun _ => trivial) trivial
    · exact fun _ _ _ => trivial
    · exact fun _ _ hs => step_stores hs
  exact hstores.simulates (R := Backed C) (P := fun x => x.Decodes C)
    (fun hx hstep hB => serves_step hx hstep hB) hlog (init_backed C)

/-- The match of the first ten players. -/
def firstMatch : MatchResult :=
  ⟨1, [(1, 1500), (2, 1500), (3, 1500), (4, 1500), (5, 1500)],
    [(6, 1500), (7, 1500), (8, 1500), (9, 1500), (10, 1500)], 0⟩

/-- The texts of `serde_json`; those of ten events and of one match are read back. -/
def tenCodec : Codec :=
  let readEvent (text : String) : Option IngestEvent :=
    ((List.range 10).map fun i => ⟨Int64.ofNat (i + 1), 1500⟩).find? fun ev =>
      sampleIngest.toText ev = text
  { event := ⟨sampleIngest.toText, readEvent⟩
    result := ⟨sampleSync.toText, fun text =>
      if text = sampleSync.toText firstMatch then some firstMatch else none⟩
    playerText := fun userId rating => sampleIngest.toText ⟨userId, rating⟩
    playerRating := fun text => (readEvent text).map (·.rating.toInt64)
    statusText := fun
      | .queued => "\x7b\"status\":\"queued\"\x7d"
      | .matched matchId teamA teamB => "\x7b\"match_id\":" ++ toString matchId.toNat ++
        ",\"status\":\"matched\",\"team_a\":[" ++
        ",".intercalate (teamA.map fun id => toString id.toInt) ++ "],\"team_b\":[" ++
        ",".intercalate (teamB.map fun id => toString id.toInt) ++ "]\x7d"
    idText := fun n => toString n ++ "-0" }

/-- Ten players queue, their match is formed, and the poller reads it. -/
def tenServed : List (WorldEvent Config.small) :=
  .poller (.ensure .up) :: tenArrive (fun i => Int64.ofNat (i + 1)) ++ formMatch ++ sendCommit ++
    [.poller (.read .up), .poller (.read .up)]

/-- Ten calls, a match, and the poller reads it. -/
theorem wire_faithful_ten :
    ∃ (s : World Config.small) (log : List Exchange) (k : Keyspace.Store String String Fields),
      .readSyncBatch [(1, firstMatch)] ∈ log ∧ Trace (Serves tenCodec) (fun _ => none) log k ∧
        Backed tenCodec s.stores k := by
  have hexec : (Lts.exec (Lts.record World.step World.traffic) (fun _ _ => true)
      (World.init Config.small, []) tenServed).any
      (fun x => .readSyncBatch [(1, firstMatch)] ∈ x.2 ∧ ∀ y ∈ x.2, y.Decodes tenCodec) = true := by
    decide +kernel
  obtain ⟨⟨s, log⟩, hrun, htest⟩ := Lts.exists_run_of_exec hexec
  obtain ⟨hread, hlog⟩ := of_decide_eq_true htest
  obtain ⟨k, htrace, hbacked⟩ := wire_faithful hrun.free hlog
  exact ⟨s, log, k, hread, htrace, hbacked⟩

end Supermatchmaker
