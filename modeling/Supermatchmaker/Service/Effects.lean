import Supermatchmaker.Matcher.Formation
import Supermatchmaker.Service.World

/-!
# What a step of the service does to its core

`Effect` is the inversion of `World.step` as far as the core (pool memory, ingest
stream, snapshots) is concerned: most events leave it alone, and each of the
others changes it in one way. Every invariant of the core is derived from it.

`Sound` is the part of these invariants that all results share: the process
invariants of the matcher, the invariant of the ingestion thread, and the fact
that nothing anywhere refers to an ingest id that was not handed out yet.
-/

namespace Supermatchmaker

variable {cfg : Config}

/-! ## What the calls, the snapshotter and the commits do -/

/-- The two worlds differ in the calls and the player cache at most. -/
structure World.Beside (s t : World cfg) : Prop where
  core : t.toCore = s.toCore
  status : t.status = s.status
  statusLog : t.statusLog = s.statusLog
  writer : t.writer = s.writer

/-- What a step of call `c` does to all but the calls and the player cache: nothing,
or one `XADD`, or one `SET`. -/
inductive CallMove (s : World cfg) (c : Nat) (link : Link) (t : World cfg) : Prop
  | silent (h : s.Beside t)
  | publish {user : Int64} {rating : Int32} (hcall : s.calls[c]? = some ⟨user, .publish rating⟩)
      (hlink : link ≠ .down)
      (h : ({ s with ingest := s.ingest.xadd (some ⟨user, rating⟩) } : World cfg).Beside t)
  | queued {user : Int64} {origin : Nat} (hcall : s.calls[c]? = some ⟨user, .queued origin⟩)
      (hlink : link ≠ .down) (h : (s.setStatus user (some .queued) (.queued user origin)).Beside t)

/-- Every step of a call is one of these moves. -/
theorem callStep_move {s t : World cfg} {c : Nat} {link : Link} (h : s.callStep c link = some t) :
    CallMove s c link t := by
  unfold World.callStep at h
  split at h
  · split at h <;> simp only [Option.some.injEq] at h <;> subst h <;>
      exact .silent ⟨rfl, rfl, rfl, rfl⟩
  · split at h <;> simp only [Option.some.injEq] at h <;> subst h <;>
      exact .silent ⟨rfl, rfl, rfl, rfl⟩
  · simp only [Option.some.injEq] at h
    subst h
    exact .silent ⟨rfl, rfl, rfl, rfl⟩
  next user rating hcall =>
    split at h <;> simp only [Option.some.injEq] at h <;> subst h
    · exact .silent ⟨rfl, rfl, rfl, rfl⟩
    next hlink => exact .publish hcall hlink ⟨rfl, rfl, rfl, rfl⟩
  next user origin hcall =>
    split at h <;> simp only [Option.some.injEq] at h <;> subst h
    · exact .silent ⟨rfl, rfl, rfl, rfl⟩
    next hlink => exact .queued hcall hlink ⟨rfl, rfl, rfl, rfl⟩
  · cases h
  · cases h

theorem CallMove.writer {s t : World cfg} {c : Nat} {link : Link} (h : CallMove s c link t) :
    t.writer = s.writer := by
  cases h with
  | silent h => exact h.writer
  | publish _ _ h => exact h.writer
  | queued _ _ h => exact h.writer

/-- The snapshotter writes nothing but its own state, the stream and the disk. -/
theorem snapStep_frame {s t : World cfg} {e : SnapStep} (h : s.snapStep e = some t) :
    t.status = s.status ∧ t.statusLog = s.statusLog ∧ t.writer = s.writer := by
  unfold World.snapStep at h
  split at h
  · split at h
    · simp only [Option.some.injEq] at h
      subst h
      exact ⟨rfl, rfl, rfl⟩
    · split at h <;> simp only [Option.some.injEq] at h <;> subst h <;> exact ⟨rfl, rfl, rfl⟩
    · cases h
  · split at h <;> simp only [Option.some.injEq, reduceCtorEq] at h
    subst h
    exact ⟨rfl, rfl, rfl⟩
  · split at h <;> simp only [Option.some.injEq, reduceCtorEq] at h
    subst h
    exact ⟨rfl, rfl, rfl⟩

/-- A match thread only sends commands of a match that was formed. -/
theorem worker_command {m : Matcher cfg Nat} (hF : Founded m) {w : Fin cfg.numWorkers}
    {e : WorkerEvent} {f : Formed Nat} {c : Command Nat}
    (h : World.effective e (m.workers w).command = some (f, c)) :
    f ∈ m.formed ∧ c ∈ commitMatch f := by
  have hcarried := hF.carried w
  unfold World.effective at h
  split at h
  · unfold Pc.command at h
    split at h
    next f' attempt c' todo clean hpc =>
      rw [Option.some.injEq, Prod.mk.injEq] at h
      obtain ⟨rfl, rfl⟩ := h
      obtain ⟨hf, hsub⟩ := hcarried f' (c' :: todo) (by rw [hpc]; rfl)
      exact ⟨hf, hsub List.mem_cons_self⟩
    next => cases h
  · cases h

/-- The retry thread sends commands of a formed match. -/
theorem retry_command {m : Matcher cfg Nat} (hF : Founded m) {e : WorkerEvent} {f : Formed Nat}
    {c : Command Nat} (h : World.effective e m.retry.command = some (f, c)) :
    f ∈ m.formed ∧ c ∈ commitMatch f := by
  have hcarried := hF.retrying
  unfold World.effective at h
  split at h
  · unfold RetryPc.command at h
    split at h
    next p c' todo clean hpc =>
      rw [Option.some.injEq, Prod.mk.injEq] at h
      obtain ⟨rfl, rfl⟩ := h
      obtain ⟨hf, hsub⟩ := hcarried p.result (c' :: todo) (by rw [hpc]; rfl)
      exact ⟨hf, hsub List.mem_cons_self⟩
    next => cases h
  · cases h

/-- What a command of a commit does, for a match `f` that was formed. -/
inductive Executed (s t : World cfg) : Prop
  | nothing (h : t = s)
  | matched {f : Formed Nat} {user : Int64} (hf : f ∈ s.mem.formed) (hu : user ∈ f.result.users)
      (h : t = s.setStatus user (some f.payload) (.matched user f))
  | published {f : Formed Nat} (hf : f ∈ s.mem.formed)
      (h : t = { s with
        writer := { s.writer with stream := s.writer.stream.append (some f.result) }
        published := s.published ++ [f] })

/-- What `execute` does with a command. -/
theorem execute_executed {s : World cfg} {cmd : Option (Formed Nat × Command Nat)}
    (hcmd : ∀ f c, cmd = some (f, c) → f ∈ s.mem.formed ∧ c ∈ commitMatch f) :
    Executed s (s.execute cmd) := by
  match cmd with
  | none => exact .nothing rfl
  | some (f, .setStatus user payload) =>
    obtain ⟨hf, hc⟩ := hcmd f (.setStatus user payload) rfl
    rcases mem_commitMatch.mp hc with ⟨u, hu, heq⟩ | heq
    · rw [Command.setStatus.injEq] at heq
      obtain ⟨rfl, rfl⟩ := heq
      exact .matched hf hu rfl
    · cases heq
  | some (f, .xaddSync g) =>
    obtain ⟨hf, hc⟩ := hcmd f (.xaddSync g) rfl
    rcases mem_commitMatch.mp hc with ⟨u, _, heq⟩ | heq
    · cases heq
    · rw [Command.xaddSync.injEq] at heq
      rw [← heq] at hf
      exact .published hf rfl

/-! ## Inversion for the core -/

/-- The events that are a step of a match thread, of the retry thread or of the
clock. -/
inductive Drives : WorldEvent cfg → MatcherEvent cfg Nat → Prop
  | worker (w : Fin cfg.numWorkers) (e : WorkerEvent) : Drives (.worker w e) (.worker w e)
  | retry (e : WorkerEvent) : Drives (.retry e) (.retry e)
  | tick (nanos : Nat) : Drives (.tick nanos) (.tick nanos)

theorem Drives.ne_enqueue {e : WorldEvent cfg} {me : MatcherEvent cfg Nat} (h : Drives e me)
    (id : Int64) (rating : UInt32) (origin : Nat) : me ≠ .enqueue id rating origin := by
  cases h <;> exact fun heq => by cases heq

theorem Drives.ne_restart {e : WorldEvent cfg} {me : MatcherEvent cfg Nat} (h : Drives e me) :
    e ≠ .restart := by
  cases h <;> exact fun heq => by cases heq

theorem Drives.ne_snapshot {e : WorldEvent cfg} {me : MatcherEvent cfg Nat} (h : Drives e me)
    (se : SnapStep) : e ≠ .snapshot se := by
  cases h <;> exact fun heq => by cases heq

/-- What an event can do to the core, with the state it needs to be able to. -/
inductive Effect (s : World cfg) : WorldEvent cfg → Core cfg → Prop
  | quiet {e : WorldEvent cfg} : Effect s e s.toCore
  | xadd {c : Nat} {link : Link} {user : Int64} {rating : Int32}
      (hcall : s.calls[c]? = some ⟨user, .publish rating⟩) (hlink : link ≠ .down) :
      Effect s (.call c link) { s.toCore with ingest := s.ingest.xadd (some ⟨user, rating⟩) }
  | ingest {e : IngestStep} {ingest : Ingest} {call : PoolCall}
      (h : s.ingest.threadStep e = some (ingest, call)) :
      Effect s (.ingest e) { s.toCore with ingest := ingest, mem := s.mem.apply call }
  | process {e : WorldEvent cfg} {me : MatcherEvent cfg Nat} {mem : Matcher cfg Nat}
      (hd : Drives e me) (h : s.mem.step me = some mem) : Effect s e { s.toCore with mem := mem }
  | publish {e : WorldEvent cfg} {me : MatcherEvent cfg Nat} {mem : Matcher cfg Nat}
      {f : Formed Nat}
      (hd : Drives e me) (h : s.mem.step me = some mem) (hf : f ∈ s.mem.formed) :
      Effect s e { s.toCore with mem := mem, published := s.published ++ [f] }
  | begin (h : s.snap = .sleeping) :
      Effect s (.snapshot .run) { s.toCore with snap := .copying 0 s.captureStart }
  | copy {next : Nat} {snap : Snapshot} (h : s.snap = .copying next snap)
      (hlt : next < cfg.numBuckets) :
      Effect s (.snapshot .run) { s.toCore with
        snap := .copying (next + 1) (snap.add (s.mem.buckets ⟨next, hlt⟩)) }
  | finish {next : Nat} {snap : Snapshot} (h : s.snap = .copying next snap)
      (hge : cfg.numBuckets ≤ next) :
      Effect s (.snapshot .run) { s.toCore with snap := .writing snap }
  | written {ok : Bool} {snap : Snapshot} (h : s.snap = .writing snap) :
      Effect s (.snapshot (.written ok)) { s.toCore with
        disk := if ok then (snap :: s.disk).take cfg.snapshotsKept else s.disk, snap := .trimming }
  | trimmed {upTo : Nat} (h : s.snap = .trimming) :
      Effect s (.snapshot (.trimmed upTo)) { s.toCore with
        ingest := s.ingest.trim upTo, snap := .sleeping }
  | ended {matchId : Int64} {pg : Pg} :
      Effect s (.endMatch matchId pg) { s.toCore with ended := s.ended ++ s.newlyEnded matchId pg }
  | restart : Effect s .restart s.restart.toCore

/-- Of a call only the `XADD` shows in the core. -/
theorem CallMove.effect {s t : World cfg} {c : Nat} {link : Link} (h : CallMove s c link t) :
    Effect s (.call c link) t.toCore := by
  cases h with
  | silent h =>
    rw [h.core]
    exact .quiet
  | publish hcall hlink h =>
    rw [h.core]
    exact .xadd hcall hlink
  | queued _ _ h =>
    rw [h.core]
    exact .quiet

/-- A step of the snapshotter, as an effect. -/
theorem snapStep_effect {s s' : World cfg} {e : SnapStep} (h : s.snapStep e = some s') :
    Effect s (.snapshot e) s'.toCore := by
  unfold World.snapStep at h
  split at h
  · split at h
    next hsnap =>
      simp only [Option.some.injEq] at h
      subst h
      exact .begin hsnap
    next next snap hsnap =>
      split at h <;> simp only [Option.some.injEq] at h <;> subst h
      next hlt => exact .copy hsnap hlt
      next hge => exact .finish hsnap (Nat.le_of_not_lt hge)
    next => cases h
  · split at h
    next snap hsnap =>
      simp only [Option.some.injEq] at h
      subst h
      exact .written hsnap
    next => cases h
  · split at h
    next hsnap =>
      simp only [Option.some.injEq] at h
      subst h
      exact .trimmed hsnap
    next => cases h

/-- A step of a thread, and the command of a commit that it has executed. -/
theorem Executed.effect {s t : World cfg} {e : WorldEvent cfg} {me : MatcherEvent cfg Nat}
    {mem : Matcher cfg Nat} (hd : Drives e me) (h : s.mem.step me = some mem) (hx : Executed s t) :
    Effect s e { t with mem := mem }.toCore := by
  cases hx with
  | nothing ht =>
    rw [ht]
    exact .process hd h
  | matched _ _ ht =>
    rw [ht]
    exact .process hd h
  | published hf ht =>
    rw [ht]
    exact .publish hd h hf

/-- **Inversion of `World.step`**, for the core. -/
theorem step_effect {s s' : World cfg} {e : WorldEvent cfg} (hF : Founded s.mem)
    (h : s.step e = some s') : Effect s e s'.toCore := by
  cases e with
  | signup rating =>
    simp only [World.step, Option.some.injEq] at h
    subst h
    exact .quiet
  | request user =>
    simp only [World.step, Option.some.injEq] at h
    subst h
    exact .quiet
  | call c link => exact (callStep_move h).effect
  | ingest e =>
    simp only [World.step, Option.map_eq_some_iff] at h
    obtain ⟨⟨ingest, call⟩, hstep, rfl⟩ := h
    exact .ingest hstep
  | worker w e =>
    simp only [World.step, Option.map_eq_some_iff] at h
    obtain ⟨mem, hstep, rfl⟩ := h
    exact (execute_executed fun f c => worker_command hF).effect (.worker w e) hstep
  | retry e =>
    simp only [World.step, Option.map_eq_some_iff] at h
    obtain ⟨mem, hstep, rfl⟩ := h
    exact (execute_executed fun f c => retry_command hF).effect (.retry e) hstep
  | snapshot e => exact snapStep_effect h
  | poller e =>
    simp only [World.step, Option.map_eq_some_iff] at h
    obtain ⟨writer, _, rfl⟩ := h
    exact .quiet
  | endMatch matchId pg =>
    simp only [World.step, Option.some.injEq] at h
    subst h
    exact .ended
  | expireStatus user =>
    simp only [World.step, Option.some.injEq] at h
    subst h
    exact .quiet
  | expirePlayer user =>
    simp only [World.step, Option.some.injEq] at h
    subst h
    exact .quiet
  | tick nanos =>
    simp only [World.step, Option.some.injEq] at h
    subst h
    have htick : s.mem.step (.tick nanos) = some { s.mem with now := s.mem.now + nanos } := rfl
    exact .process (.tick nanos) htick
  | restart =>
    simp only [World.step, Option.some.injEq] at h
    subst h
    exact .restart

/-! ## What a process boots with -/

/-- The pool after a step of the ingestion thread. -/
theorem apply_step (m : Matcher cfg Nat) {call : PoolCall} (h : call ≠ .none) :
    ∃ me, m.step me = some (m.apply call) := by
  cases call with
  | none => exact absurd rfl h
  | enqueue e => exact ⟨.enqueue e.2.id e.2.poolRating e.1, rfl⟩
  | counted => exact ⟨.counted, rfl⟩

/-- A call of the ingestion thread leaves the matcher sound. -/
theorem apply_sound {m : Matcher cfg Nat} (hI : Inv m) (hF : Founded m) (call : PoolCall) :
    Inv (m.apply call) ∧ Founded (m.apply call) := by
  by_cases hcall : call = .none
  · subst hcall
    exact ⟨hI, hF⟩
  · obtain ⟨me, hstep⟩ := apply_step m hcall
    exact ⟨step_inv hI hstep, step_founded hI hF hstep⟩

/-- The two entries stand for the same event. -/
structure Player.Same (p q : Player Nat) : Prop where
  id : p.id = q.id
  rating : p.rating = q.rating
  origin : p.origin = q.origin

/-- The entry stands for the event. -/
structure Player.Made (p : Player Nat) (e : Nat × IngestEvent) : Prop where
  id : p.id = e.2.id
  rating : p.rating = e.2.poolRating
  origin : p.origin = e.1

/-- What `restore_players` puts into an empty pool. -/
structure Restored (m m' : Matcher cfg Nat) (players : List (Player Nat)) : Prop where
  inv : Inv m'
  founded : Founded m'
  formed : m'.formed = m.formed
  origins : m'.enqueued.map Player.origin
    = m.enqueued.map Player.origin ++ players.map Player.origin
  entries : ∀ p ∈ m'.enqueued, p ∈ m.enqueued ∨ ∃ q ∈ players, p.Same q
  grown : m.enqueued ⊆ m'.enqueued
  restored : ∀ q ∈ players, ∃ p ∈ m'.enqueued, p.Same q

/-- `restore_players` puts exactly these players into the pool. -/
theorem restorePlayers_spec (players : List (Player Nat)) :
    ∀ {m : Matcher cfg Nat}, Inv m → Founded m → Restored m (restorePlayers m players) players := by
  induction players with
  | nil =>
    intro m hI hF
    exact ⟨hI, hF, rfl, (List.append_nil _).symm, fun p hp => Or.inl hp, List.Subset.refl _, nofun⟩
  | cons q players ih =>
    intro m hI hF
    have hstep : m.step (.enqueue q.id q.rating q.origin)
        = some (m.enqueue q.id q.rating q.origin) := rfl
    have hrest := ih (step_inv hI hstep) (step_founded hI hF hstep)
    have hgrown : m.enqueued ⊆ (m.enqueue q.id q.rating q.origin).enqueued :=
      List.subset_append_left _ _
    refine ⟨hrest.inv, hrest.founded, hrest.formed, ?_, fun p hp => ?_,
      fun p hp => hrest.grown (hgrown hp), fun x hx => ?_⟩
    · show (restorePlayers (m.enqueue q.id q.rating q.origin) players).enqueued.map _ = _
      rw [hrest.origins]
      show (m.enqueued ++ [_]).map Player.origin ++ _ = _
      rw [List.map_append, List.append_assoc]
      rfl
    · rcases hrest.entries p hp with hold | ⟨q', hq', hsame⟩
      · rcases List.mem_append.mp hold with hold | hnew
        · exact Or.inl hold
        · rw [List.mem_singleton.mp hnew]
          exact Or.inr ⟨q, List.mem_cons_self, ⟨rfl, rfl, rfl⟩⟩
      · exact Or.inr ⟨q', List.mem_cons_of_mem _ hq', hsame⟩
    · rcases List.mem_cons.mp hx with rfl | hx
      · refine ⟨_, hrest.grown (List.mem_append_right _ List.mem_cons_self), ⟨rfl, rfl, rfl⟩⟩
      · exact hrest.restored x hx

theorem count_inv {m : Matcher cfg Nat} (hI : Inv m) (n : UInt64) : Inv (m.count n) :=
  ⟨hI.wf, hI.homed, hI.serials, hI.tally⟩

theorem count_founded {m : Matcher cfg Nat} (hF : Founded m) (n : UInt64) : Founded (m.count n) :=
  ⟨hF.next, hF.result, hF.ordinal_lt, hF.ordinals, hF.carried, hF.queued, hF.retrying⟩

/-- The memory a process boots with. -/
theorem restart_restored (s : World cfg) :
    Restored (Matcher.init cfg Nat s.mem.now) s.restart.mem s.recovered.1 := by
  have hinv : Inv (Matcher.init cfg Nat s.mem.now) := init_inv s.mem.now
  have h := restorePlayers_spec s.recovered.1 hinv (init_founded s.mem.now)
  exact ⟨count_inv h.inv _, count_founded h.founded _, h.formed, h.origins, h.entries, h.grown,
    h.restored⟩

/-- The snapshot that was just written is the newest, if any file is kept. -/
theorem newest_written {old snap : Snapshot} {disk : List Snapshot} {kept : Nat}
    (h : snap ∈ ((old :: disk).take kept).head?) : snap = old := by
  cases kept with
  | zero => cases h
  | succ kept =>
    rw [List.take_succ_cons, List.head?_cons, Option.mem_def, Option.some.injEq] at h
    exact h.symm

/-- What boot recovers is nothing, or a snapshot on disk. -/
theorem recovered_cases (s : World cfg) :
    (s.disk = [] ∧ s.recovered = ([], none)) ∨
      ∃ snap rest, s.disk = snap :: rest ∧ s.recovered = (snap.players, snap.lastStreamId) := by
  unfold World.recovered
  cases s.disk with
  | nil => exact Or.inl ⟨rfl, rfl⟩
  | cons snap rest => exact Or.inr ⟨snap, rest, rfl, rfl⟩

/-! ## Matches -/

/-- A process forms at most one match in a step. -/
theorem Effect.formed {s : World cfg} {e : WorldEvent cfg} {c : Core cfg} (hI : Inv s.mem)
    (h : Effect s e c) (hboot : e ≠ .restart) :
    c.mem.formed = s.mem.formed ∨
      ∃ f, c.mem.formed = s.mem.formed ++ [f] ∧ f.ordinal = s.mem.drawn := by
  cases h with
  | process _ hstep => exact step_formed hI hstep
  | publish _ hstep _ => exact step_formed hI hstep
  | @ingest _ _ call _ =>
    left
    cases call <;> rfl
  | restart => exact absurd rfl hboot
  | _ => exact .inl rfl

/-- Every match formed so far, by this process or an earlier one. -/
def Core.history (c : Core cfg) : List (Formed Nat) := c.past ++ c.mem.formed

/-- No match is forgotten. -/
theorem Effect.history {s : World cfg} {e : WorldEvent cfg} {c : Core cfg} (hI : Inv s.mem)
    (h : Effect s e c) : s.history ⊆ c.history := by
  have hgrow : ∀ {fs}, s.mem.formed ⊆ fs → s.history ⊆ s.past ++ fs := fun hsub =>
    List.append_subset.mpr ⟨List.subset_append_left _ _,
      fun f hf => List.mem_append_right _ (hsub hf)⟩
  cases h with
  | process _ hstep => exact hgrow (step_formed_subset hI hstep)
  | publish _ hstep _ => exact hgrow (step_formed_subset hI hstep)
  | @ingest _ _ call _ => cases call <;> exact List.Subset.refl _
  | restart => exact List.subset_append_left _ _
  | _ => exact List.Subset.refl _

/-- Match ids are drawn in increasing order. -/
theorem Effect.drawn {s : World cfg} {e : WorldEvent cfg} {c : Core cfg} (hI : Inv s.mem)
    (h : Effect s e c) (hboot : e ≠ .restart) : s.mem.drawn ≤ c.mem.drawn := by
  have hmem : ∀ {me mem}, s.mem.step me = some mem → s.mem.drawn ≤ mem.drawn := by
    intro me mem hstep
    rcases step_counter hI hstep with ⟨hd, _⟩ | ⟨hd, _⟩ <;> omega
  cases h with
  | process _ hstep => exact hmem hstep
  | publish _ hstep _ => exact hmem hstep
  | @ingest _ _ call _ => cases call <;> exact Nat.le_refl _
  | restart => exact absurd rfl hboot
  | _ => exact Nat.le_refl _

/-- Matches are only ended by `end_match`, and forgotten when the process dies. -/
theorem Effect.ended_eq {s : World cfg} {e : WorldEvent cfg} {c : Core cfg} (h : Effect s e c)
    (hboot : e ≠ .restart) :
    c.ended = s.ended ∨
      ∃ matchId pg, c = { s.toCore with ended := s.ended ++ s.newlyEnded matchId pg } := by
  cases h with
  | ended => exact .inr ⟨_, _, rfl⟩
  | restart => exact absurd rfl hboot
  | _ => exact .inl rfl

/-- Only a match that was formed is published. -/
theorem Effect.published {s : World cfg} {e : WorldEvent cfg} {c : Core cfg} (h : Effect s e c) :
    ∀ f ∈ c.published, f ∈ s.published ∨ f ∈ s.mem.formed := by
  intro g hg
  cases h with
  | publish _ _ hf =>
    rcases List.mem_append.mp hg with hg | hg
    · exact .inl hg
    · rw [List.mem_singleton.mp hg]
      exact .inr hf
  | _ => exact .inl hg

/-! ## The stream, the entries and the snapshots -/

/-- The stream only grows, as far as ids go. -/
theorem Effect.numbered {s : World cfg} {e : WorldEvent cfg} {c : Core cfg} (h : Effect s e c) :
    s.ingest.stream.numbered <+: c.ingest.stream.numbered := by
  cases h with
  | @xadd _ _ user rating _ _ =>
    show _ <+: (s.ingest.stream.append (some ⟨user, rating⟩)).numbered
    rw [Log.numbered_append]
    exact List.prefix_append _ _
  | @ingest _ ingest _ hstep =>
    have hstream := congrArg Log.numbered (Ingest.threadStep_frame hstep).1
    exact ⟨[], by rw [List.append_nil, ← hstream]⟩
  | _ => exact List.prefix_refl _

/-- The ingest stream only grows at its end. -/
theorem Effect.lastId_le {s : World cfg} {e : WorldEvent cfg} {c : Core cfg} (h : Effect s e c) :
    s.ingest.stream.lastId ≤ c.ingest.stream.lastId := by
  rw [← Log.length_numbered, ← Log.length_numbered]
  exact h.numbered.length_le

/-- What is ahead of the ingestion thread was ahead, or is read from the stream. -/
theorem Effect.ahead {s : World cfg} {e : WorldEvent cfg} {c : Core cfg} (hwf : s.ingest.Wf)
    (h : Effect s e c) :
    ∀ x ∈ c.ingest.ahead, x ∈ s.ingest.ahead ∨ (x.1, some x.2) ∈ c.ingest.stream.numbered := by
  intro x hx
  cases h with
  | @xadd _ _ user rating _ _ =>
    rw [Ingest.xadd_ahead hwf] at hx
    rcases List.mem_append.mp hx with hx | hx
    · exact .inl hx
    · right
      show _ ∈ (s.ingest.stream.append (some ⟨user, rating⟩)).numbered
      rw [Log.numbered_append]
      split at hx
      · rw [List.mem_singleton.mp hx]
        exact List.mem_append_right _ List.mem_cons_self
      · cases hx
  | ingest hstep =>
    exact .inl ((Ingest.threadStep_advance hwf hstep).suffix.subset hx)
  | @trimmed upTo _ => exact .inl ((s.ingest.trim_ahead upTo).subset hx)
  | restart =>
    right
    rcases Option.eq_none_or_eq_some s.recovered.2 with hc | ⟨c, hc⟩
    · rw [Ingest.ahead_none (s := s.restart.ingest) hc] at hx
      cases hx
    · rw [Ingest.ahead_eq (s := s.restart.ingest) hc] at hx
      exact List.mem_of_mem_drop (Log.mem_decoded.mp hx)
  | _ => exact .inl hx

/-- The stream is only trimmed by the snapshotter. -/
theorem Effect.trimmed_eq {s : World cfg} {e : WorldEvent cfg} {c : Core cfg} (h : Effect s e c) :
    c.ingest.stream.trimmed = s.ingest.stream.trimmed ∨
      ∃ upTo, e = .snapshot (.trimmed upTo) ∧ c.ingest.stream.trimmed
        = max s.ingest.stream.trimmed (min upTo s.ingest.stream.lastId) := by
  cases h with
  | ingest hstep =>
    left
    rw [← (Ingest.threadStep_frame hstep).1]
  | @trimmed upTo _ => exact .inr ⟨upTo, rfl, rfl⟩
  | _ => exact .inl rfl

/-- Within the life of a process, what comes to be ahead has a new id. -/
theorem Effect.behind {s : World cfg} {e : WorldEvent cfg} {c : Core cfg} (hwf : s.ingest.Wf)
    (h : Effect s e c) (hboot : e ≠ .restart) :
    ∀ x ∈ c.ingest.ahead, x ∈ s.ingest.ahead ∨ s.ingest.stream.lastId < x.1 := by
  intro x hx
  cases h with
  | @xadd _ _ user rating _ _ =>
    rw [Ingest.xadd_ahead hwf] at hx
    rcases List.mem_append.mp hx with hx | hx
    · exact .inl hx
    · right
      split at hx
      · rw [List.mem_singleton.mp hx]
        exact Nat.lt_succ_self _
      · cases hx
  | ingest hstep => exact .inl ((Ingest.threadStep_advance hwf hstep).suffix.subset hx)
  | @trimmed upTo _ => exact .inl ((s.ingest.trim_ahead upTo).subset hx)
  | restart => exact absurd rfl hboot
  | _ => exact .inl hx

/-- The entries after a step of the threads that form matches. -/
theorem step_enqueued {m m' : Matcher cfg Nat} {me : MatcherEvent cfg Nat} (hI : Inv m)
    (hme : ∀ id rating origin, me ≠ .enqueue id rating origin) (h : m.step me = some m') :
    m'.enqueued = m.enqueued ∧ waiting m' ≤ waiting m := by
  cases step_flow hI h with
  | still hw _ he => exact ⟨he, le_of_eq hw⟩
  | arrived hp => exact absurd hp (hme _ _ _)
  | formed hw _ he =>
    rw [hw]
    exact ⟨he, Multiset.le_add_right _ _⟩

/-- The ingestion thread adds no entry, or one that stands for an event it had
ahead. -/
theorem apply_entries (m : Matcher cfg Nat) {s s' : Ingest} {call : PoolCall}
    (h : Ingest.Advance s s' call) :
    ((m.apply call).enqueued = m.enqueued ∧ waiting (m.apply call) = waiting m) ∨
      ∃ e ∈ s.ahead, ∃ p : Player Nat, p.Made e ∧
        (m.apply call).enqueued = m.enqueued ++ [p] ∧ waiting (m.apply call) = waiting m + {p} := by
  cases h with
  | kept hcall _ _ =>
    left
    cases call with
    | none => exact ⟨rfl, rfl⟩
    | counted => exact ⟨rfl, rfl⟩
    | enqueue e => exact absurd rfl (hcall e)
  | @placed e ha _ =>
    right
    refine ⟨e, ?_, ⟨e.2.id, e.2.poolRating, m.now, m.enqueued.length, e.1⟩,
      ⟨rfl, rfl, rfl⟩, rfl, ?_⟩
    · rw [ha]
      exact List.mem_cons_self
    · exact enqueue_waiting m _ _ _
  | dropped _ _ _ => exact .inl ⟨rfl, rfl⟩

/-- An entry was there before, or stands for an event that was ahead, or is
restored from a snapshot. -/
theorem Effect.entries {s : World cfg} {e : WorldEvent cfg} {c : Core cfg} (hI : Inv s.mem)
    (hwf : s.ingest.Wf) (h : Effect s e c) :
    ∀ p ∈ c.mem.enqueued, p ∈ s.mem.enqueued ∨ (∃ x ∈ s.ingest.ahead, p.Made x) ∨
      ∃ snap ∈ s.disk, ∃ q ∈ snap.players, p.Same q := by
  intro p hp
  cases h with
  | process hd hstep =>
    rw [← (step_enqueued hI hd.ne_enqueue hstep).1]
    exact .inl hp
  | publish hd hstep =>
    rw [← (step_enqueued hI hd.ne_enqueue hstep).1]
    exact .inl hp
  | @ingest _ _ call hstep =>
    change p ∈ (s.mem.apply call).enqueued at hp
    rcases apply_entries s.mem (Ingest.threadStep_advance hwf hstep) with
      ⟨he, _⟩ | ⟨x, hx, q, hq, he, _⟩ <;> rw [he] at hp
    · exact .inl hp
    · rcases List.mem_append.mp hp with hp | hp
      · exact .inl hp
      · rw [List.mem_singleton.mp hp]
        exact .inr (.inl ⟨x, hx, hq⟩)
  | restart =>
    right
    right
    rcases (restart_restored s).entries p hp with hp | ⟨q, hq, hsame⟩
    · cases hp
    · rcases recovered_cases s with ⟨_, hrec⟩ | ⟨snap, rest, hdisk, hrec⟩ <;> rw [hrec] at hq
      · cases hq
      · refine ⟨snap, ?_, q, hq, hsame⟩
        rw [hdisk]
        exact List.mem_cons_self
  | _ => exact .inl hp

/-- Within the life of a process, whoever waits did so before, or has just been
placed. -/
theorem Effect.waits {s : World cfg} {e : WorldEvent cfg} {c : Core cfg} (hI : Inv s.mem)
    (hwf : s.ingest.Wf) (h : Effect s e c) (hboot : e ≠ .restart) :
    ∀ p ∈ waiting c.mem, p ∈ waiting s.mem ∨ ∃ x ∈ s.ingest.ahead, p.Made x := by
  intro p hp
  cases h with
  | process hd hstep =>
    exact .inl (Multiset.mem_of_le (step_enqueued hI hd.ne_enqueue hstep).2 hp)
  | publish hd hstep =>
    exact .inl (Multiset.mem_of_le (step_enqueued hI hd.ne_enqueue hstep).2 hp)
  | @ingest _ _ call hstep =>
    change p ∈ waiting (s.mem.apply call) at hp
    rcases apply_entries s.mem (Ingest.threadStep_advance hwf hstep) with
      ⟨_, hw⟩ | ⟨x, hx, q, hq, _, hw⟩ <;> rw [hw] at hp
    · exact .inl hp
    · rcases Multiset.mem_add.mp hp with hp | hp
      · exact .inl hp
      · rw [Multiset.mem_singleton.mp hp]
        exact .inr ⟨x, hx, hq⟩
  | restart => exact absurd rfl hboot
  | _ => exact .inl hp

/-- The snapshot in the making, if there is one. -/
def SnapPc.snapshot : SnapPc → List Snapshot
  | .copying _ snap => [snap]
  | .writing snap => [snap]
  | _ => []

/-- The capture in progress and the snapshots on disk. -/
def Core.snapshots (c : Core cfg) : List Snapshot := c.snap.snapshot ++ c.disk

/-- A snapshot was there before, or its capture has just begun, or it has just
got the content of one more bucket. -/
theorem Effect.snapshots {s : World cfg} {e : WorldEvent cfg} {c : Core cfg} (h : Effect s e c) :
    ∀ snap ∈ c.snapshots, snap ∈ s.snapshots ∨ snap = s.captureStart ∨
      ∃ next old, ∃ hlt : next < cfg.numBuckets, s.snap = .copying next old ∧
        snap = old.add (s.mem.buckets ⟨next, hlt⟩) := by
  intro snap hsnap
  have hdisk : snap ∈ s.disk → snap ∈ s.snapshots := List.mem_append_right _
  cases h with
  | begin _ =>
    rcases List.mem_append.mp hsnap with hnew | hold
    · exact .inr (.inl (List.mem_singleton.mp hnew))
    · exact .inl (hdisk hold)
  | @copy next old hpc hlt =>
    rcases List.mem_append.mp hsnap with hnew | hold
    · exact .inr (.inr ⟨next, old, hlt, hpc, List.mem_singleton.mp hnew⟩)
    · exact .inl (hdisk hold)
  | @finish next old hpc _ =>
    left
    show snap ∈ s.snap.snapshot ++ s.disk
    rw [hpc]
    exact hsnap
  | @written ok old hpc =>
    left
    show snap ∈ s.snap.snapshot ++ s.disk
    rw [hpc]
    change snap ∈ (if ok then (old :: s.disk).take cfg.snapshotsKept else s.disk) at hsnap
    split at hsnap
    · exact List.mem_of_mem_take hsnap
    · exact List.mem_cons_of_mem _ hsnap
  | trimmed _ => exact .inl (hdisk hsnap)
  | restart => exact .inl (hdisk hsnap)
  | _ => exact .inl hsnap

theorem mem_snapshots_of_copying {c : Core cfg} {next : Nat} {snap : Snapshot}
    (h : c.snap = .copying next snap) : snap ∈ c.snapshots := by
  unfold Core.snapshots
  rw [h]
  exact List.mem_cons_self

/-! ## What every state satisfies -/

/-- The snapshot refers to ingest ids up to `last` only. -/
structure Snapshot.Bounded (snap : Snapshot) (last : Nat) : Prop where
  cursor_le : ∀ i, snap.lastStreamId = some i → i ≤ last
  players_le : ∀ p ∈ snap.players, p.origin ≤ last

/-- What holds of every reachable core: the matcher and its matches are well-formed, and no
entry, published match or snapshot mentions an event the ingest stream does not have yet. -/
structure Sound (c : Core cfg) : Prop where
  inv : Inv c.mem
  founded : Founded c.mem
  thread : c.ingest.Wf
  enqueued_le : ∀ p ∈ c.mem.enqueued, p.origin ≤ c.ingest.stream.lastId
  published_le : ∀ f ∈ c.published, ∀ p ∈ f.group.toList, p.origin ≤ c.ingest.stream.lastId
  snaps : ∀ snap ∈ c.snapshots, snap.Bounded c.ingest.stream.lastId

theorem Snapshot.Bounded.mono {snap : Snapshot} {n n' : Nat} (h : snap.Bounded n) (hle : n ≤ n') :
    snap.Bounded n' where
  cursor_le i hi := (h.cursor_le i hi).trans hle
  players_le p hp := (h.players_le p hp).trans hle

/-- Who was matched has an event on the stream. -/
theorem Sound.matched_le {c : Core cfg} (hS : Sound c) {f : Formed Nat} (hf : f ∈ c.mem.formed)
    {p : Player Nat} (hp : p ∈ f.group.toList) : p.origin ≤ c.ingest.stream.lastId :=
  hS.enqueued_le p (hS.inv.mem_of_matched hf hp)

theorem Sound.cursor_le {c : Core cfg} (hS : Sound c) {i : Nat} (hi : c.ingest.cursor = some i) :
    i ≤ c.ingest.stream.lastId := by
  obtain ⟨p, hp, hle⟩ := hS.thread.cursor_le i hi
  exact hle.trans (hS.thread.position_le p hp)

/-- The threads of the process, after a step or a reboot. -/
theorem Effect.process_inv {s : World cfg} {e : WorldEvent cfg} {c : Core cfg} (hI : Inv s.mem)
    (hF : Founded s.mem) (h : Effect s e c) : Inv c.mem ∧ Founded c.mem := by
  cases h with
  | process _ hstep => exact ⟨step_inv hI hstep, step_founded hI hF hstep⟩
  | publish _ hstep _ => exact ⟨step_inv hI hstep, step_founded hI hF hstep⟩
  | @ingest _ _ call _ => exact apply_sound hI hF call
  | restart => exact ⟨(restart_restored s).inv, (restart_restored s).founded⟩
  | _ => exact ⟨hI, hF⟩

/-- The ingestion thread stays well-formed. -/
theorem Effect.thread {s : World cfg} {e : WorldEvent cfg} {c : Core cfg} (hS : Sound s.toCore)
    (h : Effect s e c) : c.ingest.Wf := by
  cases h with
  | xadd _ _ => exact Ingest.xadd_wf hS.thread _
  | ingest hstep => exact Ingest.threadStep_wf hS.thread hstep
  | trimmed _ => exact Ingest.trim_wf hS.thread _
  | restart =>
    refine Ingest.start_wf _ fun i hi => ?_
    rcases recovered_cases s with ⟨_, hrec⟩ | ⟨snap, rest, hdisk, hrec⟩ <;> rw [hrec] at hi
    · cases hi
    · have hmem : snap ∈ s.snapshots := by
        refine List.mem_append_right _ ?_
        rw [hdisk]
        exact List.mem_cons_self
      exact (hS.snaps snap hmem).cursor_le i hi
  | _ => exact hS.thread

/-- **Step**: the shared invariants of the core. -/
theorem Effect.sound {s : World cfg} {e : WorldEvent cfg} {c : Core cfg} (hS : Sound s.toCore)
    (h : Effect s e c) : Sound c := by
  obtain ⟨hI, hF⟩ := h.process_inv hS.inv hS.founded
  have hle := h.lastId_le
  refine ⟨hI, hF, h.thread hS, fun p hp => ?_, fun f hf p hp => ?_, fun snap hsnap => ?_⟩
  · refine Nat.le_trans ?_ hle
    rcases h.entries hS.inv hS.thread p hp with hold | ⟨x, hx, hmade⟩ | ⟨snap, hsnap, q, hq, hsame⟩
    · exact hS.enqueued_le p hold
    · rw [hmade.origin]
      exact hS.thread.ahead_le x hx
    · rw [hsame.origin]
      exact (hS.snaps snap (List.mem_append_right _ hsnap)).players_le q hq
  · refine Nat.le_trans ?_ hle
    rcases h.published f hf with hold | hnew
    · exact hS.published_le f hold p hp
    · exact hS.matched_le hnew hp
  · refine Snapshot.Bounded.mono ?_ hle
    rcases h.snapshots snap hsnap with hold | rfl | ⟨next, old, hlt, hpc, rfl⟩
    · exact hS.snaps snap hold
    · exact ⟨fun i hi => hS.cursor_le hi, nofun⟩
    · have hold := hS.snaps old (mem_snapshots_of_copying hpc)
      refine ⟨hold.cursor_le, fun p hp => ?_⟩
      rcases List.mem_append.mp hp with hp | hp
      · exact hold.players_le p hp
      · exact hS.enqueued_le p (hS.inv.mem_of_waiting (mem_waiting_of_bucket hp))

theorem init_sound : Sound (World.init cfg).toCore where
  inv := init_inv 0
  founded := init_founded 0
  thread := Ingest.start_wf _ nofun
  enqueued_le := nofun
  published_le := nofun
  snaps := nofun

/-- **Step** of the invariant of all others. -/
theorem step_sound {s s' : World cfg} {e : WorldEvent cfg} (hS : Sound s.toCore)
    (h : s.step e = some s') : Sound s'.toCore :=
  (step_effect hS.founded h).sound hS

end Supermatchmaker
