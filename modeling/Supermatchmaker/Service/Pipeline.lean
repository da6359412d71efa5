import Supermatchmaker.Service.Arrival
import Supermatchmaker.Service.Desk
import Supermatchmaker.Service.Identity
import Supermatchmaker.Sync.Stored

/-!
# From the gate to the tables

Three hand-overs lie between a formed match and its rows: from thread to thread
until a `commit_match` returns `Ok`, from the pipeline to the sync stream, and
from the stream through the consumer group to Postgres. Each of the three is safe
by itself (`Outstanding`, `Matcher.Delivers`, `Writer.Accounted`); put together
they say where a match is at any moment of its process's life.

The second hand-over is the one that the code does not spell out: an `Ok` for the
pipeline means that its last command, the `XADD`, was executed, since Redis runs
the commands of a pipeline and `query` fails when one of them does. So a thread
that lets go of a match has left it on the stream.
-/

namespace Supermatchmaker

variable {cfg : Config}

/-! ## Until the `XADD` -/

/-- An attempt that may still return `Ok` has its `XADD` to send, or has sent it. -/
def Pc.Sends (sent : Formed Nat → Prop) (pc : Pc cfg Nat) : Prop :=
  ∀ f attempt todo, pc = .commit f attempt todo true → .xaddSync f ∈ todo ∨ sent f

/-- A commit of the retry thread that nothing has gone wrong with will append its match or has
done so. -/
def RetryPc.Sends (sent : Formed Nat → Prop) (pc : RetryPc Nat) : Prop :=
  ∀ p todo, pc = .commit p todo true → .xaddSync p.result ∈ todo ∨ sent p.result

/-- Every thread `Sends`, and every match formed is still held or sent. -/
structure Matcher.Delivers (m : Matcher cfg Nat) (sent : Formed Nat → Prop) : Prop where
  workers : ∀ w, (m.workers w).Sends sent
  retry : m.retry.Sends sent
  formed : ∀ f ∈ m.formed, f ∈ unwritten m ∨ sent f

/-- The match whose `XADD` is executed in a step. -/
def Matcher.sends (m : Matcher cfg Nat) : MatcherEvent cfg Nat → Option (Formed Nat)
  | .worker w e => xaddOf (World.effective e (m.workers w).command)
  | .retry e => xaddOf (World.effective e m.retry.command)
  | _ => none

theorem Pc.Sends.mono {sent sent' : Formed Nat → Prop} {pc : Pc cfg Nat} (h : pc.Sends sent)
    (hsub : ∀ f, sent f → sent' f) : pc.Sends sent' :=
  fun f attempt todo hpc => (h f attempt todo hpc).imp_right (hsub f)

theorem RetryPc.Sends.mono {sent sent' : Formed Nat → Prop} {pc : RetryPc Nat} (h : pc.Sends sent)
    (hsub : ∀ f, sent f → sent' f) : pc.Sends sent' :=
  fun p todo hpc => (h p todo hpc).imp_right (hsub p.result)

theorem Matcher.Delivers.mono {m : Matcher cfg Nat} {sent sent' : Formed Nat → Prop}
    (h : m.Delivers sent) (hsub : ∀ f, sent f → sent' f) : m.Delivers sent' where
  workers w := (h.workers w).mono hsub
  retry := h.retry.mono hsub
  formed f hf := (h.formed f hf).imp_right (hsub f)

/-- The pipeline of an attempt ends with the `XADD`. -/
theorem xaddSync_mem (f : Formed Nat) : .xaddSync f ∈ commitMatch f :=
  mem_commitMatch.mpr (Or.inr rfl)

/-- A thread that is not committing. -/
theorem sends_of_not_carrying {sent : Formed Nat → Prop} {pc : Pc cfg Nat}
    (h : pc.carried = none) : pc.Sends sent := by
  intro f attempt todo hpc
  rw [hpc] at h
  cases h

/-- A new attempt. -/
theorem sends_start (sent : Formed Nat → Prop) (f : Formed Nat) (attempt : Nat) :
    (Pc.commit f attempt (commitMatch f) true : Pc cfg Nat).Sends sent := by
  intro g attempt' todo hpc
  cases hpc
  exact Or.inl (xaddSync_mem f)

/-- A command is executed, or the attempt is spoilt. -/
theorem sends_cmd {sent : Formed Nat → Prop} {f : Formed Nat} {c : Command Nat}
    {todo : List (Command Nat)} {clean ok : Bool}
    (hold : clean = true → .xaddSync f ∈ c :: todo ∨ sent f)
    (hx : ok = true → c = .xaddSync f → sent f) (hboth : (clean && ok) = true) :
    .xaddSync f ∈ todo ∨ sent f := by
  obtain ⟨hclean, hok⟩ := Bool.and_eq_true_iff.mp hboth
  rcases hold hclean with hmem | hsent
  · rcases List.mem_cons.mp hmem with heq | hmem
    · exact Or.inr (hx hok heq.symm)
    · exact Or.inl hmem
  · exact Or.inr hsent

theorem sends_update {m m' : Matcher cfg Nat} {w : Fin cfg.numWorkers} {pc : Pc cfg Nat}
    {sent : Formed Nat → Prop} (hw : m'.workers = Function.update m.workers w pc)
    (hpc : pc.Sends sent) : (m'.workers w).Sends sent := by
  rw [hw, Function.update_self]
  exact hpc

/-- A thread that runs on gets to a commit at the gate only. -/
theorem workerRun_sends {m m' : Matcher cfg Nat} {w : Fin cfg.numWorkers} (hI : Inv m)
    (sent : Formed Nat → Prop) (h : m.workerRun w = some m') : (m'.workers w).Sends sent := by
  have hrun : m.workerStep w .run = some m' := h
  obtain ⟨pc, hm⟩ := workerStep_move (hI.wf w) hI.homed hrun
  refine sends_update hm.workers ?_
  cases hm.carry with
  | none hp _ => exact sends_of_not_carrying hp
  | deferred _ hp _ => exact sends_of_not_carrying hp
  | formed hp _ _ =>
    intro g attempt todo hpc
    rw [hpc] at hp
    cases hp
    exact Or.inl (xaddSync_mem _)
  | same hold hp _ _ =>
    unfold Matcher.workerRun at h
    cases hpc : m.workers w with
    | commit f attempt todo clean => simp only [hpc, reduceCtorEq] at h
    | defer f =>
      simp only [hpc, Option.some.injEq] at h
      have hidle : m'.workers w = .idle := by
        rw [← h]
        exact Function.update_self ..
      rw [hm.workers, Function.update_self] at hidle
      rw [hidle] at hp
      cases hp
    | _ =>
      rw [hpc] at hold
      cases hold

/-- **Step** of a match thread: a clean pipeline that has passed its `XADD` has sent the match. -/
theorem workerStep_sends {m m' : Matcher cfg Nat} {w : Fin cfg.numWorkers} {e : WorkerEvent}
    {sent : Formed Nat → Prop} (hI : Inv m) (hD : (m.workers w).Sends sent)
    (hx : ∀ f, m.sends (.worker w e) = some f → sent f) (h : m.workerStep w e = some m') :
    (m'.workers w).Sends sent := by
  cases e with
  | run => exact workerRun_sends hI sent h
  | busy =>
    simp only [Matcher.workerStep] at h
    split at h
    · split at h <;> cases h
      exact sends_update (m := m) rfl (sends_of_not_carrying rfl)
    · cases h
  | cmd ok =>
    simp only [Matcher.workerStep] at h
    split at h
    next f attempt c todo clean hpc =>
      cases h
      refine sends_update (m := m) rfl fun g a rest heq => ?_
      rw [Pc.commit.injEq] at heq
      obtain ⟨rfl, rfl, rfl, hboth⟩ := heq
      refine sends_cmd (fun hclean => hD f attempt (c :: todo) (by rw [hpc, hclean]))
        (fun hok hc => hx f ?_) hboth
      show xaddOf (World.effective (.cmd ok) (m.workers w).command) = some f
      rw [hok, hpc, hc]
      rfl
    · cases h
  | reply ok =>
    simp only [Matcher.workerStep] at h
    split at h
    · split at h
      · split at h <;> cases h
        exact sends_update (m := m) rfl (sends_of_not_carrying rfl)
      · split at h <;> cases h
        · exact sends_update (m := m) rfl (sends_start sent _ _)
        · refine sends_update (m := m) rfl fun g a rest heq => ?_
          cases heq
    · cases h

/-- **Step** of the retry thread. -/
theorem retryStep_sends {m m' : Matcher cfg Nat} {e : WorkerEvent} {sent : Formed Nat → Prop}
    (hD : m.retry.Sends sent) (hx : ∀ f, m.sends (.retry e) = some f → sent f)
    (h : m.retryStep e = some m') : m'.retry.Sends sent := by
  cases e with
  | run =>
    simp only [Matcher.retryStep, Matcher.retryRun] at h
    split at h
    · split at h <;> cases h
      · exact hD
      · intro q todo heq
        cases heq
        exact Or.inl (xaddSync_mem _)
    · cases h
    · cases h
      exact fun q todo heq => by cases heq
  | busy => cases h
  | cmd ok =>
    simp only [Matcher.retryStep] at h
    split at h
    next p c todo clean hpc =>
      cases h
      intro q rest heq
      rw [RetryPc.commit.injEq] at heq
      obtain ⟨rfl, rfl, hboth⟩ := heq
      refine sends_cmd (fun hclean => hD p (c :: todo) (by rw [hpc, hclean]))
        (fun hok hc => hx p.result ?_) hboth
      show xaddOf (World.effective (.cmd ok) m.retry.command) = some p.result
      rw [hok, hpc, hc]
      rfl
    · cases h
  | reply ok =>
    simp only [Matcher.retryStep] at h
    split at h
    · split at h
      · split at h <;> cases h
        exact fun q todo heq => by cases heq
      · cases h
        exact fun q todo heq => by cases heq
    · cases h

/-- **A match that is given an `Ok` was sent.** -/
theorem returned_sent {m m' : Matcher cfg Nat} {e : MatcherEvent cfg Nat} {f : Formed Nat}
    {sent : Formed Nat → Prop} (hD : m.Delivers sent) (h : m.step e = some m')
    (hn : m.note e m' = [.returnedOk f]) : sent f := by
  cases e with
  | enqueue id rating origin | counted | tick nanos => cases hn
  | worker w we =>
    cases we with
    | run =>
      change (m'.formed.drop m.formed.length).map _ = _ at hn
      cases hdrop : m'.formed.drop m.formed.length <;> rw [hdrop] at hn <;> cases hn
    | busy | cmd ok => cases hn
    | reply ok =>
      cases ok with
      | false => cases hn
      | true =>
        change (m.workers w).hand.map _ = _ at hn
        simp only [Matcher.step, Matcher.workerStep] at h
        split at h
        next g attempt todo clean hpc =>
          simp only [if_true] at h
          split at h
          next hdone =>
            have hsends := hD.workers w g attempt [] (by rw [hpc, hdone.1, hdone.2])
            rw [hpc] at hn
            cases hn
            exact hsends.resolve_left List.not_mem_nil
          next => cases h
        next => cases h
  | retry re =>
    cases re with
    | run | busy | cmd ok => cases hn
    | reply ok =>
      cases ok with
      | false => cases hn
      | true =>
        change m.retry.hand.map _ = _ at hn
        simp only [Matcher.step, Matcher.retryStep] at h
        split at h
        next p todo clean hpc =>
          simp only [if_true] at h
          split at h
          next hdone =>
            have hsends := hD.retry p [] (by rw [hpc, hdone.1, hdone.2])
            rw [hpc] at hn
            cases hn
            exact hsends.resolve_left List.not_mem_nil
          next => cases h
        next => cases h

/-- **Step** of the process: a match is in somebody's hands or was sent. -/
theorem step_delivers {m m' : Matcher cfg Nat} {e : MatcherEvent cfg Nat}
    {sent sent' : Formed Nat → Prop} (hI : Inv m) (hD : m.Delivers sent)
    (hsub : ∀ f, sent f → sent' f) (hx : ∀ f, m.sends e = some f → sent' f)
    (h : m.step e = some m') : m'.Delivers sent' := by
  have hD' := hD.mono hsub
  refine ⟨fun w => ?_, ?_, fun f hf => ?_⟩
  · by_cases hw : ∃ we, e = .worker w we
    · obtain ⟨we, rfl⟩ := hw
      exact workerStep_sends hI (hD'.workers w) hx h
    · rw [step_workers_of_ne (fun we he => hw ⟨we, he⟩) h]
      exact hD'.workers w
  · cases e with
    | retry re => exact retryStep_sends hD'.retry hx h
    | worker w we =>
      obtain ⟨pc, hm⟩ := workerStep_move (hI.wf w) hI.homed h
      rw [hm.retry]
      exact hD'.retry
    | enqueue id rating origin | counted | tick nanos =>
      simp only [Matcher.step, Option.some.injEq] at h
      subst h
      exact hD'.retry
  · cases (step_transfer hI h).outstanding with
    | still hu hf' _ =>
      rw [hf'] at hf
      rw [hu]
      exact hD'.formed f hf
    | formed hu hf' _ =>
      rw [hf'] at hf
      rw [hu, Multiset.mem_add]
      rcases List.mem_append.mp hf with hf | hf
      · exact (hD'.formed f hf).imp_left Or.inl
      · exact Or.inl (Or.inr (Multiset.mem_singleton.mpr (List.mem_singleton.mp hf)))
    | returned hu hf' hn =>
      rw [hf'] at hf
      rcases hD'.formed f hf with hmem | hsent
      · rw [hu] at hmem
        rcases Multiset.mem_add.mp hmem with hmem | hmem
        · exact Or.inl hmem
        · rw [Multiset.mem_singleton.mp hmem]
          exact Or.inr (returned_sent hD' h hn)
      · exact Or.inr hsent

/-! ## On the sync stream -/

/-- The poller reads the stream and never writes it. -/
theorem Writer.pollerStep_stream {s t : Writer} {e : PollerStep} (h : s.pollerStep e = some t) :
    t.stream = s.stream := by
  have hdeliver : ∀ link, (s.deliver link).stream = s.stream := by
    intro link
    unfold Writer.deliver
    split <;> rfl
  cases e with
  | insert pg =>
    simp only [Writer.pollerStep] at h
    split at h
    · split at h <;> simp only [Option.some.injEq] at h <;> subst h <;> rfl
    · cases h
  | ensure link | ack link =>
    simp only [Writer.pollerStep] at h
    split at h <;> simp only [Option.some.injEq, reduceCtorEq] at h
    subst h
    rfl
  | read link =>
    simp only [Writer.pollerStep] at h
    split at h <;> simp only [Option.some.injEq, reduceCtorEq] at h <;> subst h
    · rfl
    · exact hdeliver link

namespace World

/-- The match was appended to the sync stream behind `base`. -/
def Landed (s : World cfg) (base : Nat) (f : Formed Nat) : Prop :=
  ∃ i, base < i ∧ (i, some f.result) ∈ s.writer.stream.numbered

/-- The matches of this process are in somebody's hands or behind `base`. -/
structure Tracks (base : Nat) (s : World cfg) : Prop where
  sound : Sound s.toCore
  base_le : base ≤ s.writer.stream.lastId
  delivers : s.mem.Delivers (s.Landed base)

end World

/-- What a step does to the sync stream, as far as `Landed` goes. -/
theorem step_landed {s s' : World cfg} {e : WorldEvent cfg} {base : Nat}
    (hbase : base ≤ s.writer.stream.lastId) (h : s.step e = some s') :
    base ≤ s'.writer.stream.lastId ∧ (∀ f, s.Landed base f → s'.Landed base f) ∧
      ∀ f, s.appends e = some f → s'.Landed base f := by
  have hsame : s'.writer.stream = s.writer.stream → s.appends e = none →
      base ≤ s'.writer.stream.lastId ∧ (∀ f, s.Landed base f → s'.Landed base f) ∧
        ∀ f, s.appends e = some f → s'.Landed base f := by
    intro hs hnone
    unfold World.Landed
    rw [hs, hnone]
    exact ⟨hbase, fun _ hf => hf, fun _ hf => by cases hf⟩
  cases step_sync h with
  | @append f hf _ hw =>
    unfold World.Landed
    rw [hw]
    show _ ≤ (s.writer.stream.append (some f.result)).lastId ∧
      (∀ g, _ → ∃ i, _ ∧ _ ∈ (s.writer.stream.append (some f.result)).numbered) ∧
        ∀ g, _ → ∃ i, _ ∧ _ ∈ (s.writer.stream.append (some f.result)).numbered
    rw [Log.lastId_append, Log.numbered_append]
    refine ⟨Nat.le_succ_of_le hbase, fun g ⟨i, hi, hmem⟩ => ⟨i, hi, List.mem_append_left _ hmem⟩,
      fun g hg => ⟨s.writer.stream.lastId + 1, Nat.lt_succ_of_le hbase, ?_⟩⟩
    rw [hf, Option.some.injEq] at hg
    rw [hg]
    exact List.mem_append_right _ List.mem_cons_self
  | poller hf _ hw => exact hsame (Writer.pollerStep_stream hw) hf
  | still hf _ hs _ => exact hsame hs hf

/-- What a process boots with is a pool; its threads are where they start. -/
theorem restorePlayers_threads (players : List (Player Nat)) (m : Matcher cfg Nat) :
    (restorePlayers m players).workers = m.workers ∧
      (restorePlayers m players).retry = m.retry ∧
        (restorePlayers m players).formed = m.formed := by
  induction players generalizing m with
  | nil => exact ⟨rfl, rfl, rfl⟩
  | cons q players ih => exact ih (m.enqueue q.id q.rating q.origin)

theorem restart_delivers (s : World cfg) (sent : Formed Nat → Prop) :
    s.restart.mem.Delivers sent := by
  obtain ⟨hw, hr, hf⟩ :=
    restorePlayers_threads s.recovered.1 (Matcher.init cfg Nat s.mem.now)
  have hmem : s.restart.mem
      = (restorePlayers (Matcher.init cfg Nat s.mem.now) s.recovered.1).count
        (UInt64.ofNat s.recovered.1.length) := rfl
  rw [hmem]
  refine ⟨fun w => ?_, ?_, fun f hmem => ?_⟩
  · show ((restorePlayers _ _).workers w).Sends sent
    rw [hw]
    exact sends_of_not_carrying rfl
  · show (restorePlayers _ _).retry.Sends sent
    rw [hr]
    exact fun p todo heq => by cases heq
  · change f ∈ (restorePlayers _ _).formed at hmem
    rw [hf] at hmem
    cases hmem

theorem Drives.sends {s : World cfg} {e : WorldEvent cfg} {me : MatcherEvent cfg Nat}
    (h : Drives e me) : s.mem.sends me = s.appends e := by
  cases h <;> rfl

/-- **Every effect**: a formed match is held until it is sent. -/
theorem Effect.delivers {s : World cfg} {e : WorldEvent cfg} {c : Core cfg}
    {sent sent' : Formed Nat → Prop} (hI : Inv s.mem) (hD : s.mem.Delivers sent)
    (hsub : ∀ f, sent f → sent' f) (hx : ∀ f, s.appends e = some f → sent' f)
    (h : Effect s e c) : c.mem.Delivers sent' := by
  have hprocess : ∀ {me mem}, Drives e me → s.mem.step me = some mem → mem.Delivers sent' :=
    fun hd hstep => step_delivers hI hD hsub (fun f hf => hx f (hd.sends ▸ hf)) hstep
  cases h with
  | process hd hstep => exact hprocess hd hstep
  | publish hd hstep _ => exact hprocess hd hstep
  | @ingest _ _ call _ =>
    by_cases hcall : call = .none
    · subst hcall
      exact hD.mono hsub
    · -- the ingestion thread sends nothing
      cases call with
      | none => exact absurd rfl hcall
      | enqueue ev =>
        have hstep : s.mem.step (.enqueue ev.2.id ev.2.poolRating ev.1)
            = some (s.mem.apply (.enqueue ev)) := rfl
        exact step_delivers hI hD hsub (fun _ hf => by cases hf) hstep
      | counted =>
        have hstep : s.mem.step .counted = some (s.mem.apply .counted) := rfl
        exact step_delivers hI hD hsub (fun _ hf => by cases hf) hstep
  | restart => exact restart_delivers s sent'
  | _ => exact hD.mono hsub

/-- **Step** of the service. -/
theorem step_tracks {s s' : World cfg} {e : WorldEvent cfg} {base : Nat} (hT : s.Tracks base)
    (h : s.step e = some s') : s'.Tracks base := by
  obtain ⟨hbase, hsub, hx⟩ := step_landed hT.base_le h
  exact ⟨step_sound hT.sound h, hbase,
    (step_effect hT.sound.founded h).delivers hT.sound.inv hT.delivers hsub hx⟩

/-! ## The result -/

/-- The write-behind of a run that starts anywhere. -/
theorem writer_run_from {s t : World cfg} (hS : Sound s.toCore)
    (h : Lts.Run World.step Lts.Free s t) :
    Lts.Run Writer.step Lts.Free s.writer t.writer := by
  refine h.map (I := fun s => Sound s.toCore) World.writer (fun hS _ hs => step_sound hS hs)
    (fun hS _ hs => ?_) hS
  rcases step_writer hS.founded hs with heq | ⟨ev, _, hstep⟩
  · rw [heq]
    exact .refl
  · exact .single trivial hstep

/-- Where the match is once it has been appended to the sync stream: still to be handed
to the poller, handed out and not acknowledged, or in the tables as `Db.Keeps` says, with a
row under its id and its ten player rows. -/
def World.Accounts (s : World cfg) (g : SyncGroup) (i : Nat) (r : MatchResult) : Prop :=
  (i, some r) ∈ s.writer.stream.after g.delivered ∨ (i, some r) ∈ g.pending ∨
    s.writer.db.Keeps r.item

/-- **No match is lost on the way to the tables.** From the boot of a process on a Redis
that has the consumer group, through any crashes and failures after it: a match on the sync
stream that the group had not handed out then, or had pending, is accounted for; and so is
every match the current process has formed, unless one of its threads or the retry queue
still has it. -/
theorem formed_matches_accounted {r s : World cfg} {g₀ : SyncGroup}
    (hr : Lts.Run World.step Lts.Free (World.init cfg) r) (hg : r.writer.group = some g₀)
    (h : Lts.Run World.step Lts.Free r.restart s) :
    ∃ g, s.writer.group = some g ∧
      (∀ i m, (i, some m) ∈ s.writer.stream.numbered →
        (g₀.delivered < i ∨ (i, some m) ∈ g₀.pending) → s.Accounts g i m) ∧
      ∀ f ∈ s.mem.formed, f ∈ unwritten s.mem ∨
        ∃ i, (i, some f.result) ∈ s.writer.stream.numbered ∧ s.Accounts g i f.result := by
  have htraced : r.writer.Traced :=
    (writer_run hr).inv (fun hs _ hstep => Writer.step_traced hs hstep) Writer.init_traced
  have hboot : World.step r .restart = some r.restart := rfl
  have hS : Sound r.restart.toCore :=
    step_sound (hr.inv (I := fun s => Sound s.toCore) (fun hS _ hs => step_sound hS hs) init_sound)
      hboot
  have hcrash : r.restart.writer.Traced := Writer.step_traced (e := .crash) htraced rfl
  obtain ⟨g, hgroup, hall⟩ := Writer.run_accounted hcrash hg
    (writer_run_from hS h)
  have htracks : s.Tracks r.writer.stream.lastId :=
    h.inv (I := fun s => s.Tracks r.writer.stream.lastId) (fun hT _ hs => step_tracks hT hs)
      ⟨hS, Nat.le_refl _, restart_delivers r _⟩
  refine ⟨g, hgroup, fun i m hmem hfol => hall i m hmem hfol, fun f hf => ?_⟩
  refine (htracks.delivers.formed f hf).imp_right fun ⟨i, hi, hmem⟩ => ⟨i, hmem, ?_⟩
  exact hall i f.result hmem (Or.inl ((htraced.delivered_le g₀ hg).trans_lt hi))

/-- A process that found the group of the one before it: its match is stored. -/
theorem formed_matches_accounted_stored :
    ∃ (s : World Config.small) (g : SyncGroup), s.writer.db.matchRows.length = 1 ∧
      s.mem.formed.length = 1 ∧ s.writer.group = some g ∧
      ∀ f ∈ s.mem.formed, f ∈ unwritten s.mem ∨
        ∃ i, (i, some f.result) ∈ s.writer.stream.numbered ∧ s.Accounts g i f.result := by
  have hexec : (Lts.exec World.step (fun _ _ => true) (World.init Config.small) startPoller).any
      (fun r => r.writer.group.isSome ∧
        (Lts.exec World.step (fun _ _ => true) r.restart
          (playMatch (fun i => Int64.ofNat (i + 1)))).any
          (fun s => s.writer.db.matchRows.length = 1 ∧ s.mem.formed.length = 1)) = true := by
    decide +kernel
  obtain ⟨r, hr, htest⟩ := Lts.exists_run_of_exec hexec
  obtain ⟨hsome, hexec'⟩ := of_decide_eq_true htest
  obtain ⟨g₀, hg⟩ := Option.isSome_iff_exists.mp hsome
  obtain ⟨s, hs, hdone⟩ := Lts.exists_run_of_exec hexec'
  obtain ⟨hrows, hformed⟩ := of_decide_eq_true hdone
  obtain ⟨g, hgroup, _, hall⟩ := formed_matches_accounted hr.free hg hs.free
  exact ⟨s, g, hrows, hformed, hgroup, hall⟩

end Supermatchmaker
