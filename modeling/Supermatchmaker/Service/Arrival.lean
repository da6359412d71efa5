import Supermatchmaker.Lib.Lts
import Supermatchmaker.Service.Effects
import Supermatchmaker.Sync.Retry

/-!
# Commits and the consumer group

`main` spawns the match threads and the retry thread and calls
`ensure_sync_group` afterwards, ignoring its result. The group is created with
`"$"`, behind whatever is on the stream by then: a match that was committed
earlier is in the stream and no `">"` read will ever return it.

A run starts where the process boots, on any Redis and any snapshot, and records
the entries that were handed to the consumer (`World.handed`). What was appended
since is handed or to be handed exactly as long as each `XADD` finds the group
there (`arriving_iff_listening`).
-/

namespace Supermatchmaker

variable {cfg : Config}

/-! ## The stream and the group -/

/-- Every entry since `base` was handed to the consumer, or the group has it
ahead. -/
def Arriving (base : Nat) (s : Writer) (handed : List Nat) : Prop :=
  ∀ x ∈ s.stream.numbered, base < x.1 →
    x.1 ∈ handed ∨ ∃ g ∈ s.group, x ∈ s.stream.after g.delivered

/-- The next entry lies ahead of the group. -/
def Writer.Ready (s : Writer) : Prop := ∃ g ∈ s.group, g.delivered ≤ s.stream.lastId

instance (s : Writer) : Decidable s.Ready :=
  decidable_of_iff (s.group.any (fun g => g.delivered ≤ s.stream.lastId) = true) <| by
    unfold Writer.Ready
    cases s.group <;> simp

/-- `Arriving`, and neither the ids handed out nor `base` are beyond the end of the stream. -/
structure Arrivals (base : Nat) (s : Writer) (handed : List Nat) : Prop where
  arriving : Arriving base s handed
  handed_le : ∀ n ∈ handed, n ≤ s.stream.lastId
  base_le : base ≤ s.stream.lastId

/-- **An append** arrives exactly when the group is there and not past it. -/
theorem Arrivals.append {base : Nat} {s : Writer} {handed : List Nat} (h : Arrivals base s handed)
    (payload : Option MatchResult) :
    Arriving base { s with stream := s.stream.append payload } handed ↔ s.Ready := by
  have hnew : (s.stream.lastId + 1, payload) ∈ (s.stream.append payload).numbered := by
    rw [Log.numbered_append]
    exact List.mem_append_right _ List.mem_cons_self
  constructor
  · intro harr
    rcases harr _ hnew (Nat.lt_succ_of_le h.base_le) with hmem | ⟨g, hg, hmem⟩
    · -- what was handed out was on the stream already
      have := h.handed_le _ hmem
      omega
    · exact ⟨g, hg, Nat.le_of_lt_succ ((s.stream.append payload).lt_of_mem_after hmem).1⟩
  · rintro ⟨g, hg, hle⟩ x hx hbase
    have hafter := s.stream.after_append hle payload
    change x ∈ (s.stream.append payload).numbered at hx
    rw [Log.numbered_append] at hx
    rcases List.mem_append.mp hx with hx | hx
    · rcases h.arriving x hx hbase with hmem | ⟨g', hg', hmem⟩
      · exact Or.inl hmem
      · have heq : g' = g := Option.some.inj (hg'.symm.trans hg)
        right
        refine ⟨g, hg, ?_⟩
        show x ∈ (s.stream.append payload).after g.delivered
        rw [hafter]
        exact List.mem_append_left _ (heq ▸ hmem)
    · right
      refine ⟨g, hg, ?_⟩
      show x ∈ (s.stream.append payload).after g.delivered
      rw [hafter]
      exact List.mem_append_right _ hx

/-- The ids that a step of the poller hands to the consumer. -/
def Writer.hands (s : Writer) : PollerStep → List Nat
  | .read link => if s.pc = .loop ∧ link ≠ .down then s.fresh.map Prod.fst else []
  | _ => []

/-- A step of the poller that leaves the group's position alone. -/
theorem Arrivals.still {base : Nat} {s t : Writer} {handed : List Nat} (h : Arrivals base s handed)
    (hs : t.stream = s.stream)
    (hg : ∀ g ∈ s.group, ∃ g' ∈ t.group, g'.delivered = g.delivered) : Arrivals base t handed := by
  refine ⟨fun x hx hbase => ?_, by rw [hs]; exact h.handed_le, by rw [hs]; exact h.base_le⟩
  rw [hs] at hx ⊢
  rcases h.arriving x hx hbase with hmem | ⟨g, hmemg, hmem⟩
  · exact Or.inl hmem
  · obtain ⟨g', hg', heq⟩ := hg g hmemg
    exact Or.inr ⟨g', hg', by rw [heq]; exact hmem⟩

/-- **A delivery**: what leaves the stream for the consumer is handed to it. -/
theorem Arrivals.deliver {base : Nat} {s : Writer} {handed : List Nat} (h : Arrivals base s handed)
    {link : Link} (hlink : link ≠ .down) :
    Arrivals base (s.deliver link) (handed ++ s.fresh.map Prod.fst) := by
  rw [s.deliver_eq hlink]
  refine ⟨fun x hx hbase => ?_, fun n hn => ?_, h.base_le⟩
  · rcases h.arriving x hx hbase with hmem | ⟨g, hg, hmem⟩
    · exact Or.inl (List.mem_append_left _ hmem)
    · rw [Option.mem_def] at hg
      rcases g.mem_after_deliver s.stream 50 hmem with hnow | hlater
      · left
        refine List.mem_append_right _ (List.mem_map_of_mem ?_)
        unfold Writer.fresh
        rw [hg]
        exact hnow
      · right
        refine ⟨g.deliver s.stream 50, ?_, hlater⟩
        show s.group.map _ = _
        rw [hg]
        rfl
  · rcases List.mem_append.mp hn with hn | hn
    · exact h.handed_le n hn
    · obtain ⟨x, hx, rfl⟩ := List.mem_map.mp hn
      unfold Writer.fresh at hx
      cases hg : s.group with
      | none =>
        rw [hg] at hx
        cases hx
      | some g =>
        rw [hg] at hx
        exact (s.stream.lt_of_mem_after (List.mem_of_mem_take hx)).2

/-- The poller takes from the front of what the group has not seen. -/
theorem Arrivals.poller {base : Nat} {s t : Writer} {handed : List Nat} {e : PollerStep}
    (h : Arrivals base s handed) (hstep : s.pollerStep e = some t) :
    Arrivals base t (handed ++ s.hands e) := by
  have hsame : ∀ g ∈ s.group, ∃ g' ∈ s.group, g'.delivered = g.delivered := fun g hg => ⟨g, hg, rfl⟩
  cases e with
  | ensure link =>
    show Arrivals base t (handed ++ [])
    rw [List.append_nil]
    simp only [Writer.pollerStep] at hstep
    split at hstep <;> simp only [Option.some.injEq, reduceCtorEq] at hstep
    subst hstep
    refine h.still rfl fun g hg => ⟨g, ?_, rfl⟩
    -- a group that exists is left alone
    rw [Option.mem_def] at hg ⊢
    show (if link = .down then s.group else s.group.or _) = some g
    rw [hg]
    split <;> rfl
  | read link =>
    simp only [Writer.pollerStep] at hstep
    split at hstep <;> simp only [Option.some.injEq, reduceCtorEq] at hstep
    next hpc =>
      subst hstep
      have hnone : s.hands (.read link) = [] := if_neg fun hloop => by
        rw [hpc] at hloop
        cases hloop.1
      rw [hnone, List.append_nil]
      exact h.still rfl hsame
    next hpc =>
      subst hstep
      by_cases hdown : link = .down
      · have hnone : s.hands (.read link) = [] := if_neg fun hloop => hloop.2 hdown
        rw [hnone, List.append_nil, hdown, s.deliver_down]
        exact h.still rfl hsame
      · have hhands : s.hands (.read link) = s.fresh.map Prod.fst := if_pos ⟨hpc, hdown⟩
        rw [hhands]
        exact (h.deliver hdown).still rfl fun g hg => ⟨g, hg, rfl⟩
  | insert pg =>
    show Arrivals base t (handed ++ [])
    rw [List.append_nil]
    simp only [Writer.pollerStep] at hstep
    split at hstep
    · split at hstep <;> simp only [Option.some.injEq] at hstep <;> subst hstep <;>
        exact h.still rfl hsame
    · cases hstep
  | ack link =>
    show Arrivals base t (handed ++ [])
    rw [List.append_nil]
    simp only [Writer.pollerStep] at hstep
    split at hstep <;> simp only [Option.some.injEq, reduceCtorEq] at hstep
    next batch _ =>
      subst hstep
      refine h.still rfl fun g hg => ⟨ackSync link batch g, ?_, ?_⟩
      · rw [Option.mem_def] at hg ⊢
        show s.group.map _ = _
        rw [hg]
        rfl
      · unfold ackSync
        split <;> rfl

/-! ## Within the service -/

/-- The match whose `XADD` on the sync stream a command is. -/
def xaddOf : Option (Formed Nat × Command Nat) → Option (Formed Nat)
  | some (_, .xaddSync f) => some f
  | _ => none

namespace World

variable (s : World cfg)

/-- The match that Redis appends to the sync stream in the step. -/
def appends : WorldEvent cfg → Option (Formed Nat)
  | .worker w e => xaddOf (effective e (s.mem.workers w).command)
  | .retry e => xaddOf (effective e s.mem.retry.command)
  | _ => none

/-- The ids handed to the consumer in the step. -/
def handed : WorldEvent cfg → World cfg → List Nat
  | .poller e, _ => s.writer.hands e
  | _, _ => []

/-- A match is only appended while the group is there to see it. -/
def Listening (e : WorldEvent cfg) : Prop := s.appends e = none ∨ s.writer.Ready

instance (e : WorldEvent cfg) : Decidable (s.Listening e) :=
  decidable_of_iff ((s.appends e).isNone = true ∨ s.writer.Ready) <| by
    unfold Listening
    rw [Option.isNone_iff_eq_none]

/-- Of the commands of a commit only the `XADD` reaches the sync stream, with its match. -/
theorem execute_writer (c : Option (Formed Nat × Command Nat)) :
    (∃ f, xaddOf c = some f ∧
      (s.execute c).writer = { s.writer with stream := s.writer.stream.append (some f.result) }) ∨
    (xaddOf c = none ∧ (s.execute c).writer = s.writer) := by
  match c with
  | none => exact .inr ⟨rfl, rfl⟩
  | some (_, .setStatus _ _) => exact .inr ⟨rfl, rfl⟩
  | some (_, .xaddSync f) => exact .inl ⟨f, rfl, rfl⟩

end World

/-- What a step does to the sync stream and its group. -/
inductive SyncMove (s : World cfg) (e : WorldEvent cfg) (s' : World cfg) : Prop
  | append {f : Formed Nat} (hf : s.appends e = some f) (hn : s.handed e s' = [])
      (hw : s'.writer = { s.writer with stream := s.writer.stream.append (some f.result) })
  | poller {pe : PollerStep} (hf : s.appends e = none) (hn : s.handed e s' = s.writer.hands pe)
      (hw : s.writer.pollerStep pe = some s'.writer)
  | still (hf : s.appends e = none) (hn : s.handed e s' = [])
      (hs : s'.writer.stream = s.writer.stream) (hg : s'.writer.group = s.writer.group)

/-- **Every step**, by what it does to the sync stream. -/
theorem step_sync {s s' : World cfg} {e : WorldEvent cfg} (h : s.step e = some s') :
    SyncMove s e s' := by
  cases e with
  | worker w we =>
    simp only [World.step, Option.map_eq_some_iff] at h
    obtain ⟨mem, _, rfl⟩ := h
    rcases s.execute_writer (World.effective we (s.mem.workers w).command) with
      ⟨f, hf, hw⟩ | ⟨hf, hw⟩
    · exact .append hf rfl hw
    · exact .still hf rfl (congrArg Writer.stream hw) (congrArg Writer.group hw)
  | retry we =>
    simp only [World.step, Option.map_eq_some_iff] at h
    obtain ⟨mem, _, rfl⟩ := h
    rcases s.execute_writer (World.effective we s.mem.retry.command) with ⟨f, hf, hw⟩ | ⟨hf, hw⟩
    · exact .append hf rfl hw
    · exact .still hf rfl (congrArg Writer.stream hw) (congrArg Writer.group hw)
  | poller pe =>
    simp only [World.step, Option.map_eq_some_iff] at h
    obtain ⟨writer, hstep, rfl⟩ := h
    exact .poller rfl rfl hstep
  | call c link =>
    have hw := (callStep_move h).writer
    exact .still rfl rfl (congrArg Writer.stream hw) (congrArg Writer.group hw)
  | snapshot se =>
    have hw := (snapStep_frame h).2.2
    exact .still rfl rfl (congrArg Writer.stream hw) (congrArg Writer.group hw)
  | ingest ie =>
    simp only [World.step, Option.map_eq_some_iff] at h
    obtain ⟨⟨ingest, call⟩, _, rfl⟩ := h
    exact .still rfl rfl rfl rfl
  | signup rating | request user | endMatch matchId pg | expireStatus user | expirePlayer user
  | tick nanos | restart =>
    simp only [World.step, Option.some.injEq] at h
    subst h
    exact .still rfl rfl rfl rfl

/-- **Step**: what arrives keeps arriving, and a new match does exactly when the
group is there. -/
theorem step_arrivals {base : Nat} {s t : World cfg × List Nat} {e : WorldEvent cfg}
    (h : Arrivals base s.1.writer s.2) (hs : Lts.record World.step World.handed s e = some t) :
    (Arriving base t.1.writer t.2 ↔ s.1.Listening e) ∧
      (s.1.Listening e → Arrivals base t.1.writer t.2) := by
  obtain ⟨hstep, hlog⟩ := Lts.record_eq_some.mp hs
  rw [hlog]
  cases step_sync hstep with
  | @append f hf hn hw =>
    have happend := h.append (some f.result)
    rw [← hw] at happend
    have hlistening : s.1.Listening e ↔ s.1.writer.Ready := by
      unfold World.Listening
      rw [hf]
      exact ⟨fun h => h.resolve_left nofun, Or.inr⟩
    rw [hn, List.append_nil, happend, hlistening]
    refine ⟨Iff.rfl, fun hready => ⟨happend.mpr hready, fun n hn => ?_, ?_⟩⟩
    · have hle := h.handed_le n hn
      rw [hw]
      show n ≤ (s.1.writer.stream.append _).lastId
      rw [Log.lastId_append]
      omega
    · have hle := h.base_le
      rw [hw]
      show base ≤ (s.1.writer.stream.append _).lastId
      rw [Log.lastId_append]
      omega
  | poller hf hn hw =>
    rw [hn]
    have hnext := h.poller hw
    exact ⟨iff_of_true hnext.arriving (Or.inl hf), fun _ => hnext⟩
  | still hf hn hs hg =>
    rw [hn, List.append_nil]
    have hnext : Arrivals base t.1.writer s.2 :=
      h.still hs fun g hmem => ⟨g, by rw [hg]; exact hmem, rfl⟩
    exact ⟨iff_of_true hnext.arriving (Or.inl hf), fun _ => hnext⟩

/-- **Arrival**, from the boot of a process on any Redis, tables and snapshots: in
a run that appends matches only while the group is there, every match appended
was handed to the consumer or is ahead of the group, and from there the next step
breaks this exactly when it appends one that the group will not see. -/
theorem arriving_iff_listening (s₀ : World cfg) {s : World cfg × List Nat}
    (h : Lts.Run (Lts.record World.step World.handed) (fun s e => s.1.Listening e)
      (s₀.restart, []) s) :
    Arriving s₀.writer.stream.lastId s.1.writer s.2 ∧
      ∀ e t, Lts.record World.step World.handed s e = some t →
        (Arriving s₀.writer.stream.lastId t.1.writer t.2 ↔ s.1.Listening e) := by
  have hstart : Arrivals s₀.writer.stream.lastId s₀.restart.writer [] := by
    refine ⟨fun x hx hbase => ?_, nofun, Nat.le_refl _⟩
    change x ∈ s₀.writer.stream.numbered at hx
    obtain ⟨i, hi, rfl⟩ := List.getElem_of_mem hx
    rw [Log.getElem_numbered] at hbase
    rw [Log.length_numbered] at hi
    omega
  have harrivals : Arrivals s₀.writer.stream.lastId s.1.writer s.2 :=
    h.inv (I := fun s => Arrivals s₀.writer.stream.lastId s.1.writer s.2)
      (fun ha hg hs => (step_arrivals ha hs).2 hg) hstart
  exact ⟨harrivals.arriving, fun e t hs => (step_arrivals harrivals hs).1⟩

/-- The group is created first; then a match is formed, committed and handed out. -/
theorem arriving_iff_listening_first :
    ∃ s : World Config.small × List Nat, s.2 = [1] ∧
      Arriving (World.init Config.small).writer.stream.lastId s.1.writer s.2 ∧
      ∀ e t, Lts.record World.step World.handed s e = some t →
        (Arriving (World.init Config.small).writer.stream.lastId t.1.writer t.2 ↔
          s.1.Listening e) := by
  have hexec : (Lts.exec (Lts.record World.step World.handed) (fun s e => s.1.Listening e)
      ((World.init Config.small).restart, [])
      ([.poller (.ensure .up), .poller (.read .up)] ++ tenArrive (fun i => Int64.ofNat (i + 1))
        ++ formMatch ++ sendCommit ++ [.poller (.read .up)])).any
      (fun s => s.2 = [1]) = true := by decide +kernel
  obtain ⟨s, hrun, hone⟩ := Lts.exists_run_of_exec hexec
  exact ⟨s, of_decide_eq_true hone,
    arriving_iff_listening (World.init Config.small) (hrun.mono of_decide_eq_true)⟩

/-- Ten players in the newest snapshot, and a Redis without the group. -/
def tenRestored : World Config.small :=
  { World.init Config.small with
    disk := [⟨some 0, (List.range 10).map fun i => ⟨Int64.ofNat (i + 1), 1500, 0, i, 0⟩, [], 0⟩] }

/-- A match thread commits their match before `main` gets to `ensure_sync_group`;
neither pass of the poller returns it. -/
theorem arriving_fails :
    ¬ ∀ cfg, ∀ s₀ : World cfg, ∀ s, Lts.Run (Lts.record World.step World.handed) Lts.Free
      (s₀.restart, []) s → Arriving s₀.writer.stream.lastId s.1.writer s.2 := by
  intro hclaim
  have hexec : (Lts.exec (Lts.record World.step World.handed) (fun _ _ => true)
      (tenRestored.restart, [])
      (formMatch ++ sendCommit ++ [.poller (.ensure .up), .poller (.read .up),
        .poller (.read .up)])).any
      (fun s => s.2 = [] ∧ s.1.writer.stream.lastId = 1 ∧
        (s.1.writer.group.map (·.delivered)) = some 1) = true := by decide +kernel
  obtain ⟨s, hrun, htest⟩ := Lts.exists_run_of_exec hexec
  obtain ⟨hnone, hlast, hgroup⟩ := of_decide_eq_true htest
  have hlen : 0 < s.1.writer.stream.numbered.length := by
    rw [Log.length_numbered, hlast]
    exact Nat.one_pos
  have hid := s.1.writer.stream.getElem_numbered hlen
  have harr := hclaim Config.small tenRestored s hrun.free _ (List.getElem_mem hlen) (by
    rw [hid]
    exact Nat.one_pos)
  rcases harr with hmem | ⟨g, hg, hmem⟩
  · rw [hnone] at hmem
    cases hmem
  · rw [Option.mem_def] at hg
    rw [hg, Option.map_some, Option.some.injEq] at hgroup
    have hlt := (s.1.writer.stream.lt_of_mem_after hmem).1
    omega

end Supermatchmaker
