import Supermatchmaker.Matcher.Worker

/-!
# What a step can do to the entries

Every invariant about queue entries needs the same fact: which entries a step
moves, and from where to where. It is stated here once, as an inversion of
`Matcher.step`, and no other module unfolds the step function for it:

- `Delta` says what one step of a match thread does to the buckets, to the
  entries the thread holds (`Pc.held`) and to the matches formed: nothing,
  a pop of a prefix of one bucket, a push to the front of one bucket, or a
  formed match (`workerStep_move`);
- `Change` lifts it to any step of the process (`step_change`).

`Pc.Wf` is the invariant of the local variables that the inversion rests on:
`taken` never exceeds ten and pairs each player with the bucket its rating maps
to. Without it `harvest` could return `None` from its final `try_into` and drop
the players.
-/

namespace Supermatchmaker

variable {cfg : Config} {τ : Type}

/-! ## Local variables -/

/-- The pop loop takes a prefix of the queue, up to ten players in all. -/
theorem popUntilTen_spec {β : Type} (bi : β) :
    ∀ (q : List (Player τ)) (taken : List (β × Player τ)),
      ∃ popped, q = popped ++ (popUntilTen bi q taken).1 ∧
        (popUntilTen bi q taken).2 = taken ++ popped.map (bi, ·) ∧
        (taken.length ≤ 10 → (popUntilTen bi q taken).2.length ≤ 10)
  | [], taken => ⟨[], rfl, by simp [popUntilTen], fun h => h⟩
  | p :: q, taken => by
    unfold popUntilTen
    split
    next hlt =>
      obtain ⟨popped, hq, ht, hlen⟩ := popUntilTen_spec bi q (taken ++ [(bi, p)])
      refine ⟨p :: popped, congrArg (List.cons p) hq, by simp [ht], fun _ => hlen ?_⟩
      rw [List.length_append]
      exact hlt
    next => exact ⟨[], rfl, by simp, fun h => h⟩

/-- The entries a match thread holds outside every bucket. -/
def Pc.held : Pc cfg τ → List (Player τ)
  | .drain _ _ _ taken => taken.map Prod.snd
  | .rollback todo => todo.map Prod.snd
  | .gate g => g.toList
  | .giveBack todo => todo
  | _ => []

/-- The same entries in the order in which they lie once they are back in front
of their buckets. -/
def Pc.inOrder : Pc cfg τ → List (Player τ)
  | .drain _ _ _ taken => taken.map Prod.snd
  | .rollback todo => (todo.map Prod.snd).reverse
  | .gate g => g.toList
  | .giveBack todo => todo.reverse
  | _ => []

theorem Pc.held_perm (pc : Pc cfg τ) : pc.held.Perm pc.inOrder := by
  cases pc with
  | rollback todo => exact (List.reverse_perm _).symm
  | giveBack todo => exact (List.reverse_perm _).symm
  | _ => exact List.Perm.refl _

/-- A rollback goes over the reversed list, so its order is that of taking. -/
theorem Pc.inOrder_rollback (taken : List (Fin cfg.numBuckets × Player τ)) :
    (Pc.rollback taken.reverse).inOrder = taken.map Prod.snd := by
  show (taken.reverse.map Prod.snd).reverse = taken.map Prod.snd
  rw [List.map_reverse, List.reverse_reverse]

/-- The entry that the next step puts in front of its bucket. -/
def Pc.puts : Pc cfg τ → Option (Fin cfg.numBuckets × Player τ)
  | .rollback (bp :: _) => some bp
  | .giveBack (p :: _) => some (bucketIndex cfg p.rating, p)
  | _ => none

/-- `taken` has at most ten entries, each with its home bucket. -/
def Pc.Wf : Pc cfg τ → Prop
  | .drain _ _ _ taken => taken.length ≤ 10 ∧ ∀ bp ∈ taken, bucketIndex cfg bp.2.rating = bp.1
  | .rollback todo => ∀ bp ∈ todo, bucketIndex cfg bp.2.rating = bp.1
  | _ => True

/-! ## A step of a match thread -/

/-- A thread that stands here has a group that passes the tolerance gate. -/
def Matcher.Admits (m : Matcher cfg τ) : Pc cfg τ → Prop
  | .gate g => (optimizeSplit g m.nextMatchId).2 ≤ maxTeamGap (m.anchorWait g)
  | _ => False

instance (m : Matcher cfg τ) (pc : Pc cfg τ) : Decidable (m.Admits pc) :=
  match pc with
  | .gate g =>
    inferInstanceAs (Decidable ((optimizeSplit g m.nextMatchId).2 ≤ maxTeamGap (m.anchorWait g)))
  | .idle | .density .. | .peek .. | .drain .. | .rollback _ | .giveBack _ | .commit ..
  | .defer _ =>
    .isFalse id

/-- Only a thread at the gate has a group. -/
theorem Matcher.not_admits {m : Matcher cfg τ} {pc : Pc cfg τ} (h : ∀ g, pc ≠ .gate g) :
    ¬ m.Admits pc := by
  cases pc with
  | gate g => exact absurd rfl (h g)
  | _ => exact id

/-- A group that passes the gate is a match. -/
theorem Matcher.step_admits {m : Matcher cfg τ} {w : Fin cfg.numWorkers} {g : MatchGroup τ}
    (hgate : m.workers w = .gate g) (hpass : m.Admits (.gate g)) :
    ∃ m' f, m.step (.worker w .run) = some m' ∧ m'.formed = m.formed ++ [f] ∧
      m'.workers w = .commit f 1 (commitMatch f) true := by
  have hle : (optimizeSplit g m.nextMatchId).2 ≤ maxTeamGap (m.anchorWait g) := hpass
  refine ⟨m.gateStep w g, ⟨(optimizeSplit g m.nextMatchId).1, g, m.drawn⟩, ?_, ?_, ?_⟩
  · show m.workerRun w = _
    unfold Matcher.workerRun
    rw [hgate]
  · simp only [Matcher.gateStep]
    rw [if_pos hle]
    rfl
  · simp only [Matcher.gateStep]
    rw [if_pos hle]
    exact Function.update_self ..

/-- What the step of thread `w` to `pc` does to the entries. -/
inductive Delta (m : Matcher cfg τ) (w : Fin cfg.numWorkers) (pc : Pc cfg τ)
    (m' : Matcher cfg τ) : Prop
  | keep (hb : m'.buckets = m.buckets) (hf : m'.formed = m.formed)
      (ho : pc.inOrder = (m.workers w).inOrder)
  | take (b : Fin cfg.numBuckets) (popped q : List (Player τ)) (hq : m.buckets b = popped ++ q)
      (hb : m'.buckets = m.buckets.set b q) (hf : m'.formed = m.formed)
      (ho : pc.inOrder = (m.workers w).inOrder ++ popped)
      (hd : ∃ windowLen pos todo taken, m.workers w = .drain windowLen pos (b :: todo) taken)
  | give (p : Player τ) (hb : m'.buckets = m.buckets.pushFront (bucketIndex cfg p.rating) p)
      (hf : m'.formed = m.formed) (ho : (m.workers w).inOrder = pc.inOrder ++ [p])
      (hp : (m.workers w).puts = some (bucketIndex cfg p.rating, p))
  | form (f : Formed τ) (hb : m'.buckets = m.buckets) (hf : m'.formed = m.formed ++ [f])
      (ho : (m.workers w).inOrder = f.group.toList) (hpc : pc = .commit f 1 (commitMatch f) true)
      (hr : f.result = (optimizeSplit f.group m.nextMatchId).1) (ho : f.ordinal = m.drawn)
      (hd : m'.drawn = m.drawn + 1) (hg : m.Admits (m.workers w))

/-- No match id was drawn, or one. -/
def Counter (m m' : Matcher cfg τ) : Prop :=
  (m'.drawn = m.drawn ∧ m'.nextMatchId = m.nextMatchId) ∨
    (m'.drawn = m.drawn + 1 ∧ m'.nextMatchId = m.nextMatchId + 1)

/-- The match a thread is committing, and the commands it has not sent yet. -/
def Pc.carried : Pc cfg τ → Option (Formed τ × List (Command τ))
  | .commit f _ todo _ => some (f, todo)
  | .defer f => some (f, [])
  | _ => none

/-- What the step of thread `w` to `pc` does to the match it is committing. -/
inductive Carry (m : Matcher cfg τ) (w : Fin cfg.numWorkers) (pc : Pc cfg τ)
    (m' : Matcher cfg τ) : Prop
  | none (hp : pc.carried = none) (hq : m'.retryQ = m.retryQ)
  | same {f : Formed τ} {todo todo' : List (Command τ)}
    (hold : (m.workers w).carried = some (f, todo))
      (hp : pc.carried = some (f, todo')) (hsub : todo' ⊆ todo ∨ todo' = commitMatch f)
      (hq : m'.retryQ = m.retryQ)
  | deferred {f : Formed τ} {n : Nat} (hold : (m.workers w).carried = some (f, []))
      (hp : pc.carried = .none) (hq : m'.retryQ = m.retryQ ++ [⟨f, n⟩])
  | formed {f : Formed τ} (hp : pc.carried = some (f, commitMatch f))
      (hf : m'.formed = m.formed ++ [f]) (hq : m'.retryQ = m.retryQ)

/-- **What one step of thread `w` can do**, `pc` being where it stands then. -/
structure Move (m : Matcher cfg τ) (w : Fin cfg.numWorkers) (pc : Pc cfg τ)
    (m' : Matcher cfg τ) : Prop where
  wf : pc.Wf
  workers : m'.workers = Function.update m.workers w pc
  enqueued : m'.enqueued = m.enqueued
  retry : m'.retry = m.retry
  now : m'.now = m.now
  counter : Counter m m'
  carry : Carry m w pc m'
  delta : Delta m w pc m'

/-- A step that only moves the program counter. -/
theorem setPc_move {m : Matcher cfg τ} {w : Fin cfg.numWorkers} {pc : Pc cfg τ} (hwf : pc.Wf)
    (hcarry : Carry m w pc (m.setPc w pc)) (horder : pc.inOrder = (m.workers w).inOrder) :
    Move m w pc (m.setPc w pc) :=
  ⟨hwf, rfl, rfl, rfl, rfl, .inl ⟨rfl, rfl⟩, hcarry, .keep rfl rfl horder⟩

/-- The end of the drain loop moves no entry: the group, or the list to roll
back, is what was taken. -/
theorem harvested_move {m : Matcher cfg τ} {w : Fin cfg.numWorkers}
    {taken : List (Fin cfg.numBuckets × Player τ)}
    (horder : (m.workers w).inOrder = taken.map Prod.snd) (hlen : taken.length ≤ 10)
    (hbp : ∀ bp ∈ taken, bucketIndex cfg bp.2.rating = bp.1) :
    ∃ pc : Pc cfg τ, Move m w pc (m.harvested w taken) := by
  unfold Matcher.harvested
  split
  next =>
    refine ⟨.rollback taken.reverse, setPc_move (fun bp h => hbp bp (List.mem_reverse.mp h))
      (.none rfl rfl) ?_⟩
    rw [horder, Pc.inOrder_rollback]
  next hge =>
    -- exactly ten were taken, so the conversion to an array succeeds
    have hten : (taken.map Prod.snd).length = 10 := by
      rw [List.length_map]
      omega
    obtain ⟨g, hg, hlist⟩ := tryInto_eq_some hten
    rw [hg]
    refine ⟨.gate g, setPc_move trivial (.none rfl rfl) ?_⟩
    rw [horder, ← hlist]
    rfl

/-- **Inversion of `workerRun`**: one case per program point. -/
theorem workerRun_move {m m' : Matcher cfg τ} {w : Fin cfg.numWorkers}
    (hwf : (m.workers w).Wf) (hhome : m.buckets.Homed) (h : m.workerRun w = some m') :
    ∃ pc : Pc cfg τ, Move m w pc m' := by
  unfold Matcher.workerRun at h
  cases hpc : m.workers w with
  | idle =>
    simp only [hpc, Option.some.injEq] at h
    subst h
    exact ⟨.density _ _ 0, trivial, rfl, rfl, rfl, rfl, .inl ⟨rfl, rfl⟩, .none rfl rfl,
      .keep rfl rfl (by rw [hpc]; rfl)⟩
  | density win todo approx =>
    cases todo with
    | nil =>
      simp only [hpc, Option.some.injEq] at h
      subst h
      refine ⟨_, setPc_move ?_ (.none ?_ rfl) ?_⟩
      · split <;> trivial
      · split <;> rfl
      · rw [hpc]
        split <;> rfl
    | cons b todo =>
      simp only [hpc, Option.some.injEq] at h
      subst h
      exact ⟨.density win todo _, setPc_move trivial (.none rfl rfl) (by rw [hpc]; rfl)⟩
  | peek win todo anchor =>
    cases todo with
    | nil =>
      cases anchor with
      | none =>
        simp only [hpc, Option.some.injEq] at h
        subst h
        exact ⟨.idle, setPc_move trivial (.none rfl rfl) (by rw [hpc]; rfl)⟩
      | some a =>
        simp only [hpc, Option.some.injEq] at h
        subst h
        exact ⟨.drain _ 0 _ [], setPc_move ⟨Nat.zero_le _, by simp⟩ (.none rfl rfl)
          (by rw [hpc]; rfl)⟩
    | cons b todo =>
      simp only [hpc] at h
      split at h
      · simp only [Option.some.injEq] at h
        subst h
        exact ⟨.peek win todo anchor, setPc_move trivial (.none rfl rfl) (by rw [hpc]; rfl)⟩
      · split at h <;> simp only [Option.some.injEq] at h <;> subst h
        · exact ⟨.peek win todo _, setPc_move trivial (.none rfl rfl) (by rw [hpc]; rfl)⟩
        · exact ⟨.peek win todo anchor, setPc_move trivial (.none rfl rfl) (by rw [hpc]; rfl)⟩
  | drain windowLen pos todo taken =>
    rw [hpc] at hwf
    obtain ⟨hlen, hbp⟩ := hwf
    have horder : (m.workers w).inOrder = taken.map Prod.snd := by rw [hpc]; rfl
    cases todo with
    | nil =>
      simp only [hpc, ite_self, Option.some.injEq] at h
      subst h
      exact harvested_move horder hlen hbp
    | cons b rest =>
      simp only [hpc] at h
      split at h <;> simp only [Option.some.injEq] at h <;> subst h
      · exact harvested_move horder hlen hbp
      · obtain ⟨popped, hq, htaken, hten⟩ := popUntilTen_spec b (m.buckets b) taken
        refine ⟨.drain windowLen (pos + 1) rest _, ⟨hten hlen, ?_⟩, rfl, rfl, rfl, rfl,
          .inl ⟨rfl, rfl⟩, .none rfl rfl, .take b popped _ hq rfl rfl ?_ ⟨_, _, _, _, hpc⟩⟩
        · intro bp hmem
          rw [htaken] at hmem
          rcases List.mem_append.mp hmem with hold | hnew
          · exact hbp bp hold
          · obtain ⟨p, hp, rfl⟩ := List.mem_map.mp hnew
            exact hhome b p (by rw [hq]; exact List.mem_append_left _ hp)
        · rw [horder, Pc.inOrder, htaken, List.map_append, List.map_map]
          simp [Function.comp_def]
  | rollback todo =>
    rw [hpc] at hwf
    cases todo with
    | nil =>
      simp only [hpc, Option.some.injEq] at h
      subst h
      exact ⟨.idle, setPc_move trivial (.none rfl rfl) (by rw [hpc]; rfl)⟩
    | cons bp todo =>
      obtain ⟨b, p⟩ := bp
      simp only [hpc, Option.some.injEq] at h
      subst h
      have hb : bucketIndex cfg p.rating = b := hwf (b, p) List.mem_cons_self
      refine ⟨.rollback todo, fun bp hbp => hwf bp (List.mem_cons_of_mem _ hbp), rfl, rfl, rfl, rfl,
        .inl ⟨rfl, rfl⟩, .none rfl rfl, .give p ?_ rfl ?_ ?_⟩
      · rw [hb]
        rfl
      · rw [hpc]
        exact List.reverse_cons ..
      · rw [hpc, hb]
        rfl
  | gate g =>
    simp only [hpc, Option.some.injEq] at h
    subst h
    simp only [Matcher.gateStep]
    split
    next hle =>
      exact ⟨.commit _ 1 _ true, trivial, rfl, rfl, rfl, rfl, .inr ⟨rfl, rfl⟩, .formed rfl rfl rfl,
        .form _ rfl rfl (by rw [hpc]; rfl) rfl rfl rfl rfl (by rw [hpc]; exact hle)⟩
    · refine ⟨.giveBack _, trivial, rfl, rfl, rfl, rfl, .inr ⟨rfl, rfl⟩, .none rfl rfl,
        .keep rfl rfl ?_⟩
      rw [hpc]
      exact List.reverse_reverse _
  | giveBack todo =>
    cases todo with
    | nil =>
      simp only [hpc, Option.some.injEq] at h
      subst h
      exact ⟨.idle, setPc_move trivial (.none rfl rfl) (by rw [hpc]; rfl)⟩
    | cons p todo =>
      simp only [hpc, Option.some.injEq] at h
      subst h
      exact ⟨.giveBack todo, trivial, rfl, rfl, rfl, rfl, .inl ⟨rfl, rfl⟩, .none rfl rfl,
        .give p rfl rfl (by rw [hpc]; exact List.reverse_cons ..) (by rw [hpc]; rfl)⟩
  | commit f attempt todo clean =>
    simp only [hpc, reduceCtorEq] at h
  | defer f =>
    simp only [hpc, Option.some.injEq] at h
    subst h
    exact ⟨.idle, trivial, rfl, rfl, rfl, rfl, .inl ⟨rfl, rfl⟩,
      .deferred (by rw [hpc]; rfl) rfl rfl,
      .keep rfl rfl (by rw [hpc]; rfl)⟩

/-- **Every step of a match thread** is one of the moves. -/
theorem workerStep_move {m m' : Matcher cfg τ} {w : Fin cfg.numWorkers} {e : WorkerEvent}
    (hwf : (m.workers w).Wf) (hhome : m.buckets.Homed) (h : m.workerStep w e = some m') :
    ∃ pc : Pc cfg τ, Move m w pc m' := by
  cases e with
  | run => exact workerRun_move hwf hhome h
  | busy =>
    simp only [Matcher.workerStep] at h
    split at h
    next windowLen pos b rest taken hpc =>
      split at h <;> simp only [Option.some.injEq, reduceCtorEq] at h
      subst h
      rw [hpc] at hwf
      refine ⟨.rollback taken.reverse, setPc_move (fun bp hbp => hwf.2 bp (List.mem_reverse.mp hbp))
        (.none rfl rfl) ?_⟩
      rw [hpc]
      exact Pc.inOrder_rollback taken
    next => cases h
  | cmd ok =>
    simp only [Matcher.workerStep] at h
    split at h
    next f attempt c todo clean hpc =>
      simp only [Option.some.injEq] at h
      subst h
      exact ⟨.commit f attempt todo _, setPc_move trivial
        (.same (by rw [hpc]; rfl) rfl (.inl (List.subset_cons_self c todo)) rfl) (by rw [hpc]; rfl)⟩
    next => cases h
  | reply ok =>
    simp only [Matcher.workerStep] at h
    split at h
    next f attempt todo clean hpc =>
      split at h
      · split at h <;> simp only [Option.some.injEq, reduceCtorEq] at h
        subst h
        exact ⟨.idle, setPc_move trivial (.none rfl rfl) (by rw [hpc]; rfl)⟩
      · split at h <;> simp only [Option.some.injEq] at h <;> subst h
        · exact ⟨.commit f _ _ true,
            setPc_move trivial (.same (by rw [hpc]; rfl) rfl (.inr rfl) rfl)
            (by rw [hpc]; rfl)⟩
        · exact ⟨.defer f, setPc_move trivial
            (.same (by rw [hpc]; rfl) rfl (.inl (List.nil_subset todo)) rfl) (by rw [hpc]; rfl)⟩
    next => cases h

/-- A step of thread `w` moves its own program counter and no other, and takes a ticket
at the top of the loop only. -/
structure WorkerFrame (m : Matcher cfg τ) (w : Fin cfg.numWorkers) (e : WorkerEvent)
    (m' : Matcher cfg τ) : Prop where
  workers : ∃ pc, m'.workers = Function.update m.workers w pc
  ticket : (e = .run ∧ m.workers w = .idle ∧ m'.ticket = m.ticket + UInt64.ofNat cfg.stride) ∨
    ((e = .run → m.workers w ≠ .idle) ∧ m'.ticket = m.ticket)

/-- A thread inside its round leaves the tickets alone. -/
theorem WorkerFrame.moved {m m' : Matcher cfg τ} {w : Fin cfg.numWorkers} {e : WorkerEvent}
    {pc : Pc cfg τ} (hidle : m.workers w ≠ .idle)
    (hw : m'.workers = Function.update m.workers w pc) (ht : m'.ticket = m.ticket) :
    WorkerFrame m w e m' :=
  ⟨⟨pc, hw⟩, .inr ⟨fun _ => hidle, ht⟩⟩

/-- What a step of a match thread leaves alone. -/
theorem workerStep_frame {m m' : Matcher cfg τ} {w : Fin cfg.numWorkers} {e : WorkerEvent}
    (h : m.workerStep w e = some m') : WorkerFrame m w e m' := by
  have hharvested : ∀ taken, m.workers w ≠ .idle → some (m.harvested w taken) = some m' →
      WorkerFrame m w e m' := by
    intro taken hidle heq
    cases heq
    unfold Matcher.harvested
    split
    · exact .moved hidle rfl rfl
    · split <;> exact .moved hidle rfl rfl
  cases e with
  | run =>
    simp only [Matcher.workerStep, Matcher.workerRun] at h
    by_cases hidle : m.workers w = .idle
    · simp only [hidle] at h
      cases h
      exact ⟨⟨_, rfl⟩, .inl ⟨rfl, hidle, rfl⟩⟩
    cases hpc : m.workers w with
    | idle => exact absurd hpc hidle
    | density win todo approx =>
      cases todo <;> simp only [hpc] at h <;> cases h <;> exact .moved hidle rfl rfl
    | peek win todo anchor =>
      cases todo with
      | nil => cases anchor <;> simp only [hpc] at h <;> cases h <;> exact .moved hidle rfl rfl
      | cons b todo =>
        simp only [hpc] at h
        repeat' split at h
        all_goals
          cases h
          exact .moved hidle rfl rfl
    | drain windowLen pos todo taken =>
      cases todo with
      | nil =>
        simp only [hpc, ite_self] at h
        exact hharvested taken hidle h
      | cons b rest =>
        simp only [hpc] at h
        split at h
        · exact hharvested taken hidle h
        · cases h
          exact .moved hidle rfl rfl
    | rollback todo | giveBack todo =>
      cases todo <;> simp only [hpc] at h <;> cases h <;> exact .moved hidle rfl rfl
    | gate g =>
      simp only [hpc, Option.some.injEq] at h
      subst h
      simp only [Matcher.gateStep]
      split <;> exact .moved hidle rfl rfl
    | commit f attempt todo clean =>
      simp only [hpc] at h
      cases h
    | defer f =>
      simp only [hpc] at h
      cases h
      exact .moved hidle rfl rfl
  | busy | cmd | reply =>
    simp only [Matcher.workerStep] at h
    repeat' split at h
    all_goals first | cases h; exact ⟨⟨_, rfl⟩, .inr ⟨nofun, rfl⟩⟩ | cases h

/-! ## Any step of the process -/

/-- Everything outside the retry thread and the counters is as before. -/
structure Frame (m m' : Matcher cfg τ) : Prop where
  buckets : m'.buckets = m.buckets
  workers : m'.workers = m.workers
  enqueued : m'.enqueued = m.enqueued
  formed : m'.formed = m.formed
  drawn : m'.drawn = m.drawn
  nextMatchId : m'.nextMatchId = m.nextMatchId

/-- What a step of the retry thread leaves alone. -/
theorem retryStep_frame {m m' : Matcher cfg τ} {e : WorkerEvent} (h : m.retryStep e = some m') :
    Frame m m' := by
  cases e with
  | run =>
    simp only [Matcher.retryStep, Matcher.retryRun] at h
    split at h
    · split at h <;> simp only [Option.some.injEq] at h <;> subst h <;>
        exact ⟨rfl, rfl, rfl, rfl, rfl, rfl⟩
    · cases h
    · simp only [Option.some.injEq] at h
      subst h
      exact ⟨rfl, rfl, rfl, rfl, rfl, rfl⟩
  | busy => cases h
  | cmd ok =>
    simp only [Matcher.retryStep] at h
    split at h <;> simp only [Option.some.injEq, reduceCtorEq] at h
    subst h
    exact ⟨rfl, rfl, rfl, rfl, rfl, rfl⟩
  | reply ok =>
    simp only [Matcher.retryStep] at h
    split at h
    · split at h
      · split at h <;> simp only [Option.some.injEq, reduceCtorEq] at h
        subst h
        exact ⟨rfl, rfl, rfl, rfl, rfl, rfl⟩
      · simp only [Option.some.injEq] at h
        subst h
        exact ⟨rfl, rfl, rfl, rfl, rfl, rfl⟩
    · cases h

/-- A step of anything but thread `w` leaves it where it stands. -/
theorem step_workers_of_ne {m m' : Matcher cfg τ} {w : Fin cfg.numWorkers}
    {e : MatcherEvent cfg τ} (hne : ∀ we, e ≠ .worker w we) (h : m.step e = some m') :
    m'.workers w = m.workers w := by
  cases e with
  | enqueue id rating origin =>
    cases h
    rfl
  | counted =>
    cases h
    rfl
  | worker w' we =>
    obtain ⟨pc, hpc⟩ := (workerStep_frame h).workers
    have hww : w ≠ w' := fun heq => hne we (by rw [heq])
    rw [hpc, Function.update_of_ne hww]
  | retry re => rw [(retryStep_frame h).workers]
  | tick nanos =>
    cases h
    rfl

/-- What a step of the process does to the entries. -/
inductive Change (m m' : Matcher cfg τ) : Prop
  | enqueued (p : Player τ) (hs : p.serial = m.enqueued.length)
      (hb : m'.buckets = m.buckets.enqueue p) (he : m'.enqueued = m.enqueued ++ [p])
      (hw : m'.workers = m.workers) (hf : m'.formed = m.formed) (hn : Counter m m')
  | worker (w : Fin cfg.numWorkers) (pc : Pc cfg τ) (hm : Move m w pc m')
  | frame (hm : Frame m m')

/-- **Every step** of the matcher, by what it changes. -/
theorem step_change {m m' : Matcher cfg τ} {e : MatcherEvent cfg τ}
    (hwf : ∀ w, (m.workers w).Wf) (hhome : m.buckets.Homed) (h : m.step e = some m') :
    Change m m' := by
  cases e with
  | enqueue id rating origin =>
    simp only [Matcher.step, Option.some.injEq] at h
    subst h
    exact .enqueued ⟨id, rating, m.now, m.enqueued.length, origin⟩ rfl rfl rfl rfl rfl
      (.inl ⟨rfl, rfl⟩)
  | counted =>
    simp only [Matcher.step, Option.some.injEq] at h
    subst h
    exact .frame ⟨rfl, rfl, rfl, rfl, rfl, rfl⟩
  | worker w e =>
    obtain ⟨pc, hm⟩ := workerStep_move (hwf w) hhome h
    exact .worker w pc hm
  | retry e => exact .frame (retryStep_frame h)
  | tick nanos =>
    simp only [Matcher.step, Option.some.injEq] at h
    subst h
    exact .frame ⟨rfl, rfl, rfl, rfl, rfl, rfl⟩

end Supermatchmaker
