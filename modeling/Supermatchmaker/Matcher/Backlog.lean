import Supermatchmaker.Matcher.Custody

/-!
# The turn of a pending commit

The retry thread takes the oldest pending commit, tries it once, and puts it "at the
BACK so other pending matches also get attempts". `backlog_served` is the other half
of that comment, with a number: whatever Redis answers, however often the same
matches fail again and however many the match threads push meanwhile, the commit at
position `k` is tried after the `k` before it, and the retry thread sleeps between
them for at most `640` milliseconds each. The cap of a second that the backoff has
is never reached (`backoffMillis_le`): the shift stops at seven doublings.

The argument is a potential (`wait`): the steps the retry thread still needs before
it takes the commit. Its own steps lower it by one each, and nobody else raises it.
-/

namespace Supermatchmaker

variable {cfg : Config} {τ : Type}

/-! ## What the retry thread shows -/

/-- `Duration::from_millis((5u64 << p.attempts.min(7)).min(1000))`. -/
def backoffMillis (attempts : Nat) : Nat := min (5 <<< min attempts 7) 1000

/-- The shift stops at 7, so the cap is never reached. -/
theorem backoffMillis_le (attempts : Nat) : backoffMillis attempts ≤ 640 := by
  have hshift : 5 <<< min attempts 7 ≤ 5 * 2 ^ 7 := by
    rw [Nat.shiftLeft_eq]
    exact Nat.mul_le_mul_left 5 (Nat.pow_le_pow_right (by decide) (Nat.min_le_right ..))
  exact (Nat.min_le_left ..).trans hshift

/-- What is seen of a step of the retry thread. -/
inductive RetryNote (τ : Type)
  /-- popped off the queue -/
  | took (p : PendingCommit τ)
  /-- the next command of the pipeline -/
  | sent
  /-- `commit_match` has returned -/
  | tried (p : PendingCommit τ) (ok : Bool)
  /-- the backoff is over and the commit back in the queue -/
  | slept (millis : Nat)

/-- The note of each step of the retry thread; a look at an empty queue has none. -/
def retryNote (m : Matcher cfg τ) (e : MatcherEvent cfg τ) (_ : Matcher cfg τ) :
    List (RetryNote τ) :=
  match e, m.retry with
  | .retry .run, .idle => (m.retryQ.head?.map RetryNote.took).toList
  | .retry .run, .backoff p => [.slept (backoffMillis p.attempts)]
  | .retry (.cmd _), _ => [.sent]
  | .retry (.reply ok), .commit p _ _ => [.tried p ok]
  | _, _ => []

/-- The milliseconds slept. -/
def sleptMillis : List (RetryNote τ) → Nat
  | [] => 0
  | .slept millis :: log => millis + sleptMillis log
  | _ :: log => sleptMillis log

theorem sleptMillis_append (log log' : List (RetryNote τ)) :
    sleptMillis (log ++ log') = sleptMillis log + sleptMillis log' := by
  induction log with
  | nil => rw [List.nil_append, sleptMillis, Nat.zero_add]
  | cons n log ih =>
    cases n with
    | slept millis => rw [List.cons_append, sleptMillis, sleptMillis, ih, Nat.add_assoc]
    | _ => exact ih

/-- **Inversion of `retryStep`**: the five things the thread does, with their notes. -/
inductive RetryMove (m m' : Matcher cfg τ) : List (RetryNote τ) → Prop
  | rested (h : m' = m) : RetryMove m m' []
  | took {p : PendingCommit τ} {rest : List (PendingCommit τ)} (hpc : m.retry = .idle)
      (hq : m.retryQ = p :: rest) (hq' : m'.retryQ = rest)
      (hpc' : m'.retry = .commit p (commitMatch p.result) true) : RetryMove m m' [.took p]
  | sent {p : PendingCommit τ} {c : Command τ} {todo : List (Command τ)} {clean clean' : Bool}
      (hpc : m.retry = .commit p (c :: todo) clean) (hq' : m'.retryQ = m.retryQ)
      (hpc' : m'.retry = .commit p todo clean') : RetryMove m m' [.sent]
  | landed {p : PendingCommit τ} {todo : List (Command τ)} {clean : Bool}
      (hpc : m.retry = .commit p todo clean) (hq' : m'.retryQ = m.retryQ)
      (hpc' : m'.retry = .idle) : RetryMove m m' [.tried p true]
  | failed {p p' : PendingCommit τ} {todo : List (Command τ)} {clean : Bool}
      (hpc : m.retry = .commit p todo clean) (hq' : m'.retryQ = m.retryQ)
      (hpc' : m'.retry = .backoff p') : RetryMove m m' [.tried p false]
  | slept {p : PendingCommit τ} (hpc : m.retry = .backoff p) (hq' : m'.retryQ = m.retryQ ++ [p])
      (hpc' : m'.retry = .idle) : RetryMove m m' [.slept (backoffMillis p.attempts)]

/-- Every step of the retry thread is one of these moves. -/
theorem retryStep_move {m m' : Matcher cfg τ} {e : WorkerEvent} (h : m.retryStep e = some m') :
    RetryMove m m' (retryNote m (.retry e) m') := by
  cases e with
  | run =>
    simp only [Matcher.retryStep, Matcher.retryRun] at h
    split at h
    next hpc =>
      split at h <;> simp only [Option.some.injEq] at h <;> subst h
      next hq =>
        simp only [retryNote, hpc, hq]
        exact .rested rfl
      next p rest hq =>
        simp only [retryNote, hpc, hq]
        exact .took hpc hq rfl rfl
    · cases h
    next p hpc =>
      simp only [Option.some.injEq] at h
      subst h
      simp only [retryNote, hpc]
      exact .slept hpc rfl rfl
  | busy => cases h
  | cmd ok =>
    simp only [Matcher.retryStep] at h
    split at h
    next p c todo clean hpc =>
      simp only [Option.some.injEq] at h
      subst h
      exact .sent hpc rfl rfl
    · cases h
  | reply ok =>
    simp only [Matcher.retryStep] at h
    split at h
    next p todo clean hpc =>
      simp only [retryNote, hpc]
      split at h
      next hok =>
        subst hok
        split at h <;> simp only [Option.some.injEq, reduceCtorEq] at h
        subst h
        exact .landed hpc rfl rfl
      next hok =>
        simp only [Option.some.injEq] at h
        subst h
        rw [Bool.not_eq_true] at hok
        subst hok
        exact .failed hpc rfl rfl
    · cases h

/-- Everyone else leaves the thread alone and pushes at the back. -/
theorem step_pushes {m m' : Matcher cfg τ} {e : MatcherEvent cfg τ} (hI : Inv m)
    (hne : ∀ re, e ≠ .retry re) (h : m.step e = some m') :
    m'.retry = m.retry ∧ m.retryQ <+: m'.retryQ := by
  cases e with
  | worker w we =>
    obtain ⟨pc, hm⟩ := workerStep_move (hI.wf w) hI.homed h
    refine ⟨hm.retry, ?_⟩
    cases hm.carry with
    | none _ hq | same _ _ _ hq | formed _ _ hq => rw [hq]
    | deferred _ _ hq =>
      rw [hq]
      exact List.prefix_append _ _
  | retry re => exact absurd rfl (hne re)
  | enqueue id rating origin | counted | tick nanos =>
    simp only [Matcher.step, Option.some.injEq] at h
    subst h
    exact ⟨rfl, List.prefix_refl _⟩

/-! ## The potential -/

/-- The steps of one turn: the pop, the commands, the answer and the backoff. -/
def turn (p : PendingCommit τ) : Nat := (commitMatch p.result).length + 3

/-- What is left of the turn in progress, at most. -/
def RetryPc.left : RetryPc τ → Nat
  | .idle => 0
  | .commit _ todo _ => todo.length + 2
  | .backoff _ => 1

/-- The backoffs that the turn in progress may still take. -/
def RetryPc.naps : RetryPc τ → Nat
  | .idle => 0
  | _ => 1

/-- The steps of the retry thread before it takes the commit at position `k`, at most. -/
def Matcher.wait (m : Matcher cfg τ) (k : Nat) : Nat :=
  m.retry.left + ((m.retryQ.take k).map turn).sum

/-- Where the commit is: `steps` and `naps` bound what the log may hold when it is taken. -/
inductive Due (p : PendingCommit τ) (steps naps : Nat) (m : Matcher cfg τ)
    (log : List (RetryNote τ)) : Prop
  | waits {k : Nat} (hk : m.retryQ[k]? = some p) (hsteps : log.length + m.wait k ≤ steps)
      (hnaps : sleptMillis log + 640 * (m.retry.naps + k) ≤ 640 * naps)
  | trying {todo : List (Command τ)} {clean : Bool} (hpc : m.retry = .commit p todo clean)
      (hsteps : log.length + todo.length + 2 ≤ steps + turn p)
      (hnaps : sleptMillis log ≤ 640 * naps)
  | tried {ok : Bool} (h : .tried p ok ∈ log)

/-- A longer queue behind the commit changes nothing. -/
theorem Due.push {p : PendingCommit τ} {steps naps : Nat} {m m' : Matcher cfg τ}
    {log : List (RetryNote τ)} (hD : Due p steps naps m log) (hpc : m'.retry = m.retry)
    (hq : m.retryQ <+: m'.retryQ) : Due p steps naps m' log := by
  cases hD with
  | @waits k hk hsteps hnaps =>
    obtain ⟨hlt, _⟩ := List.getElem?_eq_some_iff.mp hk
    obtain ⟨post, hpost⟩ := hq
    refine .waits (k := k) ?_ ?_ ?_
    · rw [← hpost, List.getElem?_append_left hlt]
      exact hk
    · unfold Matcher.wait at hsteps ⊢
      rw [← hpost, List.take_append_of_le_length (Nat.le_of_lt hlt), hpc]
      exact hsteps
    · rw [hpc]
      exact hnaps
  | trying hold hsteps hnaps => exact .trying (hpc.trans hold) hsteps hnaps
  | tried h => exact .tried h

/-- A step of the thread is paid for by the potential. -/
theorem RetryMove.due {p : PendingCommit τ} {steps naps : Nat} {m m' : Matcher cfg τ}
    {log notes : List (RetryNote τ)} (h : RetryMove m m' notes) (hD : Due p steps naps m log) :
    Due p steps naps m' (log ++ notes) := by
  cases hD with
  | tried htried => exact .tried (List.mem_append_left _ htried)
  | @trying todo clean hpc hsteps hnaps =>
    cases h with
    | rested heq =>
      subst heq
      rw [List.append_nil]
      exact .trying hpc hsteps hnaps
    | took hidle => cases hpc.symm.trans hidle
    | slept hbackoff => cases hpc.symm.trans hbackoff
    | sent hcommit hq' hpc' =>
      rw [hpc, RetryPc.commit.injEq] at hcommit
      obtain ⟨rfl, rfl, _⟩ := hcommit
      refine .trying hpc' ?_ ?_
      · rw [List.length_cons] at hsteps
        rw [List.length_append, List.length_singleton]
        omega
      · rw [sleptMillis_append]
        exact hnaps
    | landed hcommit | failed hcommit =>
      rw [hpc, RetryPc.commit.injEq] at hcommit
      obtain ⟨rfl, _, _⟩ := hcommit
      exact .tried (List.mem_append_right _ (List.mem_singleton_self _))
  | @waits k hk hsteps hnaps =>
    obtain ⟨hlt, _⟩ := List.getElem?_eq_some_iff.mp hk
    unfold Matcher.wait at hsteps
    have hone : ∀ n : RetryNote τ, (log ++ [n]).length = log.length + 1 := fun n => by
      rw [List.length_append, List.length_singleton]
    cases h with
    | rested heq =>
      subst heq
      rw [List.append_nil]
      exact .waits hk hsteps hnaps
    | @took q rest hpc hq hq' hpc' =>
      rw [hpc, hq] at hsteps
      rw [hpc] at hnaps
      rw [hq] at hk
      simp only [RetryPc.left, RetryPc.naps] at hsteps hnaps
      cases k with
      | zero =>
        -- it is the head
        obtain rfl : q = p := Option.some.inj hk
        refine .trying hpc' ?_ ?_
        · rw [hone, turn]
          omega
        · rw [sleptMillis_append]
          simp only [sleptMillis]
          omega
      | succ k =>
        rw [List.take_succ_cons, List.map_cons, List.sum_cons, turn] at hsteps
        refine .waits (k := k) (hq' ▸ hk) ?_ ?_
        · unfold Matcher.wait
          rw [hone, hpc', hq']
          simp only [RetryPc.left]
          omega
        · rw [sleptMillis_append, hpc']
          simp only [sleptMillis, RetryPc.naps]
          omega
    | sent hpc hq' hpc' =>
      rw [hpc] at hsteps hnaps
      simp only [RetryPc.left, RetryPc.naps, List.length_cons] at hsteps hnaps
      refine .waits (k := k) (hq' ▸ hk) ?_ ?_
      · unfold Matcher.wait
        rw [hone, hpc', hq']
        simp only [RetryPc.left]
        omega
      · rw [sleptMillis_append, hpc']
        simp only [sleptMillis, RetryPc.naps]
        omega
    | landed hpc hq' hpc' | failed hpc hq' hpc' =>
      rw [hpc] at hsteps hnaps
      simp only [RetryPc.left, RetryPc.naps] at hsteps hnaps
      refine .waits (k := k) (hq' ▸ hk) ?_ ?_
      · unfold Matcher.wait
        rw [hone, hpc', hq']
        simp only [RetryPc.left]
        omega
      · rw [sleptMillis_append, hpc']
        simp only [sleptMillis, RetryPc.naps]
        omega
    | @slept q hpc hq' hpc' =>
      have hnap := backoffMillis_le q.attempts
      rw [hpc] at hsteps hnaps
      simp only [RetryPc.left, RetryPc.naps] at hsteps hnaps
      refine .waits (k := k) ?_ ?_ ?_
      · rw [hq', List.getElem?_append_left hlt]
        exact hk
      · unfold Matcher.wait
        rw [hone, hpc', hq', List.take_append_of_le_length (Nat.le_of_lt hlt)]
        simp only [RetryPc.left]
        omega
      · rw [sleptMillis_append, hpc']
        simp only [sleptMillis, RetryPc.naps]
        omega

/-- **Step**: the commit is as near to its next try as before, less what the step has spent. -/
theorem step_due {p : PendingCommit τ} {steps naps : Nat} {m m' : Matcher cfg τ}
    {e : MatcherEvent cfg τ} {log : List (RetryNote τ)} (hI : Inv m)
    (hD : Due p steps naps m log) (h : m.step e = some m') :
    Due p steps naps m' (log ++ retryNote m e m') := by
  cases e with
  | retry re => exact (retryStep_move h).due hD
  | worker w we | enqueue id rating origin | counted | tick nanos =>
    obtain ⟨hpc, hq⟩ := step_pushes hI (fun _ he => by cases he) h
    show Due p steps naps m' (log ++ [])
    rw [List.append_nil]
    exact hD.push hpc hq

/-! ## The result -/

/-- **Every pending commit gets its turn.** Take any state a matcher can reach and a commit
at position `k` of its retry queue. However the run goes on, with any answers from Redis and
any commits pushed by the match threads: either the retry thread has tried the commit, or it
has taken fewer steps than the turn in progress, the `k` turns before and this one take, and
has slept no more than `640` milliseconds for each of the `k + 1` turns before. -/
theorem backlog_served {m₀ m t : Matcher cfg τ} {log : List (RetryNote τ)} {k : Nat}
    {p : PendingCommit τ} (h₀ : Inv m₀) (hm : Lts.Run Matcher.step Lts.Free m₀ m)
    (hk : m.retryQ[k]? = some p)
    (h : Lts.Run (Lts.record Matcher.step retryNote) Lts.Free (m, []) (t, log)) :
    (∃ ok, .tried p ok ∈ log) ∨
      log.length < m.wait k + turn p ∧ sleptMillis log ≤ 640 * (k + 1) := by
  have hI : Inv m := hm.inv (fun hI _ hs => step_inv hI hs) h₀
  have hstart : Due p (m.wait k) (k + 1) m [] := by
    refine .waits hk (by rw [List.length_nil, Nat.zero_add]) ?_
    have hnaps : m.retry.naps ≤ 1 := by cases m.retry <;> simp only [RetryPc.naps] <;> omega
    simp only [sleptMillis]
    omega
  have hend : Inv t ∧ Due p (m.wait k) (k + 1) t log := by
    refine h.inv (I := fun x => Inv x.1 ∧ Due p (m.wait k) (k + 1) x.1 x.2) ?_ ⟨hI, hstart⟩
    rintro ⟨a, log⟩ e ⟨b, log'⟩ ⟨hI, hD⟩ _ hs
    obtain ⟨hstep, hlog⟩ := Lts.record_eq_some.mp hs
    simp only at hstep hlog
    rw [hlog]
    exact ⟨step_inv hI hstep, step_due hI hD hstep⟩
  cases hend.2 with
  | tried h => exact .inl ⟨_, h⟩
  | waits _ hsteps hnaps =>
    right
    unfold turn
    omega
  | trying _ hsteps hnaps =>
    right
    omega

/-- The match thread forms a match and cannot write it. -/
def formDeferred : List (MatcherEvent Config.small Nat) :=
  List.replicate 8 (.worker smallThread .run) ++
    [.worker smallThread (.reply false), .worker smallThread (.reply false),
      .worker smallThread .run]

/-- A turn in which only the answer is missing. -/
def failedTurn : List (MatcherEvent Config.small Nat) :=
  .retry .run :: List.replicate 11 (.retry (.cmd true)) ++ [.retry (.reply false), .retry .run]

/-- Two matches are pending, and the first keeps failing: after two turns the second has been
tried. -/
theorem backlog_served_second :
    ∃ (m : Matcher Config.small Nat) (p : PendingCommit Nat) (log : List (RetryNote Nat)),
      m.retryQ[1]? = some p ∧ log.length = 28 ∧ ∃ ok, .tried p ok ∈ log := by
  have hexec : (Lts.exec Matcher.step (fun _ _ => true) (Matcher.init Config.small Nat 0)
      ((List.range 20).map (fun i => .enqueue (Int64.ofNat i) 100 i) ++ formDeferred
        ++ formDeferred)).any
      (fun m => (m.retryQ[1]?.any fun p => m.wait 1 + turn p = 28) ∧
        (Lts.exec (Lts.record Matcher.step retryNote) (fun _ _ => true) (m, [])
          (failedTurn ++ failedTurn)).any fun x => x.2.length = 28) = true := by decide +kernel
  obtain ⟨m, hrun, htest⟩ := Lts.exists_run_of_exec hexec
  obtain ⟨hsecond, hexec'⟩ := of_decide_eq_true htest
  obtain ⟨⟨t, log⟩, hrun', hlen⟩ := Lts.exists_run_of_exec hexec'
  obtain ⟨p, hp, hbound⟩ := (Option.any_eq_true _ _).mp hsecond
  refine ⟨m, p, log, hp, of_decide_eq_true hlen, ?_⟩
  refine (backlog_served (init_inv 0) hrun.free hp hrun'.free).resolve_right fun hearly => ?_
  have hsteps := hearly.1
  rw [of_decide_eq_true hbound, of_decide_eq_true hlen] at hsteps
  exact Nat.lt_irrefl 28 hsteps

end Supermatchmaker
