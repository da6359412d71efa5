import Supermatchmaker.Lib.Lts
import Supermatchmaker.Lib.Register
import Supermatchmaker.Service.Effects

/-!
# The status key

`mm:status:{user}` has three writers: the queue call (`queued`), `commit_match`
(`matched`), and the TTL. A client polls it until it reads `matched`.

The queue call writes after it has published its event, and nothing holds the
matcher back in between: the entry may be matched and committed before the call's
`SET`, which then puts `queued` back for good (`matched_lost`). As long as the
`SET` comes before the commit of the entry (`World.Timely`), `matched` stays:
`matched_kept`.

The argument is about the log of the writes: the key reads what the last write
says (`Register.replay`), and behind the commit of an entry stands no `queued` of
its own call or an earlier one.
-/

namespace Supermatchmaker

variable {cfg : Config}

/-! ## Writes -/

namespace StatusWrite

/-- Whose key is written. -/
def user : StatusWrite → Int64
  | .queued user _ => user
  | .matched user _ => user
  | .expired user => user

/-- What the key reads after the write. -/
def value : StatusWrite → Option Status
  | .queued .. => some .queued
  | .matched _ m => some m.payload
  | .expired _ => none

/-- The key reads `matched` after the write. -/
def settled : Option Status → Prop
  | some (.matched ..) => True
  | _ => False

/-- Where a write comes from. -/
inductive Cause (s : World cfg) : WorldEvent cfg → StatusWrite → Prop
  | queued {i : Nat} {link : Link} {user : Int64} {origin : Nat}
      (hcall : s.calls[i]? = some ⟨user, .queued origin⟩) (hlink : link ≠ .down) :
      Cause s (.call i link) (.queued user origin)
  | matched {e : WorldEvent cfg} {m : Formed Nat} {user : Int64} (hm : m ∈ s.mem.formed)
      (hu : user ∈ m.result.users) : Cause s e (.matched user m)
  | expired {user : Int64} : Cause s (.expireStatus user) (.expired user)

end StatusWrite

/-- **Inversion of `World.step`**, for the status keys: a step writes none of
them, or one. -/
inductive Noted (s : World cfg) (e : WorldEvent cfg) (s' : World cfg) : Prop
  | silent (hs : s'.status = s.status) (hl : s'.statusLog = s.statusLog)
  | wrote (w : StatusWrite) (hw : StatusWrite.Cause s e w)
      (hs : s'.status = Function.update s.status w.user w.value)
      (hl : s'.statusLog = s.statusLog ++ [w])

/-- A call writes a status after its `XADD`. -/
theorem CallMove.noted {s t : World cfg} {i : Nat} {link : Link} (h : CallMove s i link t) :
    Noted s (.call i link) t := by
  cases h with
  | silent h => exact .silent h.status h.statusLog
  | publish _ _ h => exact .silent h.status h.statusLog
  | queued hcall hlink h => exact .wrote (.queued _ _) (.queued hcall hlink) h.status h.statusLog

/-- A command of a commit pipeline. -/
theorem Executed.noted {s t : World cfg} {e : WorldEvent cfg} (mem : Matcher cfg Nat)
    (h : Executed s t) : Noted s e { t with mem := mem } := by
  cases h with
  | nothing ht =>
    subst ht
    exact .silent rfl rfl
  | @matched f user hf hu ht =>
    subst ht
    exact .wrote (.matched user f) (.matched hf hu) rfl rfl
  | published _ ht =>
    subst ht
    exact .silent rfl rfl

/-- **Every step**, by the status it writes. -/
theorem step_noted {s s' : World cfg} {e : WorldEvent cfg} (hF : Founded s.mem)
    (h : s.step e = some s') : Noted s e s' := by
  cases e with
  | call i link => exact (callStep_move h).noted
  | snapshot e =>
    obtain ⟨hs, hl, _⟩ := snapStep_frame h
    exact .silent hs hl
  | worker w e =>
    simp only [World.step, Option.map_eq_some_iff] at h
    obtain ⟨mem, _, rfl⟩ := h
    exact (execute_executed fun f c => worker_command hF).noted mem
  | retry e =>
    simp only [World.step, Option.map_eq_some_iff] at h
    obtain ⟨mem, _, rfl⟩ := h
    exact (execute_executed fun f c => retry_command hF).noted mem
  | ingest e =>
    simp only [World.step, Option.map_eq_some_iff] at h
    obtain ⟨_, _, rfl⟩ := h
    exact .silent rfl rfl
  | poller e =>
    simp only [World.step, Option.map_eq_some_iff] at h
    obtain ⟨_, _, rfl⟩ := h
    exact .silent rfl rfl
  | expireStatus user =>
    simp only [World.step, Option.some.injEq] at h
    subst h
    exact .wrote (.expired user) .expired rfl rfl
  | _ =>
    simp only [World.step, Option.some.injEq] at h
    subst h
    exact .silent rfl rfl

/-! ## The condition -/

namespace World

variable (s : World cfg)

/-- After the commit of the entry `p`: the call that made `p` does not write any
more, and until the key expires or a later call writes it reads `matched`. -/
def MatchedKept : Prop :=
  ∀ pre post user m p, s.statusLog = pre ++ .matched user m :: post →
    p ∈ m.group.toList → p.id = user →
    .queued user p.origin ∉ post ∧
      ((∀ w ∈ post, w ≠ .expired user ∧ ∀ origin, p.origin < origin → w ≠ .queued user origin) →
        StatusWrite.settled (s.status user))

/-- The user and the event of the call that is about to set the status. -/
def settling (i : Nat) : Option (Int64 × Nat) :=
  match s.calls[i]? with
  | some ⟨user, .queued origin⟩ => some (user, origin)
  | _ => none

/-- The match has an entry of the user from the event `origin` or a later one. -/
def Covers (m : Formed Nat) (user : Int64) (origin : Nat) : Prop :=
  ∃ p ∈ m.group.toList, p.id = user ∧ origin ≤ p.origin

instance (m : Formed Nat) (user : Int64) (origin : Nat) : Decidable (Covers m user origin) :=
  List.decidableBEx _ m.group.toList

/-- No match with an entry of the user from `origin` or a later event has had its
`SET` for the user executed. -/
def Unsettled (user : Int64) (origin : Nat) : Prop :=
  ∀ m ∈ s.history, Covers m user origin → .matched user m ∉ s.statusLog

instance (user : Int64) (origin : Nat) : Decidable (s.Unsettled user origin) :=
  List.decidableBAll _ s.history

/-- When the `SET` of a queue call is executed, its entry (or a later one of the
user) has not been committed. -/
def Timely : WorldEvent cfg → Prop
  | .call i link => ∀ uo ∈ s.settling i, link = .down ∨ s.Unsettled uo.1 uo.2
  | _ => True

instance (e : WorldEvent cfg) : Decidable (s.Timely e) :=
  match e with
  | .call i _ => Option.decidableForallMem (s.settling i)
  | .restart | .signup _ | .request _ | .ingest _ | .worker .. | .retry _ | .snapshot _ | .poller _
  | .endMatch .. | .expireStatus _ | .expirePlayer _ | .tick _ => .isTrue trivial

/-- A `queued` behind a commit is of a later call. -/
def InOrder (w w' : StatusWrite) : Prop :=
  ∀ user m origin, w = .matched user m → w' = .queued user origin →
    ∀ p ∈ m.group.toList, p.id = user → p.origin < origin

/-- The invariant: the keys read what the log says, every commit is of a match
that was formed, and the writes are in order. -/
structure Logged (s : World cfg) : Prop where
  sound : Sound s.toCore
  status : s.status = Register.replay StatusWrite.user StatusWrite.value (fun _ => none) s.statusLog
  formed : ∀ user m, .matched user m ∈ s.statusLog → m ∈ s.history
  ordered : s.statusLog.Pairwise InOrder

end World

theorem init_logged : (World.init cfg).Logged where
  sound := init_sound
  status := rfl
  formed := nofun
  ordered := List.Pairwise.nil

/-- **Step**. -/
theorem step_logged {s s' : World cfg} {e : WorldEvent cfg} (hL : s.Logged) (hg : s.Timely e)
    (h : s.step e = some s') : s'.Logged := by
  have hS' := step_sound hL.sound h
  have hhist : s.history ⊆ s'.history := (step_effect hL.sound.founded h).history hL.sound.inv
  cases step_noted hL.sound.founded h with
  | silent hs hl =>
    refine ⟨hS', ?_, fun user m hm => ?_, ?_⟩
    · rw [hs, hl]
      exact hL.status
    · rw [hl] at hm
      exact hhist (hL.formed user m hm)
    · rw [hl]
      exact hL.ordered
  | wrote w hw hs hl =>
    refine ⟨hS', ?_, fun user m hm => ?_, ?_⟩
    · rw [hs, hl, Register.replay_append, ← hL.status]
      rfl
    · rw [hl] at hm
      rcases List.mem_append.mp hm with hm | hm
      · exact hhist (hL.formed user m hm)
      · rw [List.mem_singleton] at hm
        subst hm
        cases hw with
        | matched hm _ => exact hhist (List.mem_append_right _ hm)
    · rw [hl, List.pairwise_append]
      refine ⟨hL.ordered, List.pairwise_singleton _ _, fun w' hw' x hx => ?_⟩
      rw [List.mem_singleton.mp hx]
      intro user m origin hmatched hqueued p hp hid
      subst hmatched hqueued
      cases hw with
      | @queued i link _ _ hcall hlink =>
        -- the guard: a later call, or the commit would not be there
        by_contra hle
        have hset : (user, origin) ∈ s.settling i := by
          unfold World.settling
          rw [hcall]
          rfl
        have htimely := (hg _ hset).resolve_left hlink
        exact htimely m (hL.formed user m hw') ⟨p, hp, hid, Nat.le_of_not_lt hle⟩ hw'

/-- What the log says of the keys. -/
theorem World.Logged.matchedKept {s : World cfg} (hL : s.Logged) : s.MatchedKept := by
  intro pre post user m p hsplit hp hid
  have hord := hL.ordered
  rw [hsplit, List.pairwise_append, List.pairwise_cons] at hord
  have hlater : ∀ w ∈ post, ∀ origin, w = .queued user origin → p.origin < origin :=
    fun w hw origin hq => hord.2.1.1 w hw user m origin rfl hq p hp hid
  refine ⟨fun hmem => Nat.lt_irrefl _ (hlater _ hmem _ rfl), fun hpost => ?_⟩
  have hlast : StatusWrite.settled
      (Register.replay StatusWrite.user StatusWrite.value (fun _ => none)
        (pre ++ .matched user m :: post) (StatusWrite.matched user m).user) := by
    refine Register.replay_of_split (P := StatusWrite.settled) trivial fun w hw hkey => ?_
    cases w with
    | matched u m' => trivial
    | expired u =>
      obtain rfl : u = user := hkey
      exact absurd rfl (hpost _ hw).1
    | queued u origin =>
      obtain rfl : u = user := hkey
      exact absurd rfl ((hpost _ hw).2 origin (hlater _ hw origin rfl))
  rw [hL.status, hsplit]
  exact hlast

/-- **No lost `matched`**, in every run in which the `SET` of a queue call does not
come after the commit of its entry. -/
theorem matched_kept {s : World cfg}
    (h : Lts.Run World.step World.Timely (World.init cfg) s) : s.MatchedKept := by
  have hlogged := h.inv (fun hL hg hs => step_logged hL hg hs) init_logged
  exact hlogged.matchedKept

/-- Ten calls set their status, then the match is formed and committed. -/
theorem matched_kept_ten :
    ∃ s : World Config.small, s.statusLog.length = 20 ∧ s.MatchedKept := by
  have hexec : (Lts.exec World.step (fun s e => s.Timely e) (World.init Config.small)
      (tenArrive (fun i => Int64.ofNat (i + 1)) ++ (List.range 10).map (.call · .up) ++ formMatch
        ++ sendCommit)).any
      (fun s => s.statusLog.length = 20) = true := by decide +kernel
  obtain ⟨s, hrun, hlen⟩ := Lts.exists_run_of_exec hexec
  exact ⟨s, of_decide_eq_true hlen, matched_kept (hrun.mono of_decide_eq_true)⟩

/-- The log begins with a match, whose player is queued by a later write. -/
def overwritten : List StatusWrite → Bool
  | .matched user m :: post => m.group.toList.any fun p =>
      p.id = user ∧ .queued user p.origin ∈ post
  | _ => false

/-- The match is committed while the ten calls have yet to set their status; the
first of them then does. -/
theorem matched_lost :
    ¬ ∀ (cfg : Config) (s : World cfg), Lts.Run World.step Lts.Free (World.init cfg) s →
      s.MatchedKept := by
  intro hclaim
  have hexec : (Lts.exec World.step (fun _ _ => true) (World.init Config.small)
      (tenArrive (fun i => Int64.ofNat (i + 1)) ++ formMatch ++ sendCommit ++ [.call 0 .up])).any
      (fun s => overwritten s.statusLog) = true := by decide +kernel
  obtain ⟨s, hrun, hlost⟩ := Lts.exists_run_of_exec hexec
  unfold overwritten at hlost
  split at hlost
  next user m post hlog =>
    obtain ⟨p, hp, hover⟩ := List.any_eq_true.mp hlost
    obtain ⟨hid, hmem⟩ := of_decide_eq_true hover
    exact (hclaim _ s hrun.free [] post user m p hlog hp hid).1 hmem
  next => cases hlost

end Supermatchmaker
