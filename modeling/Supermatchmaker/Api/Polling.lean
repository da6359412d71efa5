import Supermatchmaker.Api.Session
import Supermatchmaker.Service.Status

/-!
# What a poll shows

A client that has queued polls `GET /status/{id}` until it reads `matched`. The
handler checks the bearer and passes the status key on; nothing compares the key
with the stream or with the matches, and three writers share it.

`Polled` says what the key is worth all the same: every write of it has an event or
a match behind it, and the key reads what was written last. `poll_truthful` puts the
bearer check in front.
-/

namespace Supermatchmaker.Api

open Auth

variable {cfg : Config}

/-! ## The handler -/

/-- The body of a `GET /status/{id}` that is let in. -/
inductive StatusBody
  /-- the payload of the key, passed through -/
  | payload (status : Status)
  /-- `{"status": "not_found"}` -/
  | notFound
  deriving DecidableEq, Repr

/-- The body for what `get_status` has read. -/
def StatusBody.of : Option Status → StatusBody
  | some status => .payload status
  | none => .notFound

/-- `get_status`: `None` as well when Redis cannot be asked. -/
def getStatus (status : Int64 → Option Status) (link : Link) (userId : Int64) : Option Status :=
  if link = .up then status userId else none

/-- `GET /status/{id}`. -/
def Access.status (a : Access) (now : UInt64) (header : Option (List UInt8)) (userId : Int64)
    (link : Link) (status : Int64 → Option Status) : Except Refusal StatusBody :=
  match a.checkBearer now header userId with
  | .error e => .error e
  | .ok _ => .ok (.of (getStatus status link userId))

/-! ## What is behind the writes -/

/-- An event of the user with that id was appended to the ingest stream. -/
def Queues (s : World cfg) (user : Int64) (origin : Nat) : Prop :=
  ∃ rating, (origin, some ⟨user, rating⟩) ∈ s.ingest.stream.numbered

/-- The write has its event, or its match. -/
def Genuine (s : World cfg) : StatusWrite → Prop
  | .queued user origin => Queues s user origin
  | .matched user m => m ∈ s.history ∧ user ∈ m.result.users
  | .expired _ => True

/-- Every write of a status key has its event or its match, the key reads what its last write
says, and a call about to write `queued` has its event already. -/
structure Polled (s : World cfg) : Prop where
  sound : Sound s.toCore
  status : s.status = Register.replay StatusWrite.user StatusWrite.value (fun _ => none) s.statusLog
  writes : ∀ w ∈ s.statusLog, Genuine s w
  calls : ∀ call ∈ s.calls, ∀ origin, call.pc = .queued origin → Queues s call.user origin

theorem init_polled : Polled (World.init cfg) where
  sound := init_sound
  status := rfl
  writes := List.forall_mem_nil _
  calls := List.forall_mem_nil _

section Step

variable {s t : World cfg} {e : WorldEvent cfg}

/-- An event stays one that was appended. -/
theorem queues_kept (hS : Sound s.toCore) (h : s.step e = some t) {user : Int64} {origin : Nat}
    (hq : Queues s user origin) : Queues t user origin :=
  hq.imp fun _ hmem => (step_effect hS.founded h).numbered.subset hmem

/-- What is behind a write stays behind it: events and matches are never taken back. -/
theorem genuine_kept (hS : Sound s.toCore) (h : s.step e = some t) {w : StatusWrite}
    (hw : Genuine s w) : Genuine t w := by
  cases w with
  | queued user origin => exact queues_kept hS h hw
  | matched user m => exact ⟨(step_effect hS.founded h).history hS.inv hw.1, hw.2⟩
  | expired user => trivial

/-- A write, when it is made. -/
theorem cause_genuine (hP : Polled s) {w : StatusWrite} (hw : w.Cause s e) : Genuine s w := by
  cases hw with
  | queued hcall _ => exact hP.calls _ (List.mem_of_getElem? hcall) _ rfl
  | matched hm hu => exact ⟨List.mem_append_right _ hm, hu⟩
  | expired => trivial

/-- A call gets to its status write only by way of its `XADD`. -/
theorem Ongoing.queues (hP : Polled s) (h : s.step e = some t) :
    ∀ call ∈ t.calls, ∀ origin, call.pc = .queued origin → Queues t call.user origin := by
  have hold : ∀ call ∈ s.calls, ∀ origin, call.pc = .queued origin → Queues t call.user origin :=
    fun call hcall origin hpc => queues_kept hP.sound h (hP.calls call hcall origin hpc)
  intro call hmem origin hpc
  cases step_ongoing h with
  | same heq => exact hold call (heq ▸ hmem) origin hpc
  | entered _ heq =>
    rw [heq] at hmem
    rcases List.mem_append.mp hmem with hmem | hmem
    · exact hold call hmem origin hpc
    · rw [List.mem_singleton.mp hmem] at hpc
      cases hpc
  | moved _ heq hqueued =>
    rw [heq] at hmem
    rcases List.mem_or_eq_of_mem_set hmem with hmem | rfl
    · exact hold call hmem origin hpc
    · exact hqueued origin hpc
  | dropped heq =>
    rw [heq] at hmem
    cases hmem

/-- **Step**: a write is made by a call whose event is appended, by a commit of a formed match
or by expiry. -/
theorem step_polled (hP : Polled s) (h : s.step e = some t) : Polled t := by
  have hS := hP.sound
  have hold : ∀ w ∈ s.statusLog, Genuine t w := fun w hw => genuine_kept hS h (hP.writes w hw)
  refine ⟨step_sound hS h, ?_, ?_, Ongoing.queues hP h⟩
  · cases step_noted hS.founded h with
    | silent hs hl =>
      rw [hs, hl]
      exact hP.status
    | wrote w _ hs hl =>
      rw [hs, hl, Register.replay_append, ← hP.status]
      rfl
  · cases step_noted hS.founded h with
    | silent _ hl =>
      rw [hl]
      exact hold
    | wrote w hw _ hl =>
      rw [hl]
      intro w' hw'
      rcases List.mem_append.mp hw' with hw' | hw'
      · exact hold w' hw'
      · rw [List.mem_singleton.mp hw']
        exact genuine_kept hS h (cause_genuine hP hw)

end Step

/-! ## The result -/

/-- Of all writes to the key of the user. -/
def lastNote (s : World cfg) (user : Int64) : Option StatusWrite :=
  Register.lastWrite StatusWrite.user s.statusLog user

/-- What the body says of the user is so. -/
def StatusBody.Says (s : World cfg) (user : Int64) : StatusBody → Prop
  | .payload .queued =>
    ∃ origin, Queues s user origin ∧ lastNote s user = some (.queued user origin)
  | .payload (.matched matchId teamA teamB) =>
    ∃ f ∈ s.history, user ∈ f.result.users ∧ lastNote s user = some (.matched user f) ∧
      matchId = f.result.matchId ∧ teamA = f.result.teamA.map Prod.fst ∧
      teamB = f.result.teamB.map Prod.fst
  | .notFound => ∀ w, lastNote s user = some w → w = .expired user

/-- The answer for a key, read off its last write. -/
theorem Polled.says {s : World cfg} (hP : Polled s) (user : Int64) :
    (StatusBody.of (s.status user)).Says s user := by
  have hread : s.status user = (lastNote s user).bind StatusWrite.value := by
    rw [hP.status, Register.replay_eq_lastWrite]
    show ((lastNote s user).map StatusWrite.value).getD none = _
    cases lastNote s user <;> rfl
  rw [hread]
  cases hlast : lastNote s user with
  | none => exact fun w hw => by cases hlast.symm.trans hw
  | some w =>
    obtain ⟨hmem, hkey⟩ := Register.mem_of_lastWrite hlast
    have hw := hP.writes w hmem
    cases w with
    | queued u origin =>
      obtain rfl : u = user := hkey
      exact ⟨origin, hw, hlast⟩
    | matched u m =>
      obtain rfl : u = user := hkey
      exact ⟨m, hw.1, hw.2, hlast, rfl, rfl, rfl⟩
    | expired u =>
      obtain rfl : u = user := hkey
      exact fun w hw' => Option.some.inj (hw'.symm.trans hlast)

/-- **A poll tells its user the truth, and nobody else.** In every run in which no token is
forged, over any number of processes: who is answered holds a token handed out for that very
id, within its TTL and the leeway; `queued` is answered if an event of the user was appended
to the stream and was the last to set the key; `matched` if the match was formed with the user in
it, and it is the one its commit wrote last, with its id and its teams; and `not_found` if
the key was never set or has expired since, or Redis could not be asked. -/
theorem poll_truthful {a : Access} (hJ : a.jsonwebtoken.Documented) {s : Site cfg}
    {start : UInt64} (h : Lts.Run (Site.step a) (Site.Unforged a) (Site.init cfg start) s)
    {header : Option (List UInt8)} {userId : Int64} (hU : s.Unforged a (.status header userId))
    {link : Link} {body : StatusBody}
    (hok : a.status s.now header userId link s.world.status = .ok body) :
    (∃ i ∈ s.issued, presented header = some i.token ∧ i.user = userId ∧
      s.now.toNat ≤ i.issuedAt.toNat + a.jwtTtlSecs.toNat + 60) ∧
    (link = .up ∧ body.Says s.world userId ∨ link ≠ .up ∧ body = .notFound) := by
  have hV : s.Vouched a := h.inv (fun hV hU hs => step_vouched hJ hV hU hs) (init_vouched start)
  have hP : Polled s.world := by
    refine h.inv (I := fun s => Polled s.world) (fun hP _ hs => ?_) init_polled
    rcases step_world hs with heq | ⟨we, hstep⟩
    · rw [heq]
      exact hP
    · exact step_polled hP hstep
  unfold Access.status at hok
  split at hok
  next => cases hok
  next token hcheck =>
    obtain ⟨hpresented, i, hi, htoken, huser, htime⟩ := hV.holder hJ hU hcheck
    refine ⟨⟨i, hi, htoken ▸ hpresented, huser, htime⟩, ?_⟩
    obtain rfl := Except.ok.inj hok
    unfold getStatus
    by_cases hlink : link = .up
    · rw [if_pos hlink]
      exact .inl ⟨hlink, hP.says userId⟩
    · rw [if_neg hlink]
      exact .inr ⟨hlink, rfl⟩

/-- The client can stop polling. -/
def StatusBody.settled : StatusBody → Bool
  | .payload (.matched ..) => true
  | _ => false

/-- The first of ten players polls when the commit of her match has been executed. -/
theorem poll_truthful_matched :
    ∃ (s : Site Config.small) (body : StatusBody), body.settled ∧
      textAccess.status s.now (ownHeader 1) 1 .up s.world.status = .ok body ∧
      body.Says s.world 1 := by
  have hexec : (Lts.exec (Site.step textAccess) (fun s e => s.Unforged textAccess e)
      (Site.init Config.small 0) (tenBearers ++ sendCommit.map .world)).any
      (fun s => s.Unforged textAccess (.status (ownHeader 1) 1) ∧
        (textAccess.status s.now (ownHeader 1) 1 .up s.world.status).toOption.any
          StatusBody.settled) = true := by decide +kernel
  obtain ⟨s, hrun, htest⟩ := Lts.exists_run_of_exec hexec
  obtain ⟨hU, hbody⟩ := of_decide_eq_true htest
  cases hok : textAccess.status s.now (ownHeader 1) 1 .up s.world.status with
  | error e =>
    rw [hok] at hbody
    cases hbody
  | ok body =>
    rw [hok] at hbody
    have htruth := poll_truthful textJwt_documented (hrun.mono of_decide_eq_true) hU hok
    rcases htruth.2 with ⟨_, hsays⟩ | ⟨hdown, _⟩
    · exact ⟨s, body, hbody, hok, hsays⟩
    · exact absurd rfl hdown

end Supermatchmaker.Api
