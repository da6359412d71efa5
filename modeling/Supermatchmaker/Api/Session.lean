import Supermatchmaker.Auth.Token
import Supermatchmaker.Lib.Text
import Supermatchmaker.Service.Lineage

/-!
# Who may queue

`POST /signup`, `POST /signin/{id}` and the bearer check in front of
`POST /queue/{id}` and `GET /status/{id}`, put before the service. A `Site` is a
`World` whose requests come in through the handlers; what it adds is the clock of
`now_secs`, and two ghosts: the tokens handed out and the requests let in.

Mirroring notes:
- A header value is its bytes; `headers().get` takes the first `Authorization`.
- The two handlers spell the check out in a different order of match arms, with the
  same outcome for each token: `checkBearer`, once.
- A handler that panics (`issue` on a crate that fails to encode) hands out nothing.
- The secret and the TTL are settings, the same for every process.

The cryptography is symbolic. A client may send any header at any time, but a token
that verifies is one the service handed out (`Site.Unforged`, a guard on the runs).
`signin` asks for nothing but an id, so a token says who is playing and no more.
-/

namespace Supermatchmaker.Api

open Auth

variable {cfg : Config}

/-! ## The header -/

/-- `HeaderValue::to_str`: the text, if all of it is visible ASCII, blanks and tabs. -/
def toStr (value : List UInt8) : Option (List Char) :=
  if value.all fun b => (32 ≤ b && b < 127) || b == 9 then
    some (value.map fun b => Char.ofNat b.toNat)
  else none

/-- `"Bearer "`. -/
def bearerPrefix : List Char := ['B', 'e', 'a', 'r', 'e', 'r', ' ']

/-- `auth::bearer`. -/
def bearer (headerValue : List Char) : Option (List Char) :=
  (headerValue.dropPrefix? bearerPrefix).map Text.trim

/-- The token in the `Authorization` header. -/
def presented (header : Option (List UInt8)) : Option (List Char) :=
  (header.bind toStr).bind bearer

/-! ## The handlers -/

/-- What `AppState` holds of the tokens. -/
structure Access where
  jsonwebtoken : Jsonwebtoken (List Char)
  jwtSecret : List UInt8
  jwtTtlSecs : UInt64

/-- Every answer that is not a success. -/
inductive Refusal
  | unauthorized (text : String)
  | forbidden (text : String)
  | notFound (text : String)
  /-- `500`, `"signup failed: {e}"` -/
  | signupFailed (e : DbError)
  deriving DecidableEq, Repr

/-- The body of a sign-up and of a sign-in. -/
structure Session where
  id : Int64
  rating : Int32
  token : List Char
  deriving DecidableEq, Repr

namespace Access

variable (a : Access) (now : UInt64)

/-- The body with a fresh token; `none` where `issue` panics. -/
def session (id : Int64) (rating : Int32) : Option Session :=
  (issue a.jsonwebtoken now id a.jwtSecret a.jwtTtlSecs).map fun token => ⟨id, rating, token⟩

/-- `POST /signup`. The id is the one the `INSERT` returns. -/
def signup (rating : Int32) (pg : Pg) (db : Db) : Except Refusal (Option Session) × Db :=
  match pg.run (createUser rating) db with
  | (.ok (), db') => (.ok (a.session now (Int64.ofNat db.nextUserId) rating), db')
  | (.error e, db') => (.error (.signupFailed e), db')

/-- `POST /signin/{id}`. -/
def signin (userId : Int64) (pg : Pg) (db : Db) : Except Refusal (Option Session) :=
  match if pg = .up then ratingOf db userId else none with
  | some r => .ok (a.session now userId r)
  | none => .error (.notFound "user not found")

/-- The bearer check, and the token that passed. -/
def checkBearer (header : Option (List UInt8)) (userId : Int64) : Except Refusal (List Char) :=
  match presented header with
  | none => .error (.unauthorized "missing bearer token")
  | some token =>
    match verify a.jsonwebtoken now token a.jwtSecret with
    | .ok claims =>
      if claims.sub = userId then .ok token else .error (.forbidden "token does not match user")
    | .error .expired => .error (.unauthorized "token expired")
    | .error _ => .error (.unauthorized "invalid token")

end Access

/-! ## The site -/

/-- A token, in the hands of whoever asked for it. -/
structure Issued where
  token : List Char
  user : Int64
  issuedAt : UInt64
  deriving DecidableEq, Repr

/-- A `POST /queue/{id}` that passed the check. -/
structure Admission where
  token : List Char
  user : Int64
  admittedAt : UInt64
  deriving DecidableEq, Repr

/-- The service behind its handlers, with the system clock, the tokens handed out and the
requests let in so far. -/
structure Site (cfg : Config) where
  world : World cfg
  now : UInt64
  /-- ghost -/
  issued : List Issued
  /-- ghost -/
  admitted : List Admission

/-- What can happen at the site. -/
inductive SiteEvent (cfg : Config)
  /-- the system clock, which may also be set back -/
  | clock (now : UInt64)
  | signup (rating : Int32) (pg : Pg)
  | signin (userId : Int64) (pg : Pg)
  | enterQueue (header : Option (List UInt8)) (userId : Int64)
  | status (header : Option (List UInt8)) (userId : Int64)
  /-- any step of the service that no handler above takes -/
  | world (e : WorldEvent cfg)

namespace Site

variable (a : Access) (s : Site cfg)

/-- Nobody has signed up. -/
def init (cfg : Config) (now : UInt64) : Site cfg := ⟨World.init cfg, now, [], []⟩

/-- The client gets the body of the reply. -/
def grant (reply : Except Refusal (Option Session)) : Site cfg :=
  { s with issued := s.issued ++
      reply.toOption.join.toList.map fun x => ⟨x.token, x.id, s.now⟩ }

/-- `enter_queue`, up to its first command. -/
def enterQueue (header : Option (List UInt8)) (userId : Int64) : Site cfg :=
  match a.checkBearer s.now header userId with
  | .ok token =>
    { s with
      world := { s.world with calls := s.world.calls ++ [⟨userId, .cache⟩] }
      admitted := s.admitted ++ [⟨token, userId, s.now⟩] }
  | .error _ => s

/-- One request, one step of the service or one move of the clock. -/
def step : SiteEvent cfg → Option (Site cfg)
  | .clock now => some { s with now := now }
  | .signup rating pg =>
    let (reply, db) := a.signup s.now rating pg s.world.writer.db
    some { s.grant reply with
      world := { s.world with writer := { s.world.writer with db := db } } }
  | .signin userId pg => some (s.grant (a.signin s.now userId pg s.world.writer.db))
  | .enterQueue header userId => some (s.enterQueue a header userId)
  | .status _ _ => some s
  | .world (.request _) => none
  | .world (.signup _) => none
  | .world e => (s.world.step e).map fun world => { s with world := world }

/-- **Assumed of the signature**: a token that verifies was handed out. -/
def Unforged : SiteEvent cfg → Prop
  | .enterQueue header _ | .status header _ => ∀ token ∈ presented header,
      (verify a.jsonwebtoken s.now token a.jwtSecret).toOption.isSome →
        token ∈ s.issued.map Issued.token
  | _ => True

instance (e : SiteEvent cfg) : Decidable (s.Unforged a e) :=
  match e with
  | .enterQueue header _ | .status header _ => Option.decidableForallMem (presented header)
  | .clock _ | .signup .. | .signin .. | .world _ => .isTrue trivial

end Site

/-! ## The header of a client -/

/-- A header value that a client writes as text. -/
def asciiBytes (s : List Char) : List UInt8 := s.map fun c => UInt8.ofNat c.toNat

/-- What `HeaderValue::to_str` takes: visible ASCII, blanks and tabs. -/
def Visible (s : List Char) : Prop := ∀ c ∈ s, (32 ≤ c.toNat ∧ c.toNat < 127) ∨ c.toNat = 9

theorem visible_bearer : Visible bearerPrefix := by
  simp [Visible, bearerPrefix]

theorem Visible.append {s t : List Char} (hs : Visible s) (ht : Visible t) : Visible (s ++ t) :=
  fun c hc => (List.mem_append.mp hc).elim (hs c) (ht c)

/-- A header of visible characters is read as it was written. -/
theorem toStr_asciiBytes {s : List Char} (hs : Visible s) : toStr (asciiBytes s) = some s := by
  have hbyte : ∀ c ∈ s, (UInt8.ofNat c.toNat).toNat = c.toNat := by
    intro c hc
    have hvisible := hs c hc
    exact UInt8.toNat_ofNat_of_lt' (by simp only [UInt8.size]; omega)
  unfold toStr asciiBytes
  rw [if_pos]
  · rw [List.map_map, Option.some.injEq]
    refine (List.map_congr_left fun c hc => ?_).trans (List.map_id s)
    show Char.ofNat (UInt8.ofNat c.toNat).toNat = c
    rw [hbyte c hc, Char.ofNat_toNat]
  · rw [List.all_map, List.all_eq_true]
    intro c hc
    have hvisible := hs c hc
    simp only [Function.comp_apply, Bool.or_eq_true, Bool.and_eq_true, decide_eq_true_eq,
      beq_iff_eq, UInt8.le_iff_toNat_le, UInt8.lt_iff_toNat_lt, ← UInt8.toNat_inj, hbyte c hc]
    exact hvisible

/-- **Assumed of the crate**: a token is in the compact serialization, which has neither
blanks nor anything but ASCII. -/
def Compact (J : Jsonwebtoken (List Char)) : Prop :=
  ∀ ⦃alg claims key token⦄, J.encode alg claims key = some token →
    ∀ c ∈ token, 33 ≤ c.toNat ∧ c.toNat < 127

/-- What the client presents, whatever blanks it writes around the token. -/
theorem presented_bearer {pre token post : List Char} (hvisible : Visible (pre ++ token ++ post))
    (hpre : Text.Blank pre) (hpost : Text.Blank post) (htoken : Text.Trimmed token) :
    presented (some (asciiBytes (bearerPrefix ++ (pre ++ token ++ post)))) = some token := by
  have hdrop : (bearerPrefix ++ (pre ++ token ++ post)).dropPrefix? bearerPrefix
      = some (pre ++ token ++ post) :=
    List.dropPrefix?_eq_some_iff.mpr ⟨bearerPrefix, rfl, beq_self_eq_true _⟩
  have hbearer : bearer (bearerPrefix ++ (pre ++ token ++ post)) = some token := by
    unfold bearer
    rw [hdrop, Option.map_some, Text.trim_blanks hpre hpost htoken]
  unfold presented
  rw [Option.bind_some, toStr_asciiBytes (visible_bearer.append hvisible), Option.bind_some,
    hbearer]

/-! ## The bearer check -/

section Check

variable {a : Access} {now : UInt64} {header : Option (List UInt8)} {userId : Int64}
  {token : List Char}

/-- What a token that was let in has shown. -/
theorem checkBearer_ok (h : a.checkBearer now header userId = .ok token) :
    presented header = some token ∧
      ∃ claims, verify a.jsonwebtoken now token a.jwtSecret = .ok claims ∧ claims.sub = userId := by
  unfold Access.checkBearer at h
  split at h
  · cases h
  next t hpresented =>
    split at h
    next claims hverify =>
      split at h
      next hsub =>
        obtain rfl : t = token := Except.ok.inj h
        exact ⟨hpresented, claims, hverify, hsub⟩
      next => cases h
    next => cases h
    next => cases h

/-- **One token**: what the check says to it, for any path and at any time. -/
theorem checkBearer_issued (hJ : a.jsonwebtoken.Documented) {user : Int64} {issuedAt : UInt64}
    (hissue : issue a.jsonwebtoken issuedAt user a.jwtSecret a.jwtTtlSecs = some token)
    (hpresented : presented header = some token) :
    a.checkBearer now header userId =
      if (issueClaims issuedAt user a.jwtTtlSecs).exp.toNat + 60 < now.toNat then
        .error (.unauthorized "token expired")
      else if user = userId then .ok token
      else .error (.forbidden "token does not match user") := by
  have hverify := verify_encode hJ now hissue
  unfold Access.checkBearer
  rw [hpresented]
  simp only [hverify]
  by_cases hexp : (issueClaims issuedAt user a.jwtTtlSecs).exp.toNat + 60 < now.toNat
  · rw [if_pos hexp, if_pos hexp]
  · rw [if_neg hexp, if_neg hexp]
    rfl

end Check

/-! ## The calls in progress -/

/-- **Inversion of `World.step`**, for the calls: one comes in, one goes on, or the process
dies. A call that is about to set the status has its event on the stream. -/
inductive Ongoing (s : World cfg) (e : WorldEvent cfg) (t : World cfg) : Prop
  | same (h : t.calls = s.calls)
  | entered {user : Int64} (he : e = .request user) (h : t.calls = s.calls ++ [⟨user, .cache⟩])
  | moved {c : Nat} {call : Call} {pc : CallPc} (hcall : s.calls[c]? = some call)
      (h : t.calls = s.calls.set c ⟨call.user, pc⟩)
      (hqueued : ∀ origin, pc = .queued origin →
        ∃ rating, (origin, some ⟨call.user, rating⟩) ∈ t.ingest.stream.numbered)
  | dropped (h : t.calls = [])

/-- A call goes from one of its commands to the next. -/
theorem callStep_ongoing {s t : World cfg} {c : Nat} {link : Link}
    (h : s.callStep c link = some t) : Ongoing s (.call c link) t := by
  unfold World.callStep at h
  split at h
  next user hcall =>
    split at h <;> simp only [Option.some.injEq] at h <;> subst h
    · exact .moved hcall rfl fun _ hpc => by cases hpc
    · exact .moved hcall rfl fun _ hpc => by cases hpc
  next user hcall =>
    split at h <;> simp only [Option.some.injEq] at h <;> subst h
    · exact .moved hcall rfl fun _ hpc => by cases hpc
    · exact .moved hcall rfl fun _ hpc => by cases hpc
  next user rating hcall =>
    simp only [Option.some.injEq] at h
    subst h
    exact .moved hcall rfl fun _ hpc => by cases hpc
  next user rating hcall =>
    split at h <;> simp only [Option.some.injEq] at h <;> subst h
    next => exact .moved hcall rfl fun _ hpc => by cases hpc
    next =>
      refine .moved hcall rfl fun origin hpc => ⟨rating, ?_⟩
      split at hpc
      · rw [CallPc.queued.injEq] at hpc
        rw [← hpc]
        show _ ∈ (s.ingest.stream.append (some ⟨user, rating⟩)).numbered
        rw [Log.numbered_append]
        exact List.mem_append_right _ (List.mem_singleton_self _)
      · cases hpc
  next user origin hcall =>
    split at h <;> simp only [Option.some.injEq] at h <;> subst h
    · exact .moved hcall rfl fun _ hpc => by cases hpc
    · exact .moved hcall rfl fun _ hpc => by cases hpc
  · cases h
  · cases h

/-- Only requests add calls, and only a call's own steps move it. -/
theorem step_ongoing {s t : World cfg} {e : WorldEvent cfg} (h : s.step e = some t) :
    Ongoing s e t := by
  cases e with
  | call c link => exact callStep_ongoing h
  | worker w e | retry e =>
    simp only [World.step, Option.map_eq_some_iff] at h
    obtain ⟨mem, _, rfl⟩ := h
    exact .same (execute_calls s _).1
  | snapshot e => exact .same (snapStep_calls h).1
  | ingest e | poller e =>
    simp only [World.step, Option.map_eq_some_iff] at h
    obtain ⟨_, _, rfl⟩ := h
    exact .same rfl
  | request user =>
    simp only [World.step, Option.some.injEq] at h
    subst h
    exact .entered rfl rfl
  | restart =>
    simp only [World.step, Option.some.injEq] at h
    subst h
    exact .dropped rfl
  | signup rating | endMatch matchId pg | expireStatus user | expirePlayer user | tick nanos =>
    simp only [World.step, Option.some.injEq] at h
    subst h
    exact .same rfl

/-- Every call is of a user who had one before, or has just come in. -/
theorem Ongoing.user {s t : World cfg} {e : WorldEvent cfg} (h : Ongoing s e t) :
    ∀ call ∈ t.calls, (∃ old ∈ s.calls, old.user = call.user) ∨ e = .request call.user := by
  intro call hmem
  cases h with
  | same h => exact .inl ⟨call, h ▸ hmem, rfl⟩
  | entered he h =>
    rw [h] at hmem
    rcases List.mem_append.mp hmem with hold | hnew
    · exact .inl ⟨call, hold, rfl⟩
    · rw [List.mem_singleton.mp hnew]
      exact .inr he
  | @moved c old pc hcall h _ =>
    rw [h] at hmem
    rcases List.mem_or_eq_of_mem_set hmem with hold | rfl
    · exact .inl ⟨call, hold, rfl⟩
    · exact .inl ⟨old, List.mem_of_getElem? hcall, rfl⟩
  | dropped h =>
    rw [h] at hmem
    cases hmem

/-! ## Where a request comes from -/

/-- The user has signed up. -/
def Known (db : Db) (userId : Int64) : Prop := userId ∈ db.users.map UserRow.id

/-- `rating_of` finds exactly those who have signed up. -/
theorem known_iff {db : Db} {userId : Int64} : Known db userId ↔ (ratingOf db userId).isSome := by
  unfold Known ratingOf
  rw [Option.isSome_map, List.find?_isSome, List.mem_map]
  simp only [decide_eq_true_eq]

theorem known_kept {db db' : Db} {de : DbEvent} {userId : Int64} (hk : Known db userId)
    (h : db.step de = some db') : Known db' userId := by
  rw [known_iff] at hk ⊢
  obtain ⟨rating, hr⟩ := Option.isSome_iff_exists.mp hk
  rw [ratingOf_kept hr h]
  rfl

namespace Site

variable (a : Access) (s : Site cfg)

/-- A `POST /queue/{id}` of the user has passed the check. -/
def Asked (user : Int64) : Prop := ∃ x ∈ s.admitted, x.user = user

/-- The token was handed out to its user, and not long before. -/
def Backed (x : Admission) : Prop :=
  ∃ i ∈ s.issued, i.token = x.token ∧ i.user = x.user ∧
    x.admittedAt.toNat ≤ i.issuedAt.toNat + a.jwtTtlSecs.toNat + 60

/-- Every token was issued by `issue` for a known user, every request let in is backed by such a
token, and every call, event, pool entry and team member goes back to a request. -/
structure Vouched : Prop where
  lineage : s.world.Lineage
  issued : ∀ i ∈ s.issued,
    issue a.jsonwebtoken i.issuedAt i.user a.jwtSecret a.jwtTtlSecs = some i.token ∧
      Known s.world.writer.db i.user
  admitted : ∀ x ∈ s.admitted, s.Backed a x
  calls : ∀ call ∈ s.world.calls, s.Asked call.user
  copies : s.world.toCore.Copies fun user _ => s.Asked user

end Site

/-! ## One step -/

section Step

variable {a : Access} {s t : Site cfg}

theorem init_vouched (now : UInt64) : (Site.init cfg now).Vouched a where
  lineage := init_lineage
  issued := List.forall_mem_nil _
  admitted := List.forall_mem_nil _
  calls := List.forall_mem_nil _
  copies := by
    refine ⟨fun i ev hmem => ?_, ?_, ?_, ?_, ?_⟩
    · cases hmem
    all_goals exact fun x hx => by cases hx

/-- A step of the service itself. -/
theorem Site.Vouched.world (hV : s.Vouched a) {e : WorldEvent cfg} {world : World cfg}
    (he : ∀ user, e ≠ .request user) (h : s.world.step e = some world) :
    ({ s with world := world } : Site cfg).Vouched a := by
  have hF := hV.lineage.sound.founded
  refine ⟨step_lineage hV.lineage h, fun i hi => ?_, hV.admitted, fun call hcall => ?_, ?_⟩
  · exact ⟨(hV.issued i hi).1, step_tables hF known_kept (hV.issued i hi).2 h⟩
  · rcases (step_ongoing h).user call hcall with ⟨old, hold, huser⟩ | hnew
    · obtain ⟨x, hx, hxu⟩ := hV.calls old hold
      exact ⟨x, hx, hxu.trans huser⟩
    · exact absurd hnew (he _)
  · exact (step_effect hF h).copies hV.lineage.sound hV.copies fun k user rating hcall =>
      hV.calls _ (List.mem_of_getElem? hcall)

/-- A token handed out to a known user. -/
theorem Site.Vouched.grant (hV : s.Vouched a) {reply : Except Refusal (Option Session)}
    (hreply : ∀ x, reply = .ok (some x) → Known s.world.writer.db x.id ∧
      issue a.jsonwebtoken s.now x.id a.jwtSecret a.jwtTtlSecs = some x.token) :
    (s.grant reply).Vouched a := by
  have hissued : ∀ i ∈ (s.grant reply).issued, i ∈ s.issued ∨
      ∃ x, reply = .ok (some x) ∧ i = ⟨x.token, x.id, s.now⟩ := by
    intro i hi
    refine (List.mem_append.mp hi).imp_right fun hnew => ?_
    obtain ⟨x, hx, rfl⟩ := List.mem_map.mp hnew
    refine ⟨x, ?_, rfl⟩
    cases reply with
    | error e => cases hx
    | ok session =>
      cases session with
      | none => cases hx
      | some y =>
        obtain rfl : x = y := List.mem_singleton.mp hx
        rfl
  refine ⟨hV.lineage, fun i hi => ?_, fun x hx => ?_, hV.calls, hV.copies⟩
  · rcases hissued i hi with hold | ⟨x, hx, rfl⟩
    · exact hV.issued i hold
    · exact (hreply x hx).symm
  · obtain ⟨i, hi, hback⟩ := hV.admitted x hx
    exact ⟨i, List.mem_append_left _ hi, hback⟩

/-- The body that is sent carries a token of its id. -/
theorem session_issue {now : UInt64} {id : Int64} {rating : Int32} {x : Session}
    (h : a.session now id rating = some x) :
    x.id = id ∧ issue a.jsonwebtoken now x.id a.jwtSecret a.jwtTtlSecs = some x.token := by
  obtain ⟨token, hissue, rfl⟩ := Option.map_eq_some_iff.mp h
  exact ⟨rfl, hissue⟩

/-- A token is handed out at sign-in only for an id that `rating_of` finds. -/
theorem Site.Vouched.signin (hV : s.Vouched a) (userId : Int64) (pg : Pg) :
    (s.grant (a.signin s.now userId pg s.world.writer.db)).Vouched a := by
  refine hV.grant fun x hx => ?_
  unfold Access.signin at hx
  split at hx
  next r hr =>
    obtain ⟨hid, hissue⟩ := session_issue (Except.ok.inj hx)
    split at hr
    next =>
      refine ⟨?_, hissue⟩
      rw [hid, known_iff, hr]
      rfl
    next => cases hr
  next => cases hx

/-- The check lets in who was handed a token for that very id. -/
theorem Site.Vouched.holder (hJ : a.jsonwebtoken.Documented) (hV : s.Vouched a)
    {header : Option (List UInt8)} {userId : Int64} {token : List Char}
    (hU : s.Unforged a (.status header userId))
    (hok : a.checkBearer s.now header userId = .ok token) :
    presented header = some token ∧ ∃ i ∈ s.issued, i.token = token ∧ i.user = userId ∧
      s.now.toNat ≤ i.issuedAt.toNat + a.jwtTtlSecs.toNat + 60 := by
  obtain ⟨hpresented, claims, hverify, _⟩ := checkBearer_ok hok
  have hissued : token ∈ s.issued.map Issued.token :=
    hU token (Option.mem_def.mpr hpresented) (by rw [hverify]; rfl)
  obtain ⟨i, hi, rfl⟩ := List.mem_map.mp hissued
  have hcheck : a.checkBearer s.now header userId = _ :=
    checkBearer_issued hJ (hV.issued i hi).1 hpresented
  rw [hok] at hcheck
  split at hcheck
  next => cases hcheck
  next hlive =>
    split at hcheck
    next huser =>
      have hexp := issueClaims_exp i.issuedAt i.user a.jwtTtlSecs
      have hle := Nat.mod_le (i.issuedAt.toNat + a.jwtTtlSecs.toNat) (2 ^ 64)
      exact ⟨hpresented, i, hi, rfl, huser, by omega⟩
    next => cases hcheck

/-- Who is let in holds a token that was handed out: the one place where forgery matters. -/
theorem Site.Vouched.enterQueue (hJ : a.jsonwebtoken.Documented) (hV : s.Vouched a)
    {header : Option (List UInt8)} {userId : Int64}
    (hU : s.Unforged a (.enterQueue header userId)) :
    (s.enterQueue a header userId).Vouched a := by
  unfold Site.enterQueue
  split
  next token hok =>
    obtain ⟨_, i, hi, htoken, huser, htime⟩ := hV.holder hJ hU hok
    have hnew : ∃ x ∈ s.admitted ++ [⟨token, userId, s.now⟩], x.user = userId :=
      ⟨_, List.mem_append_right _ (List.mem_singleton_self _), rfl⟩
    have hold : ∀ user, s.Asked user →
        ∃ x ∈ s.admitted ++ [⟨token, userId, s.now⟩], x.user = user :=
      fun user ⟨x, hx, hxu⟩ => ⟨x, List.mem_append_left _ hx, hxu⟩
    refine ⟨step_lineage hV.lineage (e := .request userId) rfl, hV.issued, fun x hx => ?_,
      fun call hcall => ?_, hV.copies.mono fun user _ => hold user⟩
    · rcases List.mem_append.mp hx with hx | hx
      · exact hV.admitted x hx
      · rw [List.mem_singleton.mp hx]
        exact ⟨i, hi, htoken, huser, htime⟩
    · rcases List.mem_append.mp hcall with hcall | hcall
      · exact hold _ (hV.calls call hcall)
      · rw [List.mem_singleton.mp hcall]
        exact hnew
  next => exact hV

/-- Whatever becomes of the token, a signup does to the tables what `create_user` does. -/
theorem signup_db (now : UInt64) (rating : Int32) (pg : Pg) (db : Db) :
    (a.signup now rating pg db).2 = (pg.run (createUser rating) db).2 := by
  unfold Access.signup
  split
  next heq => rw [heq]
  next heq => rw [heq]

/-- A sign-up that is answered leaves the row of its id. -/
theorem signup_known {now : UInt64} {rating : Int32} {pg : Pg} {db : Db} {x : Session}
    (h : (a.signup now rating pg db).1 = .ok (some x)) :
    Known (a.signup now rating pg db).2 x.id ∧
      issue a.jsonwebtoken now x.id a.jwtSecret a.jwtTtlSecs = some x.token := by
  rw [signup_db]
  unfold Access.signup at h
  split at h
  next db' heq =>
    obtain ⟨hid, hissue⟩ := session_issue (Except.ok.inj h)
    refine ⟨?_, hissue⟩
    rw [heq, hid]
    cases pg with
    | down | lost => cases heq
    | up =>
      by_cases hfits : db.nextUserId < 2 ^ 63
      · have htx : createUser rating db = .ok (db.signedUp rating) := if_pos hfits
        have hdb : (Pg.up.run (createUser rating) db).2 = _ := Pg.run_ok (by decide) htx
        rw [heq] at hdb
        rw [hdb]
        unfold Known Db.signedUp
        rw [List.map_append]
        exact List.mem_append_right _ (List.mem_singleton_self _)
      · have htx : createUser rating db = .error .outOfRange := if_neg hfits
        simp only [Pg.run, Table.transaction, htx, Prod.mk.injEq, reduceCtorEq, false_and] at heq
  next => cases h

/-- The token of a signup is for the user it has created. -/
theorem Site.Vouched.signup (hV : s.Vouched a) (rating : Int32) (pg : Pg) :
    Site.Vouched a { s.grant (a.signup s.now rating pg s.world.writer.db).1 with
      world := { s.world with
        writer := { s.world.writer with
          db := (a.signup s.now rating pg s.world.writer.db).2 } } } := by
  have hworld : Site.Vouched a { s with
      world := { s.world with
        writer := { s.world.writer with
          db := (a.signup s.now rating pg s.world.writer.db).2 } } } := by
    rw [signup_db]
    cases pg with
    | down => exact hV
    | up | lost => exact hV.world (e := .signup rating) (fun _ he => by cases he) rfl
  exact hworld.grant fun x hx => signup_known hx

/-- The service takes a step of its own, or none. -/
theorem step_world {e : SiteEvent cfg} (h : s.step a e = some t) :
    t.world = s.world ∨ ∃ we, s.world.step we = some t.world := by
  cases e with
  | clock now | signin userId pg | status header userId =>
    simp only [Site.step, Option.some.injEq] at h
    subst h
    exact .inl rfl
  | signup rating pg =>
    simp only [Site.step, Option.some.injEq] at h
    subst h
    simp only [signup_db]
    cases pg with
    | down => exact .inl rfl
    | up | lost => exact .inr ⟨.signup rating, rfl⟩
  | enterQueue header userId =>
    simp only [Site.step, Option.some.injEq] at h
    subst h
    unfold Site.enterQueue
    split
    · exact .inr ⟨.request userId, rfl⟩
    · exact .inl rfl
  | world e =>
    cases e with
    | request user => cases h
    | signup rating => cases h
    | _ =>
      simp only [Site.step, Option.map_eq_some_iff] at h
      obtain ⟨world, hs, rfl⟩ := h
      exact .inr ⟨_, hs⟩

/-- **Step**. -/
theorem step_vouched (hJ : a.jsonwebtoken.Documented) {e : SiteEvent cfg} (hV : s.Vouched a)
    (hU : s.Unforged a e) (h : s.step a e = some t) : t.Vouched a := by
  cases e with
  | clock now =>
    simp only [Site.step, Option.some.injEq] at h
    subst h
    exact ⟨hV.lineage, hV.issued, hV.admitted, hV.calls, hV.copies⟩
  | signup rating pg =>
    simp only [Site.step, Option.some.injEq] at h
    subst h
    exact hV.signup rating pg
  | signin userId pg =>
    simp only [Site.step, Option.some.injEq] at h
    subst h
    exact hV.signin userId pg
  | enterQueue header userId =>
    simp only [Site.step, Option.some.injEq] at h
    subst h
    exact hV.enterQueue hJ hU
  | status header userId =>
    simp only [Site.step, Option.some.injEq] at h
    subst h
    exact hV
  | world e =>
    have hstep : ∀ {world}, s.world.step e = some world → (∀ user, e ≠ .request user) →
        Site.Vouched a { s with world := world } := fun hs he => hV.world he hs
    cases e with
    | request user => cases h
    | signup rating => cases h
    | _ =>
      simp only [Site.step, Option.map_eq_some_iff] at h
      obtain ⟨world, hs, rfl⟩ := h
      exact hstep hs fun _ he => by cases he

end Step

/-! ## A crate whose tokens are text -/

/-- The lowest bit first. -/
def bits : Nat → Nat → List Char
  | 0, _ => []
  | w + 1, n => (if n % 2 = 1 then '1' else '0') :: bits w (n / 2)

/-- A number from its binary digits, the lowest first. -/
def ofBits : List Char → Nat
  | [] => 0
  | c :: cs => (if c = '1' then 1 else 0) + 2 * ofBits cs

theorem length_bits (w n : Nat) : (bits w n).length = w := by
  induction w generalizing n with
  | zero => rfl
  | succ w ih => rw [bits, List.length_cons, ih]

theorem ofBits_bits {w n : Nat} (h : n < 2 ^ w) : ofBits (bits w n) = n := by
  induction w generalizing n with
  | zero =>
    rw [Nat.lt_one_iff.mp h]
    rfl
  | succ w ih =>
    have hhalf : n / 2 < 2 ^ w := by
      rw [Nat.pow_succ] at h
      omega
    have hbit : (if (if n % 2 = 1 then '1' else '0') = '1' then 1 else 0) = n % 2 := by
      rcases Nat.mod_two_eq_zero_or_one n with hn | hn <;> rw [hn] <;> rfl
    rw [bits, ofBits, ih hhalf, hbit]
    omega

/-- A field of a token, behind `pre`. -/
theorem field_eq {pre post : List Char} {n : UInt64} {k : Nat} (hk : pre.length = k) :
    UInt64.ofNat (ofBits (((pre ++ (bits 64 n.toNat ++ post)).drop k).take 64)) = n := by
  rw [List.drop_left' hk, List.take_left' (length_bits 64 _), ofBits_bits n.toNat_lt]
  exact UInt64.ofNat_toNat

/-- The three numbers in the front of a token, behind them its key. -/
def textJwt : Jsonwebtoken (List Char) where
  newValidation alg := ⟨[alg], 60, true, ["exp"]⟩
  encode _ claims key := some (bits 64 claims.sub.toUInt64.toNat ++ (bits 64 claims.iat.toNat ++
    (bits 64 claims.exp.toNat ++ key.flatMap fun b => bits 8 b.toNat)))
  decode now token key v :=
    let claims : Claims := ⟨(UInt64.ofNat (ofBits (token.take 64))).toInt64,
      UInt64.ofNat (ofBits ((token.drop 64).take 64)),
      UInt64.ofNat (ofBits ((token.drop 128).take 64))⟩
    if token.drop 192 ≠ key.flatMap fun b => bits 8 b.toNat then .error .invalidSignature
    else if v.validateExp ∧ claims.exp.toNat + v.leeway.toNat < now.toNat then
      .error .expiredSignature
    else .ok claims

theorem textJwt_documented : textJwt.Documented where
  newValidation_eq _ := rfl
  encode_isSome _ _ _ := rfl
  decode_encode {alg claims key token} now v henc _ _ := by
    cases henc
    set K := key.flatMap fun b => bits 8 b.toNat with hK
    have hsub : UInt64.ofNat (ofBits ((bits 64 claims.sub.toUInt64.toNat ++
        (bits 64 claims.iat.toNat ++ (bits 64 claims.exp.toNat ++ K))).take 64))
        = claims.sub.toUInt64 := by
      rw [List.take_left' (length_bits 64 _), ofBits_bits (UInt64.toNat_lt _)]
      exact UInt64.ofNat_toNat
    have hiat : UInt64.ofNat (ofBits (((bits 64 claims.sub.toUInt64.toNat ++
        (bits 64 claims.iat.toNat ++ (bits 64 claims.exp.toNat ++ K))).drop 64).take 64))
        = claims.iat := field_eq (length_bits 64 _)
    have hfront : (bits 64 claims.sub.toUInt64.toNat ++ bits 64 claims.iat.toNat).length = 128 := by
      rw [List.length_append, length_bits, length_bits]
    have hexp : UInt64.ofNat (ofBits (((bits 64 claims.sub.toUInt64.toNat ++
        (bits 64 claims.iat.toNat ++ (bits 64 claims.exp.toNat ++ K))).drop 128).take 64))
        = claims.exp := by
      rw [← List.append_assoc]
      exact field_eq hfront
    have hkey : (bits 64 claims.sub.toUInt64.toNat ++
        (bits 64 claims.iat.toNat ++ (bits 64 claims.exp.toNat ++ K))).drop 192 = K := by
      rw [← List.append_assoc, ← List.append_assoc]
      exact List.drop_left' (by rw [List.length_append, hfront, length_bits])
    have hid : claims.sub.toUInt64.toInt64 = claims.sub := Int64.toInt64_toUInt64 claims.sub
    simp only [textJwt, ← hK, hsub, hiat, hexp, hkey, hid, ne_eq, not_true_eq_false, if_false]

theorem bits_graphic (w n : Nat) : ∀ c ∈ bits w n, 33 ≤ c.toNat ∧ c.toNat < 127 := by
  induction w generalizing n with
  | zero => exact List.forall_mem_nil _
  | succ w ih =>
    intro c hc
    rcases List.mem_cons.mp hc with rfl | hc
    · split <;> decide
    · exact ih _ c hc

theorem textJwt_compact : Compact textJwt := by
  intro alg claims key token henc c hc
  cases henc
  rcases List.mem_append.mp hc with hc | hc
  · exact bits_graphic _ _ c hc
  rcases List.mem_append.mp hc with hc | hc
  · exact bits_graphic _ _ c hc
  rcases List.mem_append.mp hc with hc | hc
  · exact bits_graphic _ _ c hc
  · obtain ⟨b, _, hc⟩ := List.mem_flatMap.mp hc
    exact bits_graphic _ _ c hc

/-- Tokens of that crate, for an hour. -/
def textAccess : Access := ⟨textJwt, [115, 51], 3600⟩

/-- The header of a user who signed up at the epoch. -/
def ownHeader (user : Int64) : Option (List UInt8) :=
  (issue textJwt 0 user textAccess.jwtSecret textAccess.jwtTtlSecs).map fun token =>
    asciiBytes (bearerPrefix ++ token)

/-! ## The results -/

/-- The user is a registered one whose own token was presented in time. -/
def Site.Entitled (a : Access) (s : Site cfg) (user : Int64) : Prop :=
  Known s.world.writer.db user ∧ ∃ x ∈ s.admitted, x.user = user ∧ s.Backed a x

/-- Behind a request let in there is a token for that id. -/
theorem Site.Vouched.entitled {a : Access} {s : Site cfg} (hV : s.Vouched a) {user : Int64}
    (h : s.Asked user) : s.Entitled a user := by
  obtain ⟨x, hx, rfl⟩ := h
  obtain ⟨i, hi, htoken, huser, htime⟩ := hV.admitted x hx
  exact ⟨huser ▸ (hV.issued i hi).2, x, hx, rfl, i, hi, htoken, huser, htime⟩

/-- **Only bearers play.** In every run in which no token is forged, over any number of
processes and whatever the clock does: everyone with an event on the ingest stream, with an
entry in the pool, on a team of a match or in a row of `match_players` is a registered user
for whom a request was let in that carried a token handed out for that very id, no longer
than its TTL and the leeway before. -/
theorem only_bearers_play {a : Access} (hJ : a.jsonwebtoken.Documented) {s : Site cfg}
    {now : UInt64} (h : Lts.Run (Site.step a) (Site.Unforged a) (Site.init cfg now) s) :
    (∀ i ev, (i, some ev) ∈ s.world.ingest.stream.numbered → s.Entitled a ev.id) ∧
    (∀ p ∈ s.world.mem.enqueued, s.Entitled a p.id) ∧
    (∀ f ∈ s.world.history, ∀ q ∈ f.result.teamA ++ f.result.teamB, s.Entitled a q.1) ∧
    ∀ row ∈ s.world.writer.db.matchPlayers, s.Entitled a row.userId := by
  have hV : s.Vouched a := h.inv (fun hV hU hs => step_vouched hJ hV hU hs) (init_vouched now)
  have hteams : ∀ f ∈ s.world.history, ∀ q ∈ f.result.teamA ++ f.result.teamB,
      s.Entitled a q.1 := by
    intro f hf q hq
    obtain ⟨_, hasked, _⟩ := hV.copies.teams f hf q hq
    exact hV.entitled hasked
  refine ⟨fun i ev hev => hV.entitled (hV.copies.events i ev hev), fun p hp => ?_, hteams,
    fun row hrow => ?_⟩
  · obtain ⟨_, hasked, _⟩ := hV.copies.entries p hp
    exact hV.entitled hasked
  · obtain ⟨_, ⟨f, hf, rfl⟩, hmem⟩ := hV.lineage.sourced.db.players row hrow
    exact hteams f hf _ (MatchResult.fields_of_row hmem).mem

/-- Ten users sign up and queue with the tokens they got, and are matched. -/
def tenBearers : List (SiteEvent Config.small) :=
  List.replicate 10 (.signup 1500 .up) ++ .world (.ingest .run) ::
    (List.range 10).flatMap (fun i =>
      .enterQueue (ownHeader (Int64.ofNat (i + 1))) (Int64.ofNat (i + 1)) ::
        [.world (.call i .down), .world (.call i .up), .world (.call i .up),
          .world (.call i .up)]) ++
    (WorldEvent.ingest (.reply true) :: List.replicate 21 (.ingest .run) ++ formMatch).map
      SiteEvent.world

/-- Ten users sign up, queue with the tokens they got, and are matched. -/
theorem only_bearers_play_ten :
    ∃ s : Site Config.small, s.admitted.length = 10 ∧ s.world.history.length = 1 ∧
      ∀ f ∈ s.world.history, ∀ q ∈ f.result.teamA ++ f.result.teamB, s.Entitled textAccess q.1 := by
  have hexec : (Lts.exec (Site.step textAccess) (fun s e => s.Unforged textAccess e)
      (Site.init Config.small 0) tenBearers).any
      (fun s => s.admitted.length = 10 ∧ s.world.history.length = 1) = true := by decide +kernel
  obtain ⟨s, hrun, htest⟩ := Lts.exists_run_of_exec hexec
  obtain ⟨hten, hone⟩ := of_decide_eq_true htest
  obtain ⟨_, _, hteams, _⟩ :=
    only_bearers_play textJwt_documented (hrun.mono of_decide_eq_true)
  exact ⟨s, hten, hone, hteams⟩

/-- **A token opens its own door, and only that.** In every run: whoever holds a token that
was handed out, at any later time, for any path, and with any blanks around it in the
header, is let in while it lives if the path is the user's own; gets a 403 if it is not;
and a 401 once it has expired. The expiry is the `u64` sum. -/
theorem token_opens_own_path {a : Access} (hJ : a.jsonwebtoken.Documented)
    (hC : Compact a.jsonwebtoken) {s : Site cfg} {start : UInt64}
    (h : Lts.Run (Site.step a) (Site.Unforged a) (Site.init cfg start) s) {i : Issued}
    (hi : i ∈ s.issued) {pre post : List Char} (hpre : Text.Blank pre) (hpost : Text.Blank post)
    (hascii : Visible (pre ++ post)) (now : UInt64) (userId : Int64) :
    a.checkBearer now (some (asciiBytes (bearerPrefix ++ (pre ++ i.token ++ post)))) userId =
      if (i.issuedAt.toNat + a.jwtTtlSecs.toNat) % 2 ^ 64 + 60 < now.toNat then
        .error (.unauthorized "token expired")
      else if i.user = userId then .ok i.token
      else .error (.forbidden "token does not match user") := by
  have hV : s.Vouched a := h.inv (fun hV hU hs => step_vouched hJ hV hU hs) (init_vouched start)
  have hissue := (hV.issued i hi).1
  have hgraphic : ∀ c ∈ i.token, 33 ≤ c.toNat ∧ c.toNat < 127 := hC hissue
  have hvisible : Visible (pre ++ i.token ++ post) := by
    intro c hc
    rcases List.mem_append.mp hc with hc | hc
    · rcases List.mem_append.mp hc with hc | hc
      · exact hascii c (List.mem_append_left _ hc)
      · have hrange := hgraphic c hc
        omega
    · exact hascii c (List.mem_append_right _ hc)
  have htrimmed : Text.Trimmed i.token :=
    Text.trimmed_of_forall fun c hc => Text.graphic_not_blank (hgraphic c hc)
  rw [checkBearer_issued hJ hissue (presented_bearer hvisible hpre hpost htrimmed),
    issueClaims_exp]

/-- The first user's token, a minute after it has expired, between a tab and a blank. -/
theorem token_opens_own_path_tab :
    ∃ (s : Site Config.small) (i : Issued), i ∈ s.issued ∧
      textAccess.checkBearer 3660
          (some (asciiBytes (bearerPrefix ++ (['\t'] ++ i.token ++ [' '])))) 1
        = .ok i.token ∧
      textAccess.checkBearer 3661
          (some (asciiBytes (bearerPrefix ++ (['\t'] ++ i.token ++ [' '])))) 1
        = .error (.unauthorized "token expired") := by
  have hexec : (Lts.exec (Site.step textAccess) (fun s e => s.Unforged textAccess e)
      (Site.init Config.small 0) [.signup 1500 .up]).any
      (fun s => ∃ i ∈ s.issued, i.user = 1 ∧ i.issuedAt = 0) = true := by decide +kernel
  obtain ⟨s, hrun, htest⟩ := Lts.exists_run_of_exec hexec
  obtain ⟨i, hi, huser, hissued⟩ := of_decide_eq_true htest
  have htab : Text.Blank ['\t'] := fun c hc => by
    rw [List.mem_singleton.mp hc]
    rfl
  have hspace : Text.Blank [' '] := fun c hc => by
    rw [List.mem_singleton.mp hc]
    rfl
  have hascii : Visible (['\t'] ++ [' ']) := by
    simp [Visible]
  have hanswer := token_opens_own_path textJwt_documented textJwt_compact
    (hrun.mono of_decide_eq_true) hi htab hspace hascii
  have hlast := hanswer 3660 1
  have hlate := hanswer 3661 1
  rw [hissued, huser] at hlast hlate
  exact ⟨s, i, hi, hlast, hlate⟩

end Supermatchmaker.Api
