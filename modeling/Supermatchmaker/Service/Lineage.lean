import Supermatchmaker.Service.Identity
import Supermatchmaker.Sync.Stored

/-!
# Where ratings come from

A rating is stated once, at sign-up, and copied from then on: into the player
cache, into the ingest event, into the pool, into a snapshot and back, into a
team, onto the sync stream and into a row of `match_players`. Nobody compares a
copy with its original again, and `match_players.user_id` has no foreign key.

`Core.Copies` and `World.Quotes` follow the copies, for any relation `rated` that
the calls in progress respect; `World.Lineage` puts `users` in for it. Since no
statement writes `users.rating` or deletes a row (`ratingOf_kept`), a copy never
goes stale, however many processes lie between it and the row it is a copy of.
-/

namespace Supermatchmaker

variable {cfg : Config}

/-! ## The column -/

/-- No rewriting of a user row changes what is found of its rating. -/
theorem find_map_user {f : UserRow → UserRow} (hid : ∀ u, (f u).id = u.id)
    (hrating : ∀ u, (f u).rating = u.rating) (users : List UserRow) (userId : Int64) :
    ((users.map f).find? fun u => u.id = userId).map UserRow.rating
      = (users.find? fun u => u.id = userId).map UserRow.rating := by
  rw [List.find?_map, Option.map_map]
  have hpred : ((fun u : UserRow => decide (u.id = userId)) ∘ f)
      = fun u => decide (u.id = userId) := by
    funext u
    exact congrArg (fun i => decide (i = userId)) (hid u)
  rw [hpred]
  exact congrArg (fun g => Option.map g _) (funext hrating)

/-- A stored rating is there for good. -/
theorem ratingOf_kept {db db' : Db} {de : DbEvent} {userId : Int64} {rating : Int32}
    (hr : ratingOf db userId = some rating) (h : db.step de = some db') :
    ratingOf db' userId = some rating := by
  cases step_outcome h with
  | notSignedUp | refused | notEnded | ended => exact hr
  | signedUp _ _ =>
    obtain ⟨u, hu, hrating⟩ := Option.map_eq_some_iff.mp hr
    refine Option.map_eq_some_iff.mpr ⟨u, ?_, hrating⟩
    show (db.users ++ [_]).find? _ = some u
    rw [List.find?_append, hu]
    rfl
  | stored _ _ _ =>
    refine (find_map_user (fun u => ?_) (fun u => ?_) db.users userId).trans hr
    · split <;> rfl
    · split <;> rfl

/-- The user has this rating in `users`. -/
def Db.rated (db : Db) (userId : Int64) (rating : Int32) : Prop := ratingOf db userId = some rating

/-- A rating in `users` is that of a row. -/
theorem Db.rated.user {db : Db} {userId : Int64} {rating : Int32} (h : db.rated userId rating) :
    ∃ u ∈ db.users, u.id = userId ∧ u.rating = rating := by
  obtain ⟨u, hu, hrating⟩ := Option.map_eq_some_iff.mp h
  exact ⟨u, List.mem_of_find?_eq_some hu, of_decide_eq_true (List.find?_some hu :), hrating⟩

/-- `BIGSERIAL`: the users are numbered from 1, without a gap. -/
structure Db.Serial (db : Db) : Prop where
  ids : db.users.map UserRow.id = (List.range' 1 db.users.length).map Int64.ofNat
  next : db.nextUserId = db.users.length + 1
  bound : db.users.length < 2 ^ 63

theorem empty_serial : Db.empty.Serial := ⟨rfl, rfl, by decide⟩

/-- **Step**: ids of users come from the sequence, one after the other. -/
theorem step_serial {db db' : Db} {de : DbEvent} (hdb : db.Serial) (h : db.step de = some db') :
    db'.Serial := by
  cases step_outcome h with
  | notSignedUp | refused | notEnded | ended => exact ⟨hdb.ids, hdb.next, hdb.bound⟩
  | signedUp _ hid =>
    have hnext := hdb.next
    refine ⟨?_, ?_, ?_⟩
    · show (db.users ++ [_]).map UserRow.id = (List.range' 1 (db.users ++ [_]).length).map _
      rw [List.map_append, hdb.ids, List.length_append, List.length_singleton,
        List.range'_concat, List.map_append, List.map_singleton, List.map_singleton, Nat.one_mul,
        hnext, Nat.add_comm 1]
    · show db.nextUserId + 1 = (db.users ++ [_]).length + 1
      rw [hnext, List.length_append, List.length_singleton]
    · show (db.users ++ [_]).length < 2 ^ 63
      rw [List.length_append, List.length_singleton]
      omega
  | @stored batch _ _ _ _ =>
    have hids : (stored db batch).users.map UserRow.id = db.users.map UserRow.id := by
      show (List.map _ db.users).map UserRow.id = _
      rw [List.map_map]
      refine List.map_congr_left fun u _ => ?_
      show UserRow.id (if _ then _ else _) = _
      split <;> rfl
    have hlen : (stored db batch).users.length = db.users.length := List.length_map _
    exact ⟨by rw [hids, hlen]; exact hdb.ids, by rw [hlen]; exact hdb.next,
      by rw [hlen]; exact hdb.bound⟩

theorem Db.Serial.nodup {db : Db} (h : db.Serial) : (db.users.map UserRow.id).Nodup := by
  rw [h.ids]
  refine List.Nodup.map_on (fun i hi j hj heq => ?_) List.nodup_range'
  have hbound := h.bound
  rw [List.mem_range'_1] at hi hj
  have hint := congrArg Int64.toInt heq
  rw [Int64.toInt_ofNat_of_lt (by omega), Int64.toInt_ofNat_of_lt (by omega)] at hint
  exact Int.ofNat.inj hint


/-- What every call to the database keeps, every step of the service keeps. -/
theorem step_tables {s t : World cfg} {e : WorldEvent cfg} {P : Db → Prop} (hF : Founded s.mem)
    (hP : ∀ {db db' de}, P db → db.step de = some db' → P db') (hs : P s.writer.db)
    (h : s.step e = some t) : P t.writer.db := by
  rcases step_writer hF h with heq | ⟨ev, _, hstep⟩
  · rw [heq]
    exact hs
  · rcases Writer.step_db hstep with heq | ⟨de, hde, _⟩
    · rw [heq]
      exact hs
    · exact hP hs hde

/-! ## The copies in the core -/

/-- The entry has its user's rating, as the pool keeps it. -/
def Player.Rated (p : Player Nat) (rated : Int64 → Int32 → Prop) : Prop :=
  ∃ r, rated p.id r ∧ p.rating = (max r 0).toUInt32

/-- So has the team member, as the roster keeps it. -/
def MemberRated (q : Int64 × Int32) (rated : Int64 → Int32 → Prop) : Prop :=
  ∃ r, rated q.1 r ∧ q.2 = max r 0

/-- Every event, pool entry, snapshot player and team member has a rating that is `rated`. -/
structure Core.Copies (c : Core cfg) (rated : Int64 → Int32 → Prop) : Prop where
  events : ∀ i ev, (i, some ev) ∈ c.ingest.stream.numbered → rated ev.id ev.rating
  ahead : ∀ x ∈ c.ingest.ahead, rated x.2.id x.2.rating
  entries : ∀ p ∈ c.mem.enqueued, p.Rated rated
  snaps : ∀ snap ∈ c.snapshots, ∀ p ∈ snap.players, p.Rated rated
  teams : ∀ f ∈ c.history, ∀ q ∈ f.result.teamA ++ f.result.teamB, MemberRated q rated

theorem Core.Copies.mono {c : Core cfg} {rated rated' : Int64 → Int32 → Prop} (h : c.Copies rated)
    (hsub : ∀ u r, rated u r → rated' u r) : c.Copies rated' where
  events i ev hmem := hsub _ _ (h.events i ev hmem)
  ahead x hx := hsub _ _ (h.ahead x hx)
  entries p hp := (h.entries p hp).imp fun _ hr => ⟨hsub _ _ hr.1, hr.2⟩
  snaps snap hsnap p hp := (h.snaps snap hsnap p hp).imp fun _ hr => ⟨hsub _ _ hr.1, hr.2⟩
  teams f hf q hq := (h.teams f hf q hq).imp fun _ hr => ⟨hsub _ _ hr.1, hr.2⟩

/-- An entry has the rating of its event. -/
theorem Player.Made.rated {p : Player Nat} {e : Nat × IngestEvent} {rated : Int64 → Int32 → Prop}
    (h : p.Made e) (hr : rated e.2.id e.2.rating) : p.Rated rated := by
  refine ⟨e.2.rating, ?_, h.rating⟩
  rw [h.id]
  exact hr

/-- A restored entry has the rating of the one captured. -/
theorem Player.Same.rated {p q : Player Nat} {rated : Int64 → Int32 → Prop} (h : p.Same q)
    (hq : q.Rated rated) : p.Rated rated := by
  obtain ⟨r, hr, heq⟩ := hq
  exact ⟨r, h.id ▸ hr, h.rating.trans heq⟩

/-- An event on the stream was there before or is that of the call that publishes. -/
theorem Effect.events {s : World cfg} {e : WorldEvent cfg} {c : Core cfg} (h : Effect s e c) :
    ∀ i ev, (i, some ev) ∈ c.ingest.stream.numbered → (i, some ev) ∈ s.ingest.stream.numbered ∨
      ∃ k : Nat, s.calls[k]? = some ⟨ev.id, .publish ev.rating⟩ := by
  intro i ev hmem
  cases h with
  | @xadd k _ user rating hcall _ =>
    change (i, some ev) ∈ (s.ingest.stream.append (some ⟨user, rating⟩)).numbered at hmem
    rw [Log.numbered_append] at hmem
    rcases List.mem_append.mp hmem with hmem | hmem
    · exact .inl hmem
    · rw [List.mem_singleton, Prod.mk.injEq, Option.some.injEq] at hmem
      rw [hmem.2]
      exact .inr ⟨k, hcall⟩
  | @ingest _ ingest _ hstep =>
    left
    have hstream := congrArg Log.numbered (Ingest.threadStep_frame hstep).1
    rw [← hstream]
    exact hmem
  | _ => exact .inl hmem

/-- The teams have the ratings of the group, which fit the roster's column. -/
theorem Founded.memberRated {m : Matcher cfg Nat} {rated : Int64 → Int32 → Prop} (hI : Inv m)
    (hF : Founded m) (hentries : ∀ p ∈ m.enqueued, p.Rated rated) {f : Formed Nat}
    (hf : f ∈ m.formed) : ∀ q ∈ f.result.teamA ++ f.result.teamB, MemberRated q rated := by
  intro q hq
  obtain ⟨p, hp, rfl⟩ := List.mem_map.mp ((hF.teams hf).2.2.subset hq)
  obtain ⟨r, hr, heq⟩ := hentries p (hI.mem_of_matched hf hp)
  refine ⟨r, hr, ?_⟩
  show p.rating.toInt32 = max r 0
  rw [heq, Int32.toInt32_toUInt32]

/-- **Step** of the core. -/
theorem Effect.copies {s : World cfg} {e : WorldEvent cfg} {c : Core cfg}
    {rated : Int64 → Int32 → Prop} (hS : Sound s.toCore) (hR : s.toCore.Copies rated)
    (hcalls : ∀ (k : Nat) (user : Int64) (rating : Int32),
      s.calls[k]? = some ⟨user, .publish rating⟩ → rated user rating)
    (h : Effect s e c) : c.Copies rated := by
  obtain ⟨hI, hF⟩ := h.process_inv hS.inv hS.founded
  have hevents : ∀ i ev, (i, some ev) ∈ c.ingest.stream.numbered → rated ev.id ev.rating := by
    intro i ev hmem
    rcases h.events i ev hmem with hold | ⟨k, hcall⟩
    · exact hR.events i ev hold
    · exact hcalls k ev.id ev.rating hcall
  have hentries : ∀ p ∈ c.mem.enqueued, p.Rated rated := by
    intro p hp
    rcases h.entries hS.inv hS.thread p hp with hold | ⟨x, hx, hmade⟩ | ⟨snap, hsnap, q, hq, hsame⟩
    · exact hR.entries p hold
    · exact hmade.rated (hR.ahead x hx)
    · exact hsame.rated (hR.snaps snap (List.mem_append_right _ hsnap) q hq)
  refine ⟨hevents, fun x hx => ?_, hentries, fun snap hsnap p hp => ?_, fun f hf => ?_⟩
  · rcases h.ahead hS.thread x hx with hold | hnew
    · exact hR.ahead x hold
    · exact hevents x.1 x.2 hnew
  · rcases h.snapshots snap hsnap with hold | rfl | ⟨next, old, hlt, hpc, rfl⟩
    · exact hR.snaps snap hold p hp
    · cases hp
    · rcases List.mem_append.mp hp with hp | hp
      · exact hR.snaps old (mem_snapshots_of_copying hpc) p hp
      · exact hR.entries p (hS.inv.mem_of_waiting (mem_waiting_of_bucket hp))
  · rcases h.history_eq hS.inv with heq | ⟨g, _, _, heq, hg, _⟩ <;> rw [heq] at hf
    · exact hR.teams f hf
    · rcases List.mem_append.mp hf with hf | hf
      · exact hR.teams f hf
      · rw [List.mem_singleton.mp hf]
        exact hF.memberRated hI hentries hg

/-! ## The copies in the calls and the cache -/

/-- The rating the call goes on with. -/
def CallPc.rating : CallPc → Option Int32
  | .store rating => some rating
  | .publish rating => some rating
  | _ => none

/-- Every rating that a call has read or that is cached is `rated`. -/
structure World.Quotes (s : World cfg) (rated : Int64 → Int32 → Prop) : Prop where
  calls : ∀ call ∈ s.calls, ∀ r, call.pc.rating = some r → rated call.user r
  cache : ∀ u r, s.playerCache u = some r → rated u r

theorem World.Quotes.mono {s : World cfg} {rated rated' : Int64 → Int32 → Prop}
    (h : s.Quotes rated) (hsub : ∀ u r, rated u r → rated' u r) : s.Quotes rated' where
  calls call hcall r hr := hsub _ _ (h.calls call hcall r hr)
  cache u r hr := hsub _ _ (h.cache u r hr)

theorem World.Quotes.frame {s t : World cfg} {rated : Int64 → Int32 → Prop} (h : s.Quotes rated)
    (hcalls : t.calls = s.calls) (hcache : t.playerCache = s.playerCache) : t.Quotes rated where
  calls := by
    rw [hcalls]
    exact h.calls
  cache := by
    rw [hcache]
    exact h.cache

/-- One call goes on, with a rating that is its user's. -/
theorem World.Quotes.setCall {s : World cfg} {rated : Int64 → Int32 → Prop} (h : s.Quotes rated)
    (c : Nat) {call : Call} (hcall : ∀ r, call.pc.rating = some r → rated call.user r) :
    (s.setCall c call).Quotes rated where
  calls call' hmem r hr := by
    rcases List.mem_or_eq_of_mem_set hmem with hold | rfl
    · exact h.calls call' hold r hr
    · exact hcall r hr
  cache := h.cache

/-- **Step** of a call: it reads a rating from the cache or from `users`, and passes it on. -/
theorem callStep_quotes {s t : World cfg} {c : Nat} {link : Link}
    (hQ : s.Quotes s.writer.db.rated) (h : s.callStep c link = some t) :
    t.Quotes s.writer.db.rated := by
  have hdone : ∀ user r, (⟨user, .done⟩ : Call).pc.rating = some r → s.writer.db.rated user r :=
    fun _ _ hr => by cases hr
  have hmem : ∀ {call}, s.calls[c]? = some call → call ∈ s.calls := List.mem_of_getElem?
  unfold World.callStep at h
  split at h
  next user hcall =>
    split at h <;> simp only [Option.some.injEq] at h <;> subst h
    next rating hcached =>
      refine hQ.setCall c fun r hr => ?_
      obtain rfl : rating = r := Option.some.inj hr
      split at hcached
      · exact hQ.cache user rating hcached
      · cases hcached
    next => exact hQ.setCall c fun r hr => by cases hr
  next user hcall =>
    split at h <;> simp only [Option.some.injEq] at h <;> subst h
    next rating hstored =>
      refine hQ.setCall c fun r hr => ?_
      obtain rfl : rating = r := Option.some.inj hr
      split at hstored
      · exact hstored
      · cases hstored
    next => exact hQ.setCall c (hdone user)
  next user rating hcall =>
    simp only [Option.some.injEq] at h
    subst h
    have hrated : s.writer.db.rated user rating := hQ.calls _ (hmem hcall) rating rfl
    have hcached : World.Quotes { s with
        playerCache := if link = .down then s.playerCache
          else Function.update s.playerCache user (some rating) } s.writer.db.rated := by
      refine ⟨hQ.calls, fun u r hr => ?_⟩
      simp only at hr
      split at hr
      · exact hQ.cache u r hr
      · -- the cached rating is the one the call carries
        by_cases hu : u = user
        · rw [hu, Function.update_self, Option.some.injEq] at hr
          rw [hu, ← hr]
          exact hrated
        · rw [Function.update_of_ne hu] at hr
          exact hQ.cache u r hr
    refine hcached.setCall c fun r hr => ?_
    obtain rfl : rating = r := Option.some.inj hr
    exact hrated
  next user rating hcall =>
    split at h <;> simp only [Option.some.injEq] at h <;> subst h
    · exact hQ.setCall c (hdone user)
    · have hframe : World.Quotes { s with ingest := s.ingest.xadd (some ⟨user, rating⟩) }
          s.writer.db.rated := hQ.frame rfl rfl
      refine hframe.setCall c fun r hr => ?_
      simp only at hr
      split at hr <;> cases hr
  next user origin hcall =>
    split at h <;> simp only [Option.some.injEq] at h <;> subst h
    · exact hQ.setCall c (hdone user)
    · have hframe : (s.setStatus user (some .queued) (.queued user origin)).Quotes
          s.writer.db.rated := hQ.frame rfl rfl
      exact hframe.setCall c (hdone user)
  · cases h
  · cases h

theorem execute_calls (s : World cfg) (cmd : Option (Formed Nat × Command Nat)) :
    (s.execute cmd).calls = s.calls ∧ (s.execute cmd).playerCache = s.playerCache := by
  unfold World.execute
  split <;> exact ⟨rfl, rfl⟩

theorem snapStep_calls {s t : World cfg} {e : SnapStep} (h : s.snapStep e = some t) :
    t.calls = s.calls ∧ t.playerCache = s.playerCache := by
  cases e with
  | run =>
    simp only [World.snapStep] at h
    split at h
    · cases h
      exact ⟨rfl, rfl⟩
    · split at h <;> cases h <;> exact ⟨rfl, rfl⟩
    · cases h
  | written ok | trimmed upTo =>
    simp only [World.snapStep] at h
    split at h <;> cases h
    exact ⟨rfl, rfl⟩

/-- **Step** of the calls and the cache. -/
theorem step_quotes {s t : World cfg} {e : WorldEvent cfg} (hQ : s.Quotes s.writer.db.rated)
    (h : s.step e = some t) : t.Quotes s.writer.db.rated := by
  cases e with
  | call c link => exact callStep_quotes hQ h
  | request user =>
    simp only [World.step, Option.some.injEq] at h
    subst h
    refine ⟨fun call hmem r hr => ?_, hQ.cache⟩
    rcases List.mem_append.mp hmem with hold | hnew
    · exact hQ.calls call hold r hr
    · rw [List.mem_singleton.mp hnew] at hr
      cases hr
  | expirePlayer user =>
    simp only [World.step, Option.some.injEq] at h
    subst h
    refine ⟨hQ.calls, fun u r hr => ?_⟩
    by_cases hu : u = user
    · simp only [hu, Function.update_self, reduceCtorEq] at hr
    · simp only [Function.update_of_ne hu] at hr
      exact hQ.cache u r hr
  | restart =>
    simp only [World.step, Option.some.injEq] at h
    subst h
    exact ⟨List.forall_mem_nil _, hQ.cache⟩
  | worker w e =>
    simp only [World.step, Option.map_eq_some_iff] at h
    obtain ⟨mem, _, rfl⟩ := h
    obtain ⟨hcalls, hcache⟩ := execute_calls s (World.effective e (s.mem.workers w).command)
    exact hQ.frame hcalls hcache
  | retry e =>
    simp only [World.step, Option.map_eq_some_iff] at h
    obtain ⟨mem, _, rfl⟩ := h
    obtain ⟨hcalls, hcache⟩ := execute_calls s (World.effective e s.mem.retry.command)
    exact hQ.frame hcalls hcache
  | snapshot e =>
    obtain ⟨hcalls, hcache⟩ := snapStep_calls h
    exact hQ.frame hcalls hcache
  | ingest e =>
    simp only [World.step, Option.map_eq_some_iff] at h
    obtain ⟨_, _, rfl⟩ := h
    exact hQ.frame rfl rfl
  | poller e =>
    simp only [World.step, Option.map_eq_some_iff] at h
    obtain ⟨_, _, rfl⟩ := h
    exact hQ.frame rfl rfl
  | signup rating | endMatch matchId pg | expireStatus user | tick nanos =>
    simp only [World.step, Option.some.injEq] at h
    subst h
    exact hQ.frame rfl rfl

/-! ## All copies -/

/-- The invariant: every rating anywhere is the one in `users`, and every row of the match
tables goes back to a formed match. -/
structure World.Lineage (s : World cfg) : Prop where
  sound : Sound s.toCore
  keyed : s.writer.db.Keyed
  serial : s.writer.db.Serial
  core : s.toCore.Copies s.writer.db.rated
  quotes : s.Quotes s.writer.db.rated
  sourced : s.writer.Sourced fun r => ∃ f ∈ s.history, f.result = r

theorem init_lineage : (World.init cfg).Lineage where
  sound := init_sound
  keyed := empty_keyed
  serial := empty_serial
  core := ⟨nofun, nofun, nofun, nofun, nofun⟩
  quotes := ⟨nofun, nofun⟩
  sourced := Writer.init_sourced _

/-- **Step** of the invariant. -/
theorem step_lineage {s t : World cfg} {e : WorldEvent cfg} (hL : s.Lineage)
    (h : s.step e = some t) : t.Lineage := by
  have heff := step_effect hL.sound.founded h
  have hkept : ∀ u r, s.writer.db.rated u r → t.writer.db.rated u r :=
    fun u r hr => step_tables hL.sound.founded ratingOf_kept hr h
  have hsourced : t.writer.Sourced fun r => ∃ f ∈ s.history, f.result = r := by
    rcases step_writer hL.sound.founded h with heq | ⟨ev, hw, hstep⟩
    · rw [heq]
      exact hL.sourced
    · refine Writer.step_sourced hL.sourced (fun r hr => ?_) hstep
      cases hw with
      | @xadd _ f hf =>
        rw [Writer.Event.xadd.injEq, Option.some.injEq] at hr
        exact ⟨f, List.mem_append_right _ hf, hr⟩
      | _ => cases hr
  refine ⟨heff.sound hL.sound, step_tables hL.sound.founded step_keyed hL.keyed h,
    step_tables hL.sound.founded step_serial hL.serial h, ?_, (step_quotes hL.quotes h).mono hkept,
    hsourced.mono ?_⟩
  · refine (heff.copies hL.sound hL.core fun k user rating hcall => ?_).mono hkept
    exact hL.quotes.calls _ (List.mem_of_getElem? hcall) rating rfl
  · rintro r ⟨f, hf, hr⟩
    exact ⟨f, heff.history hL.sound.inv hf, hr⟩

/-! ## The result -/

/-- The id is that of a user who has signed up, and the rating is the one stated then,
negative ones as 0. -/
def Db.Genuine (db : Db) (userId : Int64) (rating : Int32) : Prop :=
  ∃ u ∈ db.users, u.id = userId ∧ rating = max u.rating 0

/-- The player is one of the match. -/
def MatchResult.Fields (r : MatchResult) (row : PlayerRow) : Prop :=
  row.matchId = r.matchId.toInt64 ∧
    (row.userId, row.rating) ∈ (match row.team with | .A => r.teamA | .B => r.teamB)

/-- A row of a match is one of its players. -/
theorem MatchResult.fields_of_row {r : MatchResult} {row : PlayerRow}
    (h : { row with active := true } ∈ r.item.playerRows true) : r.Fields row := by
  rcases List.mem_append.mp h with h | h
  all_goals
    obtain ⟨q, hq, heq⟩ := List.mem_map.mp h
    obtain ⟨matchId, userId, team, rating, active⟩ := row
    cases heq
    exact ⟨rfl, hq⟩

/-- A member whose rating is that of `users` is genuine. -/
theorem MemberRated.genuine {q : Int64 × Int32} {db : Db} (h : MemberRated q db.rated) :
    db.Genuine q.1 q.2 := by
  obtain ⟨r, hr, heq⟩ := h
  obtain ⟨u, hu, hid, hrating⟩ := hr.user
  exact ⟨u, hu, hid, by rw [hrating, heq]⟩

theorem MatchResult.Fields.mem {r : MatchResult} {row : PlayerRow} (h : r.Fields row) :
    (row.userId, row.rating) ∈ r.teamA ++ r.teamB := by
  obtain ⟨_, hmem⟩ := h
  cases hteam : row.team <;> rw [hteam] at hmem
  · exact List.mem_append_left _ hmem
  · exact List.mem_append_right _ hmem

/-- **Nothing in the service is made up.** In every run, whatever crashes, is restored or
inserted twice: the members of every match ever formed are users who have signed up, with
the ratings they stated, negative ones as 0; every row of `matches` is the row of a match
that was formed; and every row of `match_players` has its match in `matches`, its user in
`users`, and is a member, in that team and with that rating, of a match that was formed under
that id. -/
theorem rows_genuine {s : World cfg} (h : Lts.Run World.step Lts.Free (World.init cfg) s) :
    (s.writer.db.users.map UserRow.id).Nodup ∧
    (∀ f ∈ s.history, ∀ q ∈ f.result.teamA ++ f.result.teamB, s.writer.db.Genuine q.1 q.2) ∧
    (∀ row ∈ s.writer.db.matchRows, ∃ f ∈ s.history,
      row.id = f.result.matchId.toInt64 ∧ row.spread = f.result.spread.toInt32) ∧
    ∀ row ∈ s.writer.db.matchPlayers, row.matchId ∈ s.writer.db.matchRows.map MatchRow.id ∧
      s.writer.db.Genuine row.userId row.rating ∧ ∃ f ∈ s.history, f.result.Fields row := by
  have hL := h.inv (I := World.Lineage) (fun hL _ hs => step_lineage hL hs) init_lineage
  have hteams : ∀ f ∈ s.history, ∀ q ∈ f.result.teamA ++ f.result.teamB,
      s.writer.db.Genuine q.1 q.2 := fun f hf q hq => (hL.core.teams f hf q hq).genuine
  refine ⟨hL.serial.nodup, hteams, fun row hrow => ?_, fun row hrow => ?_⟩
  · obtain ⟨_, ⟨f, hf, rfl⟩, heq⟩ := hL.sourced.db.rows row hrow
    exact ⟨f, hf, congrArg MatchRow.id heq, congrArg MatchRow.spread heq⟩
  · obtain ⟨_, ⟨f, hf, rfl⟩, hmem⟩ := hL.sourced.db.players row hrow
    have hfields := MatchResult.fields_of_row hmem
    exact ⟨hL.keyed.owned row hrow, hteams f hf _ hfields.mem, f, hf, hfields⟩

/-- Two processes store a match under the same id: its twenty rows are all somebody's. -/
theorem rows_genuine_twice :
    ∃ s : World Config.small, s.writer.db.matchPlayers.length = 20 ∧
      ∀ row ∈ s.writer.db.matchPlayers, s.writer.db.Genuine row.userId row.rating := by
  have hexec : (Lts.exec World.step (fun _ _ => true) (World.init Config.small)
      (playMatch (fun i => Int64.ofNat (i + 1)) ++ .restart ::
        playMatch (fun i => Int64.ofNat (i + 11)))).any
      (fun s => s.writer.db.matchPlayers.length = 20) = true := by decide +kernel
  obtain ⟨s, hrun, htwenty⟩ := Lts.exists_run_of_exec hexec
  obtain ⟨_, _, _, hplayers⟩ := rows_genuine hrun.free
  exact ⟨s, of_decide_eq_true htwenty, fun row hrow => (hplayers row hrow).2.1⟩

end Supermatchmaker
