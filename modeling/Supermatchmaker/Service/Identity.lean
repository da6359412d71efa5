import Supermatchmaker.Lib.Lts
import Supermatchmaker.Service.Effects
import Supermatchmaker.Sync.Rows

/-!
# Match identity

Every process numbers its matches from 1, whatever earlier processes wrote to the
same database: `next_match_id` is created in `main` and never initialised from
`matches`. So the first match after a restart takes the id of the first match
before it (`match_id_reused`), the insert skips its row and adds its players to
the old one's.

When a process forms no match under a count an earlier process has used
(`World.Identifying`), ids are distinct over all lifetimes, and every row of
`matches` has the ten players of its match: `match_identity`. The first half
rests on `Counted`, the ordinals of all matches ever formed; the second carries
`Writer.Filed` along, over the projection of a run to the stream, the poller and
the database (`step_writer`).
-/

namespace Supermatchmaker

variable {cfg : Config}

/-! ## The write-behind as part of the service -/

/-- What an event of the service is for the sync stream, the poller and the
database. -/
inductive Writes (s : World cfg) : WorldEvent cfg → Writer.Event → Prop
  | createUser (rating : Int32) : Writes s (.signup rating) (.createUser rating)
  | xadd {e : WorldEvent cfg} {f : Formed Nat} (hf : f ∈ s.mem.formed) :
      Writes s e (.xadd (some f.result))
  | poller (e : PollerStep) : Writes s (.poller e) (.poller e)
  | endMatch (matchId : Int64) (pg : Pg) : Writes s (.endMatch matchId pg) (.endMatch matchId pg)
  | crash : Writes s .restart .crash

/-- The write-behind stands still or takes a step of its own. -/
def Projects (s : World cfg) (e : WorldEvent cfg) (w : Writer) : Prop :=
  w = s.writer ∨ ∃ ev, Writes s e ev ∧ s.writer.step ev = some w

/-- Of the commands of a commit only the `XADD` reaches the sync stream. -/
theorem Executed.projects {s t : World cfg} (e : WorldEvent cfg) (h : Executed s t) :
    Projects s e t.writer := by
  cases h with
  | nothing ht =>
    rw [ht]
    exact .inl rfl
  | matched _ _ ht =>
    rw [ht]
    exact .inl rfl
  | published hf ht =>
    rw [ht]
    exact .inr ⟨_, .xadd hf, rfl⟩

/-- **Projection** of a step. -/
theorem step_writer {s s' : World cfg} {e : WorldEvent cfg} (hF : Founded s.mem)
    (h : s.step e = some s') : Projects s e s'.writer := by
  cases e with
  | signup rating =>
    simp only [World.step, Option.some.injEq] at h
    subst h
    exact .inr ⟨_, .createUser rating, rfl⟩
  | call c link => exact .inl (callStep_move h).writer
  | ingest e =>
    simp only [World.step, Option.map_eq_some_iff] at h
    obtain ⟨⟨ingest, call⟩, _, rfl⟩ := h
    exact .inl rfl
  | worker w e =>
    simp only [World.step, Option.map_eq_some_iff] at h
    obtain ⟨mem, _, rfl⟩ := h
    exact (execute_executed fun f c => worker_command hF).projects (.worker w e)
  | retry e =>
    simp only [World.step, Option.map_eq_some_iff] at h
    obtain ⟨mem, _, rfl⟩ := h
    exact (execute_executed fun f c => retry_command hF).projects (.retry e)
  | snapshot e => exact .inl (snapStep_frame h).2.2
  | poller e =>
    simp only [World.step, Option.map_eq_some_iff] at h
    obtain ⟨writer, hstep, rfl⟩ := h
    exact .inr ⟨_, .poller e, hstep⟩
  | endMatch matchId pg =>
    simp only [World.step, Option.some.injEq] at h
    subst h
    exact .inr ⟨_, .endMatch matchId pg, rfl⟩
  | restart =>
    simp only [World.step, Option.some.injEq] at h
    subst h
    exact .inr ⟨_, .crash, rfl⟩
  | request user | expireStatus user | expirePlayer user | tick nanos =>
    simp only [World.step, Option.some.injEq] at h
    subst h
    exact .inl rfl

/-- **Simulation**: within the service the write-behind runs as it does on its
own, so what holds of its runs holds of it there. -/
theorem writer_run {s : World cfg} (h : Lts.Run World.step Lts.Free (World.init cfg) s) :
    Lts.Run Writer.step Lts.Free Writer.init s.writer := by
  refine h.map (I := fun s => Sound s.toCore) World.writer (fun hS _ hs => step_sound hS hs)
    (fun hS _ hs => ?_) init_sound
  rcases step_writer hS.founded hs with heq | ⟨ev, _, hstep⟩
  · rw [heq]
    exact .refl
  · exact .single trivial hstep

/-! ## What is stored of a match -/

/-- The row of `matches` is the match's, and its player rows are the match's
players: ten, five in each team. -/
structure Db.Records (db : Db) (row : MatchRow) (f : Formed Nat) : Prop where
  own : row.id = f.result.matchId.toInt64 ∧ row.spread = f.result.spread.toInt32
  ten : (db.rowsOf row.id).length = 10
  teamA : ((db.rowsOf row.id).filter (·.team = .A)).map (fun r => (r.userId, r.rating))
    = f.result.teamA
  teamB : ((db.rowsOf row.id).filter (·.team = .B)).map (fun r => (r.userId, r.rating))
    = f.result.teamB
  five : f.result.teamA.length = 5 ∧ f.result.teamB.length = 5
  players : ((db.rowsOf row.id).map PlayerRow.userId).Perm (f.group.toList.map Player.id)

/-- No two matches ever formed share an id, and the tables record them. -/
structure World.MatchIdentity (s : World cfg) : Prop where
  ids : (s.history.map fun f => f.result.matchId).Nodup
  rows : ∀ row ∈ s.writer.db.matchRows, ∃ f ∈ s.history, s.writer.db.Records row f

namespace World

variable (s : World cfg)

/-- No earlier process formed a match when it had drawn as many ids as this one
has now, and the counter has not wrapped round. -/
def Fresh : Prop := (∀ f ∈ s.past, f.ordinal ≠ s.mem.drawn) ∧ s.mem.drawn < 2 ^ 64

instance : Decidable s.Fresh :=
  @instDecidableAnd _ _ (List.decidableBAll _ s.past) (Nat.decLt _ _)

/-- A match is formed under a fresh count only, and no match is inserted again
after it was ended. -/
def Identifying : WorldEvent cfg → Prop
  | .worker w _ => s.Fresh ∨ ¬ s.mem.Admits (s.mem.workers w)
  | .poller e => s.writer.NoRedelivery (.poller e)
  | _ => True

instance (e : WorldEvent cfg) : Decidable (s.Identifying e) :=
  match e with
  | .worker w _ => inferInstanceAs (Decidable (s.Fresh ∨ ¬ s.mem.Admits (s.mem.workers w)))
  | .poller e => inferInstanceAs (Decidable (s.writer.NoRedelivery (.poller e)))
  | .snapshot _ | .call .. | .restart | .signup _ | .request _ | .ingest _ | .retry _ | .endMatch ..
  | .expireStatus _ | .expirePlayer _ | .tick _ => .isTrue trivial

end World

/-! ## The ordinals of all matches -/

/-- Every match is the split of its group under the id of its ordinal, and no
ordinal was used twice. -/
structure Counted (fs : List (Formed Nat)) : Prop where
  ordinals : (fs.map Formed.ordinal).Nodup
  small : ∀ f ∈ fs, f.ordinal < 2 ^ 64
  result : ∀ f ∈ fs, f.result = (optimizeSplit f.group (UInt64.ofNat (f.ordinal + 1))).1

/-- The id of an ordinal is its own. -/
theorem matchId_inj {i j : Nat} (hi : i < 2 ^ 64) (hj : j < 2 ^ 64)
    (h : UInt64.ofNat (i + 1) = UInt64.ofNat (j + 1)) : i = j := by
  have hmod := congrArg UInt64.toNat h
  rw [UInt64.toNat_ofNat', UInt64.toNat_ofNat'] at hmod
  omega

theorem Counted.matchId {fs : List (Formed Nat)} (hC : Counted fs) {f : Formed Nat} (hf : f ∈ fs) :
    f.result.matchId = UInt64.ofNat (f.ordinal + 1) := by
  rw [hC.result f hf, optimizeSplit_matchId]

/-- Two matches with one id are one match. -/
theorem Counted.inj {fs : List (Formed Nat)} (hC : Counted fs) {f g : Formed Nat} (hf : f ∈ fs)
    (hg : g ∈ fs) (h : f.result.matchId = g.result.matchId) : f = g := by
  rw [hC.matchId hf, hC.matchId hg] at h
  exact List.inj_on_of_nodup_map hC.ordinals hf hg (matchId_inj (hC.small f hf) (hC.small g hg) h)

/-- The matches are told apart by their ids. -/
theorem Counted.ids {fs : List (Formed Nat)} (hC : Counted fs) :
    (fs.map fun f => f.result.matchId).Nodup :=
  List.Nodup.map_on (fun _ hf _ hg h => hC.inj hf hg h) (List.Nodup.of_map _ hC.ordinals)

/-- A match has two teams of five, made of its group. -/
theorem Counted.teams {fs : List (Formed Nat)} (hC : Counted fs) {f : Formed Nat} (hf : f ∈ fs) :
    f.result.teamA.length = 5 ∧ f.result.teamB.length = 5 ∧
      f.result.users.Perm (f.group.toList.map Player.id) := by
  obtain ⟨hA, hB, hperm⟩ := optimizeSplit_teams f.group (UInt64.ofNat (f.ordinal + 1))
  rw [← hC.result f hf] at hA hB hperm
  refine ⟨hA, hB, ?_⟩
  have husers := hperm.map Prod.fst
  rwa [List.map_map] at husers

/-- The cast to `i64` loses no bit. -/
theorem toInt64_inj {a b : UInt64} (h : a.toInt64 = b.toInt64) : a = b := by
  have hback := congrArg Int64.toUInt64 h
  simpa using hback

/-- The batch items of the matches can be told apart too, and have players. -/
theorem Counted.identified {fs : List (Formed Nat)} (hC : Counted fs) :
    Identified (itemsOf fun r => ∃ f ∈ fs, f.result = r) where
  manned := by
    rintro _ ⟨_, ⟨f, hf, rfl⟩, rfl⟩ hnil
    have hlen := congrArg List.length hnil
    have hA := (hC.teams hf).1
    have hB := (hC.teams hf).2.1
    change ((f.result.teamA ++ f.result.teamB).map Prod.fst).length = 0 at hlen
    rw [List.length_map, List.length_append] at hlen
    omega
  unique := by
    rintro _ _ ⟨_, ⟨f, hf, rfl⟩, rfl⟩ ⟨_, ⟨g, hg, rfl⟩, rfl⟩ hid
    rw [hC.inj hf hg (toInt64_inj hid)]

/-! ## The invariant -/

/-- Matches are formed at the gate, one at a time. -/
theorem Effect.history_eq {s : World cfg} {e : WorldEvent cfg} {c : Core cfg} (hI : Inv s.mem)
    (h : Effect s e c) :
    c.history = s.history ∨ ∃ f w we, c.history = s.history ++ [f] ∧ f ∈ c.mem.formed ∧
      f.ordinal = s.mem.drawn ∧ e = .worker w we ∧ s.mem.Admits (s.mem.workers w) := by
  have hdrive : ∀ {me mem}, Drives e me → s.mem.step me = some mem →
      s.past ++ mem.formed = s.history ∨ ∃ f w we, s.past ++ mem.formed = s.history ++ [f] ∧
        f ∈ mem.formed ∧ f.ordinal = s.mem.drawn ∧ e = .worker w we ∧
        s.mem.Admits (s.mem.workers w) := by
    intro me mem hd hstep
    rcases step_formed hI hstep with hf | ⟨f, hf, ho⟩
    · exact .inl (congrArg (s.past ++ ·) hf)
    · have hnew : mem.formed ≠ s.mem.formed := by
        rw [hf]
        simp
      obtain ⟨w, we, rfl, hg⟩ := step_admits hI hstep hnew
      cases hd
      refine .inr ⟨f, w, we, ?_, ?_, ho, rfl, hg⟩
      · rw [hf, ← List.append_assoc]
        rfl
      · rw [hf]
        exact List.mem_append_right _ List.mem_cons_self
  cases h with
  | process hd hstep => exact hdrive hd hstep
  | publish hd hstep _ => exact hdrive hd hstep
  | @ingest _ _ call _ =>
    left
    cases call <;> rfl
  | restart =>
    left
    show (s.past ++ s.mem.formed) ++ s.restart.mem.formed = _
    rw [(restart_restored s).formed]
    exact List.append_nil _
  | _ => exact .inl rfl

/-- The matches of all processes have ordinals of their own, and the write-behind has filed no
others. -/
structure World.Numbered (s : World cfg) : Prop where
  sound : Sound s.toCore
  counted : Counted s.history
  filed : s.writer.Filed fun r => ∃ f ∈ s.history, f.result = r

/-- **Every effect**: a match is formed under an ordinal nobody has used. -/
theorem Effect.counted {s : World cfg} {e : WorldEvent cfg} {c : Core cfg} (hS : Sound s.toCore)
    (hC : Counted s.history) (hg : s.Identifying e) (h : Effect s e c) : Counted c.history := by
  rcases h.history_eq hS.inv with heq | ⟨f, w, we, heq, hf, ho, rfl, hadmits⟩
  · rw [heq]
    exact hC
  · obtain ⟨hpast, hlt⟩ : s.Fresh := hg.resolve_right fun hn => hn hadmits
    rw [heq]
    refine ⟨?_, fun g hmem => ?_, fun g hmem => ?_⟩
    · rw [List.map_append, List.nodup_append]
      refine ⟨hC.ordinals, List.nodup_singleton _, fun a ha b hb => ?_⟩
      obtain ⟨g, hmem, rfl⟩ := List.mem_map.mp ha
      rw [List.map_singleton, List.mem_singleton, ho] at hb
      rw [hb]
      rcases List.mem_append.mp hmem with hmem | hmem
      · exact hpast g hmem
      · -- the process itself never repeats an ordinal
        exact Nat.ne_of_lt (hS.founded.ordinal_lt g hmem)
    · rcases List.mem_append.mp hmem with hmem | hmem
      · exact hC.small g hmem
      · rw [List.mem_singleton.mp hmem, ho]
        exact hlt
    · rcases List.mem_append.mp hmem with hmem | hmem
      · exact hC.result g hmem
      · rw [List.mem_singleton.mp hmem]
        exact (h.process_inv hS.inv hS.founded).2.result f hf

theorem init_numbered : (World.init cfg).Numbered where
  sound := init_sound
  counted := ⟨List.nodup_nil, nofun, nofun⟩
  filed := ⟨⟨nofun, nofun, nofun⟩, empty_faithful _⟩

/-- **Step**. -/
theorem step_numbered {s s' : World cfg} {e : WorldEvent cfg} (hN : s.Numbered)
    (hg : s.Identifying e) (h : s.step e = some s') : s'.Numbered := by
  have heff := step_effect hN.sound.founded h
  have hfiled : s'.writer.Filed fun r => ∃ f ∈ s.history, f.result = r := by
    rcases step_writer hN.sound.founded h with heq | ⟨ev, hw, hstep⟩
    · rw [heq]
      exact hN.filed
    · refine Writer.step_filed hN.counted.identified hN.filed (fun r hr => ?_) ?_ hstep
      · cases hw with
        | @xadd _ f hf =>
          rw [Writer.Event.xadd.injEq, Option.some.injEq] at hr
          exact ⟨f, List.mem_append_right _ hf, hr⟩
        | _ => cases hr
      · cases hw with
        | poller e => exact hg
        | _ => trivial
  refine ⟨heff.sound hN.sound, heff.counted hN.sound hN.counted hg, hfiled.mono ?_⟩
  rintro r ⟨f, hf, hr⟩
  exact ⟨f, heff.history hN.sound.inv hf, hr⟩

/-! ## The result -/

/-- The player rows of an item, by team. -/
theorem BatchItem.filter_team (e : BatchItem) (active : Bool) :
    (e.playerRows active).filter (·.team = .A) = e.teamA.map (e.playerRow active .A) ∧
      (e.playerRows active).filter (·.team = .B) = e.teamB.map (e.playerRow active .B) := by
  have hteam : ∀ (t t' : Team) (ps : List (Int64 × Int32)),
      (ps.map (e.playerRow active t)).filter (·.team = t')
        = if t = t' then ps.map (e.playerRow active t) else [] := by
    intro t t' ps
    by_cases heq : t = t'
    · rw [if_pos heq, List.filter_eq_self.mpr]
      intro r hr
      obtain ⟨p, _, rfl⟩ := List.mem_map.mp hr
      exact decide_eq_true heq
    · rw [if_neg heq, List.filter_eq_nil_iff.mpr]
      intro r hr hrt
      obtain ⟨p, _, rfl⟩ := List.mem_map.mp hr
      exact heq (of_decide_eq_true hrt)
  unfold BatchItem.playerRows
  rw [List.filter_append, List.filter_append, hteam, hteam, hteam, hteam]
  exact ⟨List.append_nil _, rfl⟩

theorem BatchItem.map_playerRow (e : BatchItem) (active : Bool) (team : Team)
    (ps : List (Int64 × Int32)) :
    (ps.map (e.playerRow active team)).map (fun r => (r.userId, r.rating)) = ps := by
  rw [List.map_map]
  exact List.map_id _

/-- The rows of an item record its match. -/
theorem Counted.records {fs : List (Formed Nat)} (hC : Counted fs) {f : Formed Nat} (hf : f ∈ fs)
    {db : Db} {row : MatchRow} {active : Bool}
    (hown : f.result.item.matchRow = { row with status := .active })
    (hrows : db.rowsOf row.id = f.result.item.playerRows active) : db.Records row f := by
  obtain ⟨hA, hB, hplayers⟩ := hC.teams hf
  have husers := f.result.item.playerRows_users active
  refine ⟨⟨(congrArg MatchRow.id hown).symm, (congrArg MatchRow.spread hown).symm⟩, ?_, ?_, ?_,
    ⟨hA, hB⟩, ?_⟩
  · have hlen := congrArg List.length husers
    change _ = ((f.result.teamA ++ f.result.teamB).map Prod.fst).length at hlen
    rw [List.length_map, List.length_map, List.length_append] at hlen
    rw [hrows]
    omega
  · rw [hrows, (f.result.item.filter_team active).1]
    exact f.result.item.map_playerRow active .A f.result.teamA
  · rw [hrows, (f.result.item.filter_team active).2]
    exact f.result.item.map_playerRow active .B f.result.teamB
  · rw [hrows, husers]
    exact hplayers

/-- **Match identity across restarts**, in every run, over any number of process
lifetimes, whose matches are formed under fresh counts and not inserted again
after they were ended. -/
theorem match_identity {s : World cfg}
    (h : Lts.Run World.step World.Identifying (World.init cfg) s) : s.MatchIdentity := by
  have hN := h.inv (fun hN hg hs => step_numbered hN hg hs) init_numbered
  refine ⟨hN.counted.ids, fun row hrow => ?_⟩
  obtain ⟨e, ⟨_, ⟨f, hf, rfl⟩, rfl⟩, hown, hrows⟩ := hN.filed.db.rows row hrow
  exact ⟨f, hf, hN.counted.records hf hown hrows⟩

/-- The poller starts and finds nothing pending. -/
def startPoller : List (WorldEvent Config.small) := [.poller (.ensure .up), .poller (.read .up)]

/-- Ten users queue, are matched, and the match is written to the database. -/
def playMatch (who : Nat → Int64) : List (WorldEvent Config.small) :=
  startPoller ++ tenArrive who ++ formMatch ++ sendCommit ++
    [.poller (.read .up), .poller (.insert .up), .poller (.ack .up)]

/-- The first group has one strong player and is refused, which uses up the id 1; the players
go back, wait for two seconds, and are matched under the id 2. -/
def playSecond : List (WorldEvent Config.small) :=
  startPoller ++ .signup 2500 :: tenArrive (fun i => Int64.ofNat (i + 1)) ++ formMatch ++
    List.replicate 11 (.worker smallThread .run) ++ .tick 2000000000 :: formMatch ++ sendCommit ++
    [.poller (.read .up), .poller (.insert .up), .poller (.ack .up)]

/-- The next process has drawn no id when it forms its match, and no match was formed then. -/
theorem exists_two_stored : ∃ s : World Config.small,
    Lts.Run World.step World.Identifying (World.init Config.small) s ∧
      s.writer.db.matchRows.map MatchRow.id = [2, 1] := by
  have hexec : (Lts.exec World.step (fun s e => s.Identifying e) (World.init Config.small)
      (playSecond ++ .restart :: playMatch (fun i => Int64.ofNat (i + 12)))).any
      (fun s => s.writer.db.matchRows.map MatchRow.id = [2, 1]) = true := by decide +kernel
  obtain ⟨s, hrun, hids⟩ := Lts.exists_run_of_exec hexec
  exact ⟨s, hrun.mono of_decide_eq_true, of_decide_eq_true hids⟩

/-- Two processes form a match each, the first under the id 2 and the second under the id 1. -/
theorem match_identity_two :
    ∃ s : World Config.small, s.writer.db.matchRows.map MatchRow.id = [2, 1] ∧
      s.MatchIdentity := by
  obtain ⟨s, hrun, hids⟩ := exists_two_stored
  exact ⟨s, hids, match_identity hrun⟩

/-- Two processes form a match each: both have the id 1, and its row ends up with
twenty players. -/
theorem match_id_reused :
    ¬ ∀ (cfg : Config) (s : World cfg), Lts.Run World.step Lts.Free (World.init cfg) s →
      s.MatchIdentity := by
  intro hclaim
  have hexec : (Lts.exec World.step (fun _ _ => true) (World.init Config.small)
      (playMatch (fun i => Int64.ofNat (i + 1)) ++ .restart ::
        playMatch (fun i => Int64.ofNat (i + 11)))).any
      (fun s => s.writer.db.matchRows.any fun row => (s.writer.db.rowsOf row.id).length = 20)
      = true := by decide +kernel
  obtain ⟨s, hrun, htwenty⟩ := Lts.exists_run_of_exec hexec
  obtain ⟨row, hrow, hlen⟩ := List.any_eq_true.mp htwenty
  obtain ⟨f, _, hrecords⟩ := (hclaim _ s hrun.free).rows row hrow
  rw [hrecords.ten] at hlen
  cases of_decide_eq_true hlen

end Supermatchmaker
