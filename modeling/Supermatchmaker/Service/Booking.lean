import Supermatchmaker.Lib.Lts
import Supermatchmaker.Service.Engaged

/-!
# Double booking

"No player is ever double booked": no match has a user twice, and no user is in
two matches that have not been ended.

Nothing between `POST /queue/{id}` and the split is keyed by the user, so a user
who calls again while the first call's entry is still on its way gets a second
one, and the two may meet in one match: `double_booking`. What does exclude it is
a caller who only queues when not engaged (`World.Single`): then the users
engaged stay distinct (`Booked`), whatever the threads do, and so are the users
of the matches.
-/

namespace Supermatchmaker

variable {cfg : Config}

namespace World

variable (s : World cfg)

/-- The matches of this process that `end_match` has not ended. -/
def unended : List (Formed Nat) := s.mem.formed.filter (·.ordinal ∉ s.ended)

/-- No match has a user twice, and no two matches that have not ended share one. -/
structure NoDoubleBooking : Prop where
  distinct : ∀ f ∈ s.mem.formed, f.result.users.Nodup
  apart : s.unended.Pairwise fun f g => ∀ u ∈ f.result.users, u ∉ g.result.users

/-- The users with an event ahead of the ingestion thread, with an entry in the
pool or with a match thread, or in a match that was not ended. -/
def engagedUsers : Multiset Int64 := s.engaged .user s.ended

/-- The user whose event call `i` is about to publish. -/
def publisher (i : Nat) : Option Int64 :=
  match s.calls[i]? with
  | some ⟨user, .publish _⟩ => some user
  | _ => none

/-- A queue call publishes for a user who is not engaged; a process boots with
one entry, or event to replay, a user. -/
def Single : WorldEvent cfg → Prop
  | .call i link => ∀ user ∈ s.publisher i, link = .down ∨ user ∉ s.engagedUsers
  | .restart => s.restart.engagedUsers.Nodup
  | _ => True

/-- The runs of one process. -/
def Alive (_ : World cfg) : WorldEvent cfg → Prop
  | .restart => False
  | _ => True

instance (e : WorldEvent cfg) : Decidable (s.Alive e) :=
  match e with
  | .restart => .isFalse id
  | .call .. | .signup _ | .request _ | .ingest _ | .worker .. | .retry _ | .snapshot _ | .poller _
  | .endMatch .. | .expireStatus _ | .expirePlayer _ | .tick _ => .isTrue trivial

instance (e : WorldEvent cfg) : Decidable (s.Single e) :=
  match e with
  | .call i _ => Option.decidableForallMem (s.publisher i)
  | .restart => inferInstanceAs (Decidable (Multiset.Nodup _))
  | .signup _ | .request _ | .ingest _ | .worker .. | .retry _ | .snapshot _ | .poller _
  | .endMatch .. | .expireStatus _ | .expirePlayer _ | .tick _ => .isTrue trivial

/-- The invariant: nobody is engaged twice. -/
structure Booked (s : World cfg) : Prop where
  sound : Sound s.toCore
  nodup : s.engagedUsers.Nodup
  ended_lt : ∀ n ∈ s.ended, n < s.mem.drawn
  distinct : ∀ f ∈ s.mem.formed, (Key.user.group f).Nodup

end World

/-- What `end_match` ends was formed. -/
theorem newlyEnded_lt {s : World cfg} (hF : Founded s.mem) (matchId : Int64) (pg : Pg) :
    ∀ n ∈ s.newlyEnded matchId pg, n < s.mem.drawn := by
  intro n hn
  unfold World.newlyEnded at hn
  split at hn
  · split at hn
    · cases hn
    · obtain ⟨f, hf, rfl⟩ := List.mem_map.mp hn
      exact hF.ordinal_lt f (List.mem_filter.mp hf).1
  · cases hn

/-- The users of a match are those of its group. -/
theorem users_eq {m : Matcher cfg Nat} (hF : Founded m) {f : Formed Nat} (hf : f ∈ m.formed) :
    (f.result.users : Multiset Int64) = Key.user.group f :=
  Multiset.coe_eq_coe.mpr (hF.users hf)

/-- Matches whose keys together are distinct share none. -/
theorem pairwise_of_nodup_sum {α κ : Type} {g : α → Multiset κ} {l : List α}
    (h : (l.map g).sum.Nodup) : l.Pairwise fun x y => Disjoint (g x) (g y) := by
  induction l with
  | nil => exact List.Pairwise.nil
  | cons x l ih =>
    rw [List.map_cons, List.sum_cons, Multiset.nodup_add] at h
    obtain ⟨_, hrest, hdisj⟩ := h
    refine List.Pairwise.cons (fun y hy => ?_) (ih hrest)
    exact hdisj.mono_right (List.single_le_sum (fun _ _ => Multiset.zero_le _) _
      (List.mem_map_of_mem hy))

/-- Distinct keys by user: that is what the invariant is for. -/
theorem World.Booked.noDoubleBooking {s : World cfg} (hB : s.Booked) : s.NoDoubleBooking where
  distinct f hf := by
    rw [← Multiset.coe_nodup, users_eq hB.sound.founded hf]
    exact hB.distinct f hf
  apart := by
    have hnodup : (s.matchedKeys .user s.ended).Nodup :=
      Multiset.nodup_of_le (Multiset.le_add_left _ _) hB.nodup
    refine (pairwise_of_nodup_sum hnodup).imp_of_mem fun {f g} hf hg hdisj u hu hu' => ?_
    rw [← Multiset.mem_coe, users_eq hB.sound.founded (List.mem_filter.mp hf).1] at hu
    rw [← Multiset.mem_coe, users_eq hB.sound.founded (List.mem_filter.mp hg).1] at hu'
    exact Multiset.disjoint_left.mp hdisj hu hu'

theorem init_booked : (World.init cfg).Booked where
  sound := init_sound
  nodup := by
    show ((World.init cfg).engaged .user []).Nodup
    rw [init_engaged]
    exact Multiset.nodup_zero
  ended_lt := nofun
  distinct := nofun

/-- **Step**: a guarded step keeps the users engaged distinct. -/
theorem step_booked {s s' : World cfg} {e : WorldEvent cfg} (hB : s.Booked) (hg : s.Single e)
    (h : s.step e = some s') : s'.Booked := by
  have hS' := step_sound hB.sound h
  have heff := step_effect hB.sound.founded h
  by_cases hboot : e = .restart
  · subst hboot
    simp only [World.step, Option.some.injEq] at h
    subst h
    have hnone : s.restart.mem.formed = [] := (restart_restored s).formed
    exact ⟨hS', hg, List.forall_mem_nil _, by rw [hnone]; exact List.forall_mem_nil _⟩
  · have hdrawn := heff.drawn hB.sound.inv hboot
    have hkeep : (s'.engaged .user s.ended).Nodup := by
      rcases heff.engaged hB.sound hboot .user hB.ended_lt with
        hle | ⟨ev, ⟨i, link, rfl, hlink, hcall⟩, hle⟩
      · exact Multiset.nodup_of_le hle hB.nodup
      · -- the guard: the caller is not engaged yet
        have hpub : ev.id ∈ s.publisher i := by
          unfold World.publisher
          rw [hcall]
          rfl
        have hfree := (hg ev.id hpub).resolve_left hlink
        refine Multiset.nodup_of_le hle (Multiset.nodup_add.mpr
          ⟨hB.nodup, Multiset.nodup_singleton _, ?_⟩)
        exact Multiset.disjoint_singleton.mpr hfree
    have hended : s.ended ⊆ s'.ended ∧ ∀ n ∈ s'.ended, n < s'.mem.drawn := by
      rcases heff.ended_eq hboot with hsame | ⟨matchId, pg, hc⟩
      · rw [hsame]
        exact ⟨List.Subset.refl _, fun n hn => Nat.lt_of_lt_of_le (hB.ended_lt n hn) hdrawn⟩
      · have hnew : s'.ended = s.ended ++ s.newlyEnded matchId pg := congrArg Core.ended hc
        rw [hnew]
        refine ⟨List.subset_append_left _ _, fun n hn => Nat.lt_of_lt_of_le ?_ hdrawn⟩
        rcases List.mem_append.mp hn with hn | hn
        · exact hB.ended_lt n hn
        · exact newlyEnded_lt hB.sound.founded matchId pg n hn
    refine ⟨hS', Multiset.nodup_of_le (engaged_anti _ _ hended.1) hkeep, hended.2, fun f hf => ?_⟩
    -- a match formed in this step took its users from the ones engaged
    have hold : f ∈ s.mem.formed ∨ f.ordinal ∉ s.ended := by
      rcases heff.formed hB.sound.inv hboot with hsame | ⟨g, happ, hord⟩
      · rw [hsame] at hf
        exact .inl hf
      · rw [happ] at hf
        rcases List.mem_append.mp hf with hf | hf
        · exact .inl hf
        · rw [List.mem_singleton.mp hf, hord]
          exact .inr fun hmem => Nat.lt_irrefl _ (hB.ended_lt _ hmem)
    rcases hold with hold | hout
    · exact hB.distinct f hold
    · have hle : Key.user.group f ≤ s'.engaged .user s.ended :=
        (mem_matchedKeys hf hout).trans (Multiset.le_add_left _ _)
      exact Multiset.nodup_of_le hle hkeep

/-- **No double booking**, in every run in which whoever queues is not engaged. -/
theorem no_double_booking {s : World cfg}
    (h : Lts.Run World.step World.Single (World.init cfg) s) : s.NoDoubleBooking := by
  have hbooked := h.inv (fun hB hg hs => step_booked hB hg hs) init_booked
  exact hbooked.noDoubleBooking

/-- Ten users queue, each once, and are matched. -/
theorem no_double_booking_ten :
    ∃ s : World Config.small, s.mem.formed.length = 1 ∧ s.NoDoubleBooking := by
  have hexec : (Lts.exec World.step (fun s e => s.Single e) (World.init Config.small)
      (tenArrive (fun i => Int64.ofNat (i + 1)) ++ formMatch)).any
      (fun s => s.mem.formed.length = 1) = true := by decide +kernel
  obtain ⟨s, hrun, hformed⟩ := Lts.exists_run_of_exec hexec
  exact ⟨s, of_decide_eq_true hformed, no_double_booking (hrun.mono of_decide_eq_true)⟩

/-- One user queues ten times and is matched with nobody else. -/
theorem double_booking :
    ¬ ∀ (cfg : Config) (s : World cfg), Lts.Run World.step World.Alive (World.init cfg) s →
      s.NoDoubleBooking := by
  intro hclaim
  have hexec : (Lts.exec World.step (fun s e => s.Alive e) (World.init Config.small)
      (tenArrive (fun _ => 1) ++ formMatch)).any
      (fun s => s.mem.formed.any fun f => ¬ f.result.users.Nodup) = true := by decide +kernel
  obtain ⟨s, hrun, htwice⟩ := Lts.exists_run_of_exec hexec
  obtain ⟨f, hf, hdup⟩ := List.any_eq_true.mp htwice
  exact of_decide_eq_true hdup ((hclaim _ s (hrun.mono of_decide_eq_true)).distinct f hf)

end Supermatchmaker
