import Supermatchmaker.Lib.Spec
import Supermatchmaker.Matcher.Custody
import Supermatchmaker.Service.Fairness

/-!
# The matcher as a desk

What the threads of `matcher.rs` are for can be said without threads, buckets,
locks or queues: players come to a desk and wait; now and then ten of them are
taken off together, split and given a later match id than all before, if their teams
are close enough for the time they have waited; and each match made is written once.
`Desk.Step` says that, one action at a time, and `matcher_refines_desk` that the
threads do nothing else: whatever they interleave, what is seen of them is a
history of the desk.

The abstraction forgets where an entry is (`waiting` are the buckets and all
hands) and who has a match (`unwritten` are the threads, the retry queue and the
retry thread). A harvest that is rolled back, a group that fails the gate, a
commit that fails and the retry queue's rounds then leave the desk alone; a match
is made at the gate, at once, and is written when `commit_match` returns `Ok` (an
attempt whose answer was lost may have left an entry on the stream before that).

`desk_orderly` is what a maintainer reads off: facts about the order of the
actions in a history. It is proved of the desk and of nothing else.
-/

namespace Supermatchmaker

open Spec

variable {cfg : Config} {τ : Type}

/-! ## The desk -/

/-- The abstract matcher: who waits, and which matches are not written. -/
structure Desk (τ : Type) where
  waiting : Multiset (Player τ)
  /-- made and not written yet -/
  unwritten : Multiset (Formed τ)
  /-- how many have come in -/
  entered : Nat
  /-- below it every match id is spent -/
  spent : Nat
  now : Nat

/-- What can be seen of the matcher. -/
inductive DeskAct (τ : Type)
  | enter (p : Player τ)
  | pair (f : Formed τ)
  | written (f : Formed τ)
  | pass (nanos : Nat)

/-- The longest wait of the group's members at `now`. -/
def longestWait (now : Nat) (g : MatchGroup τ) : Nat :=
  (g.toList.map fun p => now - p.enqueuedAt).foldl max 0

/-- The rules of the desk. -/
inductive Desk.Step : Desk τ → DeskAct τ → Desk τ → Prop
  | enter {d : Desk τ} {p : Player τ} (hserial : p.serial = d.entered)
      (hnow : p.enqueuedAt = d.now) :
      Step d (.enter p) { d with waiting := d.waiting + {p}, entered := d.entered + 1 }
  | pair {d : Desk τ} {rest : Multiset (Player τ)} {f : Formed τ}
      (hgroup : d.waiting = rest + (f.group.toList : Multiset (Player τ)))
      (hid : d.spent ≤ f.ordinal)
      (hsplit : f.result = (optimizeSplit f.group (UInt64.ofNat (f.ordinal + 1))).1)
      (hwithin : f.result.spread ≤ maxTeamGap (longestWait d.now f.group)) :
      Step d (.pair f)
        { d with waiting := rest, unwritten := d.unwritten + {f}, spent := f.ordinal + 1 }
  | written {d : Desk τ} {rest : Multiset (Formed τ)} {f : Formed τ}
      (hopen : d.unwritten = rest + {f}) : Step d (.written f) { d with unwritten := rest }
  | pass {d : Desk τ} (nanos : Nat) : Step d (.pass nanos) { d with now := d.now + nanos }

/-- Nobody has come yet. -/
def Desk.opened (now : Nat) : Desk τ := ⟨0, 0, 0, 0, now⟩

/-! ## The abstraction -/

/-- The matches in the hands of a thread and in the retry queue. -/
def unwritten (m : Matcher cfg τ) : Multiset (Formed τ) :=
  (∑ w, (hands m w : Multiset (Formed τ))) + queued m + m.retry.hand

/-- One more than the id of the latest match. -/
def Matcher.spent (m : Matcher cfg τ) : Nat := (m.formed.getLast?.map fun f => f.ordinal + 1).getD 0

/-- The desk the threads make up. -/
def Matcher.desk (m : Matcher cfg τ) : Desk τ where
  waiting := waiting m
  unwritten := unwritten m
  entered := m.enqueued.length
  spent := m.spent
  now := m.now

/-- The note of a match thread or the retry thread, as an action. -/
def CommitNote.act : CommitNote cfg τ → DeskAct τ
  | .formed _ f => .pair f
  | .returnedOk f => .written f

/-- What is seen of a step from `m` to `m'`. -/
def Matcher.shows (m : Matcher cfg τ) (e : MatcherEvent cfg τ) (m' : Matcher cfg τ) :
    List (DeskAct τ) :=
  match e with
  | .enqueue .. => (m'.enqueued.drop m.enqueued.length).map .enter
  | .tick nanos => [.pass nanos]
  | e => (m.note e m').map CommitNote.act

/-! ## One step -/

/-- What a step does to the matches nobody has written. -/
inductive Outstanding (m m' : Matcher cfg τ) (notes : List (CommitNote cfg τ)) : Prop
  | still (hu : unwritten m' = unwritten m) (hf : m'.formed = m.formed) (hn : notes = [])
  | formed {w : Fin cfg.numWorkers} {f : Formed τ} (hu : unwritten m' = unwritten m + {f})
      (hf : m'.formed = m.formed ++ [f]) (hn : notes = [.formed w f])
  | returned {f : Formed τ} (hu : unwritten m = unwritten m' + {f}) (hf : m'.formed = m.formed)
      (hn : notes = [.returnedOk f])

/-- A match that only changes hands is still unwritten. -/
theorem Transfer.outstanding {m m' : Matcher cfg τ} {notes : List (CommitNote cfg τ)}
    (h : Transfer m m' notes) : Outstanding m m' notes := by
  have hsum : ∀ {w l}, hands m' = Function.update (hands m) w l →
      (∑ w, (hands m' w : Multiset (Formed τ))) + (hands m w : Multiset (Formed τ))
        = (∑ w, (hands m w : Multiset (Formed τ))) + (l : Multiset (Formed τ)) := by
    intro w l hh
    rw [hh]
    exact Tally.sum_update (fun l : List (Formed τ) => (l : Multiset (Formed τ))) (hands m) w l
  cases h with
  | still hh hq hr hf hn =>
    refine .still ?_ hf hn
    unfold unwritten
    rw [hh, hq, hr]
  | @formed w f hold hh hq hr hf hn =>
    refine .formed ?_ hf hn
    have hw := hsum hh
    rw [hold, Multiset.coe_nil, add_zero, Multiset.coe_singleton] at hw
    unfold unwritten
    rw [hw, hq, hr]
    abel
  | @deferred w f hold hh hq hr hf hn =>
    refine .still ?_ hf hn
    have hw := hsum hh
    rw [hold, Multiset.coe_nil, add_zero] at hw
    unfold unwritten
    rw [hq, hr, ← Multiset.coe_add, ← hw]
    abel
  | @done w f hold hh hq hr hf hn =>
    refine .returned ?_ hf hn
    have hw := hsum hh
    rw [hold, Multiset.coe_nil, add_zero, Multiset.coe_singleton] at hw
    unfold unwritten
    rw [← hw, hq, hr]
    abel
  | @taken f hold hr hq hh hf hn =>
    refine .still ?_ hf hn
    have hfirst : (queued m : Multiset (Formed τ)) = [f] + queued m' := by
      rw [hq, ← Multiset.cons_coe, Multiset.coe_singleton, Multiset.singleton_add]
    unfold unwritten
    rw [hh, hfirst, hold, hr, Multiset.coe_nil]
    abel
  | @requeued f hold hr hq hh hf hn =>
    refine .still ?_ hf hn
    unfold unwritten
    rw [hh, hq, hold, hr, ← Multiset.coe_add, Multiset.coe_nil]
    abel
  | @retried f hold hr hq hh hf hn =>
    refine .returned ?_ hf hn
    unfold unwritten
    rw [hh, hq, hold, hr, Multiset.coe_nil, Multiset.coe_singleton]
    abel

/-- Only the clock moves the clock. -/
theorem step_now {m m' : Matcher cfg τ} {e : MatcherEvent cfg τ} (hI : Inv m)
    (hne : ∀ nanos, e ≠ .tick nanos) (h : m.step e = some m') : m'.now = m.now := by
  cases e with
  | enqueue id rating origin | counted =>
    simp only [Matcher.step, Option.some.injEq] at h
    subst h
    rfl
  | worker w e =>
    obtain ⟨pc, hm⟩ := workerStep_move (hI.wf w) hI.homed h
    exact hm.now
  | retry e =>
    simp only [Matcher.step, Matcher.retryStep, Matcher.retryRun] at h
    repeat' split at h
    all_goals first | cases h; rfl | cases h
  | tick nanos => exact absurd rfl (hne nanos)

theorem spent_congr {m m' : Matcher cfg τ} (h : m'.formed = m.formed) : m'.spent = m.spent := by
  unfold Matcher.spent
  rw [h]

theorem spent_append {m m' : Matcher cfg τ} {f : Formed τ} (h : m'.formed = m.formed ++ [f]) :
    m'.spent = f.ordinal + 1 := by
  unfold Matcher.spent
  rw [h, List.getLast?_concat]
  rfl

/-- The ids of the matches so far were drawn. -/
theorem Founded.spent_le {m : Matcher cfg τ} (hF : Founded m) : m.spent ≤ m.drawn := by
  unfold Matcher.spent
  cases hlast : m.formed.getLast? with
  | none => exact Nat.zero_le _
  | some f => exact hF.ordinal_lt f (List.mem_of_getLast? hlast)

/-- **Step**: what a step of the process shows is a history of the desk. -/
theorem step_desk {m m' : Matcher cfg τ} {e : MatcherEvent cfg τ} (hI : Inv m) (hF : Founded m)
    (h : m.step e = some m') : Trace Desk.Step m.desk (m.shows e m') m'.desk := by
  have hflow := step_flow hI h
  have htransfer := (step_transfer hI h).outstanding
  -- the threads, which are all that is left, neither let anyone in nor move the clock
  have hthread : (∀ id rating origin, e ≠ .enqueue id rating origin) → (∀ nanos, e ≠ .tick nanos) →
      Trace Desk.Step m.desk ((m.note e m').map CommitNote.act) m'.desk := by
    intro henter htick
    have hnow := step_now hI htick h
    have hdesk : m'.desk = ⟨waiting m', unwritten m', m'.enqueued.length, m'.spent, m.now⟩ := by
      rw [← hnow]
      rfl
    rw [hdesk]
    cases hflow with
    | arrived hp => exact absurd hp (henter _ _ _)
    | still hw hf he =>
      rw [hw, he, spent_congr hf]
      cases htransfer with
      | still hu _ hn =>
        rw [hn, hu]
        exact .nil
      | formed _ hf' _ =>
        rw [hf] at hf'
        simp at hf'
      | returned hu _ hn =>
        rw [hn]
        exact .single (.written hu)
    | @formed f hw hf he hr ho hd _ =>
      rw [he, spent_append hf]
      have hwithin := formed_within hI h hf
      have hlast : ∀ {g}, m'.formed = m.formed ++ [g] → g = f := by
        intro g hg
        rw [hf] at hg
        exact (List.singleton_inj.mp (List.append_cancel_left hg)).symm
      cases htransfer with
      | still _ hf' _ =>
        rw [hf] at hf'
        simp at hf'
      | returned _ hf' _ =>
        rw [hf] at hf'
        simp at hf'
      | formed hu hf' hn =>
        rw [hn, hu, hlast hf']
        refine .single (.pair hw ?_ ?_ hwithin)
        · rw [ho]
          exact hF.spent_le
        · rw [hr, ho, hF.next]
  cases e with
  | enqueue id rating origin =>
    simp only [Matcher.step, Option.some.injEq] at h
    subst h
    have hshow : m.shows (.enqueue id rating origin) (m.enqueue id rating origin)
        = [.enter ⟨id, rating, m.now, m.enqueued.length, origin⟩] := by
      show List.map _ ((m.enqueued ++ [_]).drop m.enqueued.length) = _
      rw [List.drop_left]
      rfl
    have hdesk : (m.enqueue id rating origin).desk
        = { m.desk with
            waiting := m.desk.waiting + {⟨id, rating, m.now, m.enqueued.length, origin⟩}
            entered := m.desk.entered + 1 } := by
      unfold Matcher.desk
      rw [enqueue_waiting]
      show Desk.mk _ _ (m.enqueued ++ [_]).length _ _ = _
      rw [List.length_append]
      rfl
    rw [hshow, hdesk]
    exact .single (.enter rfl rfl)
  | tick nanos =>
    simp only [Matcher.step, Option.some.injEq] at h
    subst h
    exact .single (.pass nanos)
  | counted | worker w e | retry e =>
    exact hthread (fun _ _ _ he => by cases he) (fun _ he => by cases he)

/-- The matcher at its start is the desk as it is opened. -/
theorem init_desk (now : Nat) : (Matcher.init cfg τ now).desk = Desk.opened now := by
  have hw : waiting (Matcher.init cfg τ now) = 0 :=
    (init_inv now).waiting_eq rfl
  have hu : unwritten (Matcher.init cfg τ now) = 0 := by
    simp [unwritten, hands, queued, Matcher.init, Pc.hand, Pc.carried, RetryPc.hand,
      RetryPc.carried]
  unfold Matcher.desk
  rw [hw, hu]
  rfl

/-! ## Histories -/

/-- Who came in, which matches were made and which were written, in order; and how long
it all took. -/
def entered (as : List (DeskAct τ)) : List (Player τ) :=
  as.filterMap fun
    | .enter p => some p
    | _ => none

/-- The matches made, in order. -/
def paired (as : List (DeskAct τ)) : List (Formed τ) :=
  as.filterMap fun
    | .pair f => some f
    | _ => none

/-- The matches written, in order. -/
def wrote (as : List (DeskAct τ)) : List (Formed τ) :=
  as.filterMap fun
    | .written f => some f
    | _ => none

/-- The time that has passed. -/
def passed (as : List (DeskAct τ)) : Nat :=
  (as.map fun
    | .pass nanos => nanos
    | _ => 0).sum

@[simp] theorem entered_append (as bs : List (DeskAct τ)) :
    entered (as ++ bs) = entered as ++ entered bs := List.filterMap_append ..

@[simp] theorem paired_append (as bs : List (DeskAct τ)) :
    paired (as ++ bs) = paired as ++ paired bs := List.filterMap_append ..

@[simp] theorem wrote_append (as bs : List (DeskAct τ)) :
    wrote (as ++ bs) = wrote as ++ wrote bs := List.filterMap_append ..

@[simp] theorem passed_append (as bs : List (DeskAct τ)) :
    passed (as ++ bs) = passed as + passed bs := by
  simp [passed]

theorem mem_entered {as : List (DeskAct τ)} {p : Player τ} : p ∈ entered as ↔ .enter p ∈ as := by
  unfold entered
  rw [List.mem_filterMap]
  constructor
  · rintro ⟨a, ha, heq⟩
    cases a <;> cases heq
    exact ha
  · intro hp
    exact ⟨.enter p, hp, rfl⟩

theorem mem_paired {as : List (DeskAct τ)} {f : Formed τ} : f ∈ paired as ↔ .pair f ∈ as := by
  unfold paired
  rw [List.mem_filterMap]
  constructor
  · rintro ⟨a, ha, heq⟩
    cases a <;> cases heq
    exact ha
  · intro hf
    exact ⟨.pair f, hf, rfl⟩

theorem mem_wrote {as : List (DeskAct τ)} {f : Formed τ} : f ∈ wrote as ↔ .written f ∈ as := by
  unfold wrote
  rw [List.mem_filterMap]
  constructor
  · rintro ⟨a, ha, heq⟩
    cases a <;> cases heq
    exact ha
  · intro hf
    exact ⟨.written f, hf, rfl⟩

/-- The entries of some matches. -/
def grouped (fs : List (Formed τ)) : List (Player τ) := fs.flatMap fun f => f.group.toList

/-- The books of the desk: what the history says is what the desk has. -/
structure Books (start : Nat) (as : List (DeskAct τ)) (d : Desk τ) : Prop where
  serials : (entered as).map Player.serial = List.range d.entered
  waiting :
    d.waiting + (grouped (paired as) : Multiset (Player τ)) = (entered as : Multiset (Player τ))
  unwritten : d.unwritten + (wrote as : Multiset (Formed τ)) = (paired as : Multiset (Formed τ))
  ordinals : (paired as).Pairwise fun f g => f.ordinal < g.ordinal
  spent : ∀ f ∈ paired as, f.ordinal < d.spent
  now : d.now = start + passed as

theorem Books.opened (start : Nat) : Books start [] (Desk.opened start : Desk τ) where
  serials := rfl
  waiting := rfl
  unwritten := rfl
  ordinals := List.Pairwise.nil
  spent := nofun
  now := rfl

/-- **Step**: every action is entered in the books. -/
theorem Books.step {start : Nat} {as : List (DeskAct τ)} {d d' : Desk τ} {a : DeskAct τ}
    (hB : Books start as d) (h : Desk.Step d a d') : Books start (as ++ [a]) d' := by
  cases h with
  | @enter p hserial _ =>
    refine ⟨?_, ?_, ?_, ?_, ?_, ?_⟩
    · rw [entered_append, List.map_append, hB.serials, List.range_succ]
      show _ ++ [p.serial] = _
      rw [hserial]
    · rw [entered_append, paired_append, ← Multiset.coe_add, ← hB.waiting]
      show d.waiting + {p} + (grouped (paired as ++ []) : Multiset _) = _ + ([p] : Multiset _)
      rw [List.append_nil, Multiset.coe_singleton]
      abel
    · simpa [wrote, paired] using hB.unwritten
    · simpa [paired] using hB.ordinals
    · simpa [paired] using hB.spent
    · simpa [passed] using hB.now
  | @pair rest f hgroup hid _ _ =>
    have hlast : paired (as ++ [.pair f]) = paired as ++ [f] := paired_append ..
    refine ⟨?_, ?_, ?_, ?_, ?_, ?_⟩
    · simpa [entered] using hB.serials
    · have hw := hB.waiting
      have hall : grouped (paired as ++ [f]) = grouped (paired as) ++ f.group.toList := by
        simp [grouped]
      rw [hgroup] at hw
      rw [hlast, hall, ← Multiset.coe_add, entered_append]
      show rest + (_ + _) = ((entered as ++ [] : List _) : Multiset _)
      rw [List.append_nil, ← hw]
      abel
    · rw [hlast, wrote_append, ← Multiset.coe_add (paired as), ← hB.unwritten]
      show d.unwritten + {f} + ((wrote as ++ [] : List _) : Multiset _) = _ + ([f] : Multiset _)
      rw [List.append_nil, Multiset.coe_singleton]
      abel
    · rw [hlast, List.pairwise_append]
      refine ⟨hB.ordinals, List.pairwise_singleton _ _, fun g hg f' hf' => ?_⟩
      rw [List.mem_singleton.mp hf']
      exact (hB.spent g hg).trans_le hid
    · intro g hg
      rw [hlast] at hg
      rcases List.mem_append.mp hg with hg | hg
      · exact ((hB.spent g hg).trans_le hid).trans (Nat.lt_succ_self _)
      · rw [List.mem_singleton.mp hg]
        exact Nat.lt_succ_self _
    · simpa [passed] using hB.now
  | @written rest f hopen =>
    refine ⟨?_, ?_, ?_, ?_, ?_, ?_⟩
    · simpa [entered] using hB.serials
    · simpa [entered, paired] using hB.waiting
    · have hu := hB.unwritten
      rw [hopen] at hu
      rw [wrote_append, paired_append, ← Multiset.coe_add]
      show rest + (_ + ([f] : Multiset _)) = ((paired as ++ [] : List _) : Multiset _)
      rw [List.append_nil, Multiset.coe_singleton, ← hu]
      abel
    · simpa [paired] using hB.ordinals
    · simpa [paired] using hB.spent
    · simpa [passed] using hB.now
  | pass nanos =>
    refine ⟨?_, ?_, ?_, ?_, ?_, ?_⟩
    · simpa [entered] using hB.serials
    · simpa [entered, paired] using hB.waiting
    · simpa [wrote, paired] using hB.unwritten
    · simpa [paired] using hB.ordinals
    · simpa [paired] using hB.spent
    · show d.now + nanos = start + passed (as ++ [.pass nanos])
      rw [hB.now, passed_append]
      exact Nat.add_assoc ..

/-- No entry came in twice. -/
theorem Books.nodup {start : Nat} {as : List (DeskAct τ)} {d : Desk τ} (hB : Books start as d) :
    (entered as).Nodup := by
  have hr := List.nodup_range (n := d.entered)
  rw [← hB.serials] at hr
  exact hr.of_map _

/-- What stands in front of each action of a history. -/
structure Orderly (start : Nat) (as : List (DeskAct τ)) : Prop where
  /-- an entry is stamped with the time at which it comes in, and comes in once -/
  enters : ∀ pre p post, as = pre ++ .enter p :: post →
    p.enqueuedAt = start + passed pre ∧ .enter p ∉ pre
  /-- the ten of a match came in before and are in no earlier match, the match is their
  split under a later id than any before, and their teams are close enough for their waits -/
  pairs : ∀ pre f post, as = pre ++ .pair f :: post →
    (∀ p ∈ f.group.toList, .enter p ∈ pre ∧ ∀ g, .pair g ∈ pre → p ∉ g.group.toList) ∧
    f.group.toList.Nodup ∧
    f.result = (optimizeSplit f.group (UInt64.ofNat (f.ordinal + 1))).1 ∧
    (∀ g, .pair g ∈ pre → g.ordinal < f.ordinal) ∧
    f.result.spread ≤ maxTeamGap (longestWait (start + passed pre) f.group)
  /-- a match is written after it was made, and once -/
  writes : ∀ pre f post, as = pre ++ .written f :: post → .pair f ∈ pre ∧ .written f ∉ pre

/-- The histories of the desk are orderly. -/
theorem desk_orderly {start : Nat} {as : List (DeskAct τ)} {d : Desk τ}
    (h : Trace Desk.Step (Desk.opened start) as d) : Orderly start as := by
  have hbooks : ∀ {as : List (DeskAct τ)} {d : Desk τ}, Trace Desk.Step (Desk.opened start) as d →
      Books start as d := fun h => h.inv (fun hB hs => hB.step hs) (Books.opened start)
  constructor
  · rintro pre p post rfl
    obtain ⟨r, t, hpre, hstep, _⟩ := h.moment
    have hB := hbooks hpre
    cases hstep with
    | enter hserial hnow =>
      refine ⟨hnow.trans hB.now, fun hmem => ?_⟩
      have hlt : p.serial ∈ List.range r.entered := by
        rw [← hB.serials]
        exact List.mem_map_of_mem (mem_entered.mpr hmem)
      rw [hserial] at hlt
      exact List.not_mem_range_self hlt
  · rintro pre f post rfl
    obtain ⟨r, t, hpre, hstep, _⟩ := h.moment
    have hB := hbooks hpre
    cases hstep with
    | @pair rest _ hgroup hid hsplit hwithin =>
      have hw := hB.waiting
      rw [hgroup] at hw
      have hnodup : (rest + (f.group.toList : Multiset (Player τ))
          + (grouped (paired pre) : Multiset (Player τ))).Nodup := by
        rw [hw]
        exact Multiset.coe_nodup.mpr hB.nodup
      obtain ⟨hfront, _, hdisjoint⟩ := Multiset.nodup_add.mp hnodup
      refine ⟨fun p hp => ?_, Multiset.coe_nodup.mp (Multiset.nodup_add.mp hfront).2.1, hsplit,
        fun g hg => (hB.spent g (mem_paired.mpr hg)).trans_le hid, ?_⟩
      · have hmem : p ∈ rest + (f.group.toList : Multiset (Player τ)) :=
          Multiset.mem_add.mpr (Or.inr (Multiset.mem_coe.mpr hp))
        refine ⟨mem_entered.mp ?_, fun g hg hpg => ?_⟩
        · rw [← Multiset.mem_coe, ← hw]
          exact Multiset.mem_add.mpr (Or.inl hmem)
        · refine Multiset.disjoint_left.mp hdisjoint hmem (Multiset.mem_coe.mpr ?_)
          exact List.mem_flatMap.mpr ⟨g, mem_paired.mpr hg, hpg⟩
      · rw [← hB.now]
        exact hwithin
  · rintro pre f post rfl
    obtain ⟨r, t, hpre, hstep, _⟩ := h.moment
    have hB := hbooks hpre
    cases hstep with
    | @written rest _ hopen =>
      have hu := hB.unwritten
      rw [hopen] at hu
      have hnodup : (rest + {f} + (wrote pre : Multiset (Formed τ))).Nodup := by
        rw [hu]
        exact Multiset.coe_nodup.mpr (hB.ordinals.imp fun {f g} hlt heq => by
          rw [heq] at hlt
          exact Nat.lt_irrefl _ hlt)
      have hmem : f ∈ rest + {f} := Multiset.mem_add.mpr (Or.inr (Multiset.mem_singleton_self f))
      refine ⟨mem_paired.mp ?_, fun hmem' => ?_⟩
      · rw [← Multiset.mem_coe, ← hu]
        exact Multiset.mem_add.mpr (Or.inl hmem)
      · exact Multiset.disjoint_left.mp (Multiset.nodup_add.mp hnodup).2.2 hmem
          (Multiset.mem_coe.mpr (mem_wrote.mpr hmem'))

/-! ## The result -/

/-- **Refinement**: whatever is seen of a process, in any interleaving of its threads and
under any failures of Redis, is a history of the desk, and hence orderly. -/
theorem matcher_refines_desk {now : Nat} {m : Matcher cfg τ} {log : List (DeskAct τ)}
    (h : Lts.Run (Lts.record Matcher.step Matcher.shows) Lts.Free (Matcher.init cfg τ now, [])
      (m, log)) : Trace Desk.Step (Desk.opened now) log m.desk ∧ Orderly now log := by
  have htrace : Trace Desk.Step (Matcher.init cfg τ now).desk log m.desk := by
    refine Lts.Run.refines (P := Lts.Free) (I := fun m => Inv m ∧ Founded m) Matcher.desk ?_ ?_
      (h.mono fun _ => trivial) ⟨init_inv now, init_founded now⟩
    · exact fun hI _ hs => ⟨step_inv hI.1 hs, step_founded hI.1 hI.2 hs⟩
    · exact fun hI _ hs => step_desk hI.1 hI.2 hs
  rw [init_desk] at htrace
  exact ⟨htrace, desk_orderly htrace⟩

/-- Ten come in, one match is made, and it is written in the fourth attempt. -/
theorem matcher_refines_desk_retried :
    ∃ (m : Matcher Config.small Nat) (log : List (DeskAct Nat)),
      ((paired log).length = 1 ∧ (wrote log).length = 1) ∧
        Trace Desk.Step (Desk.opened 0) log m.desk ∧ Orderly 0 log := by
  have hexec : (Lts.exec (Lts.record Matcher.step Matcher.shows) (fun _ _ => true)
      (Matcher.init Config.small Nat 0, []) retriedCommit).any
      (fun s => (paired s.2).length = 1 ∧ (wrote s.2).length = 1) = true := by decide +kernel
  obtain ⟨⟨m, log⟩, hrun, hdone⟩ := Lts.exists_run_of_exec hexec
  exact ⟨m, log, of_decide_eq_true hdone, matcher_refines_desk hrun.free⟩

end Supermatchmaker
