import Supermatchmaker.Matcher.Lone
import Supermatchmaker.Matcher.Order

/-!
# Whom a harvest takes

Fairness of `harvest` is about two loops. The three-way peek looks at the fronts of
the window's buckets and keeps the oldest one, the first of them among equals; the
drain loop begins with that bucket. With every queue sorted the front of a bucket is
its oldest player, so the player the peek has chosen is the oldest of the window, and
he is the first one taken.

What the drain loop takes it takes from the fronts: what a bucket held is what was
taken from it, in that order, followed by what it holds now (`Reaped`). `Seeks` is
the invariant of the whole harvest, beside `Search`, which says what it looks at.
-/

namespace Supermatchmaker

variable {cfg : Config} {τ : Type}

/-- The players popped from bucket `b`, in the order in which they were popped. -/
def takenFrom (taken : List (Fin cfg.numBuckets × Player τ)) (b : Fin cfg.numBuckets) :
    List (Player τ) :=
  (taken.filter (·.1 = b)).map Prod.snd

theorem takenFrom_append (taken taken' : List (Fin cfg.numBuckets × Player τ))
    (b : Fin cfg.numBuckets) :
    takenFrom (taken ++ taken') b = takenFrom taken b ++ takenFrom taken' b := by
  unfold takenFrom
  rw [List.filter_append, List.map_append]

/-- What was popped from `b` was popped from `b` only. -/
theorem takenFrom_popped (popped : List (Player τ)) (b c : Fin cfg.numBuckets) :
    takenFrom (popped.map (b, ·)) c = if c = b then popped else [] := by
  unfold takenFrom
  split
  next hcb =>
    have hall : (popped.map (b, ·)).filter (·.1 = c) = popped.map (b, ·) := by
      refine List.filter_eq_self.mpr fun bp hbp => ?_
      obtain ⟨p, _, rfl⟩ := List.mem_map.mp hbp
      exact decide_eq_true hcb.symm
    rw [hall, List.map_map]
    exact List.map_id _
  next hcb =>
    have hnone : (popped.map (b, ·)).filter (·.1 = c) = [] := by
      refine List.filter_eq_nil_iff.mpr fun bp hbp => ?_
      obtain ⟨p, _, rfl⟩ := List.mem_map.mp hbp
      simpa using fun hbc => hcb hbc.symm
    rw [hnone]
    rfl

/-- The buckets that held `bs₀` hold `bs` now that `taken` has been popped from the
fronts of some buckets within reach. -/
structure Reaped (bs₀ bs : Buckets cfg τ) (win : List (Fin cfg.numBuckets))
    (taken : List (Fin cfg.numBuckets × Player τ)) : Prop where
  fronts : ∀ b, bs₀ b = takenFrom taken b ++ bs b
  within : ∀ bp ∈ taken, bp.1 ∈ reach win

/-- A bucket out of reach is as it was. -/
theorem Reaped.untouched {bs₀ bs : Buckets cfg τ} {win : List (Fin cfg.numBuckets)}
    {taken : List (Fin cfg.numBuckets × Player τ)} (h : Reaped bs₀ bs win taken)
    {b : Fin cfg.numBuckets} (hb : b ∉ reach win) : bs b = bs₀ b := by
  have hnone : taken.filter (·.1 = b) = [] := by
    refine List.filter_eq_nil_iff.mpr fun bp hbp => ?_
    simp only [decide_eq_true_eq]
    rintro rfl
    exact hb (h.within bp hbp)
  rw [h.fronts b, takenFrom, hnone]
  rfl

/-- **Pop loop**: one more bucket. -/
theorem Reaped.pop {bs₀ bs : Buckets cfg τ} {win : List (Fin cfg.numBuckets)}
    {taken : List (Fin cfg.numBuckets × Player τ)} (h : Reaped bs₀ bs win taken)
    {b : Fin cfg.numBuckets} (hb : b ∈ reach win) {popped q : List (Player τ)}
    (hq : bs b = popped ++ q) : Reaped bs₀ (bs.set b q) win (taken ++ popped.map (b, ·)) := by
  constructor
  · intro c
    rw [h.fronts c, takenFrom_append, takenFrom_popped, List.append_assoc]
    by_cases hcb : c = b
    · subst hcb
      rw [if_pos rfl, Buckets.set_self, hq]
    · rw [if_neg hcb, Buckets.set_of_ne bs hcb, List.nil_append]
  · intro bp hbp
    rcases List.mem_append.mp hbp with hold | hnew
    · exact h.within bp hold
    · obtain ⟨p, _, rfl⟩ := List.mem_map.mp hnew
      exact hb

/-- The player is in front of a bucket of the window, and no front of the window is
older. -/
structure Foremost (bs₀ : Buckets cfg τ) (win : List (Fin cfg.numBuckets)) (p : Player τ) :
    Prop where
  front : ∃ b ∈ win, p ∈ (bs₀ b).head?
  oldest : ∀ b ∈ win, ∀ x ∈ (bs₀ b).head?, p.enqueuedAt ≤ x.enqueuedAt

/-- In sorted buckets he is the oldest player of the window. -/
theorem Foremost.le {bs₀ : Buckets cfg τ} {win : List (Fin cfg.numBuckets)} {p : Player τ}
    (h : Foremost bs₀ win p) (hsorted : ∀ b, Aged (bs₀ b)) {b : Fin cfg.numBuckets} (hb : b ∈ win)
    {q : Player τ} (hq : q ∈ bs₀ b) : p.enqueuedAt ≤ q.enqueuedAt := by
  cases hbucket : bs₀ b with
  | nil =>
    rw [hbucket] at hq
    cases hq
  | cons x rest =>
    have hfront : p.enqueuedAt ≤ x.enqueuedAt := h.oldest b hb x (by rw [hbucket]; rfl)
    have hrest := hsorted b
    rw [hbucket] at hq hrest
    rcases List.mem_cons.mp hq with rfl | hq
    · exact hfront
    · exact hfront.trans ((List.pairwise_cons.mp hrest).1 q hq)

/-- Where a harvest stands with the oldest player of the window: the anchor is the
oldest front seen so far; in the drain loop he is taken, or about to be. -/
def Seeks (bs₀ : Buckets cfg τ) (win : List (Fin cfg.numBuckets)) (bs : Buckets cfg τ) :
    Pc cfg τ → Prop
  | .peek _ todo anchor => ∀ a ∈ anchor,
    (∃ p ∈ (bs₀ a.1).head?, p.enqueuedAt = a.2) ∧
    ∀ b ∈ win, b ∉ todo → ∀ x ∈ (bs₀ b).head?, a.2 ≤ x.enqueuedAt
  | .drain _ _ todo taken => Reaped bs₀ bs win taken ∧ ∃ p, Foremost bs₀ win p ∧
    (p ∈ taken.map Prod.snd ∨ taken = [] ∧ ∃ b ∈ todo.head?, p ∈ (bs b).head?)
  | .gate g => ∃ taken, g.toList = taken.map Prod.snd ∧ Reaped bs₀ bs win taken ∧
    ∃ p ∈ g.toList, Foremost bs₀ win p
  | _ => True

/-- The end of the drain loop. -/
theorem seeks_harvested {bs₀ bs : Buckets cfg τ} {win : List (Fin cfg.numBuckets)}
    {taken : List (Fin cfg.numBuckets × Player τ)} (hreaped : Reaped bs₀ bs win taken)
    {p : Player τ} (hp : Foremost bs₀ win p) (hmem : taken ≠ [] → p ∈ taken.map Prod.snd) :
    Seeks bs₀ win bs (Pc.harvested taken) := by
  unfold Pc.harvested
  split
  next => trivial
  next hge =>
    by_cases hten : (taken.map Prod.snd).length = 10
    · obtain ⟨g, hg, hlist⟩ := tryInto_eq_some hten
      rw [hg]
      have hsome : taken ≠ [] := by
        rintro rfl
        cases hten
      refine ⟨taken, hlist, hreaped, p, ?_, hp⟩
      rw [hlist]
      exact hmem hsome
    · unfold tryInto
      rw [dif_neg hten]
      trivial

/-- The pop loop takes the front of the first bucket. -/
theorem front_mem_popUntilTen {β : Type} (bi : β) {p : Player τ} {q : List (Player τ)}
    (hp : p ∈ q.head?) : p ∈ (popUntilTen bi q []).2.map Prod.snd := by
  cases q with
  | nil => cases hp
  | cons x q =>
    obtain rfl : x = p := Option.some.inj hp
    obtain ⟨popped, _, htaken, _⟩ := popUntilTen_spec bi q [(bi, x)]
    show x ∈ (popUntilTen bi q [(bi, x)]).2.map Prod.snd
    rw [htaken, List.map_append]
    exact List.mem_append_left _ List.mem_cons_self

/-- **Step of a harvest**. -/
theorem seeks_act {bs₀ bs bs' : Buckets cfg τ} {win : List (Fin cfg.numBuckets)}
    {pc pc' : Pc cfg τ} (hs : Search bs₀ win bs pc) (h : Seeks bs₀ win bs pc)
    (hact : pc.act.result bs = some (bs', pc')) : Seeks bs₀ win bs' pc' := by
  cases Pc.act_cases hact with
  | nobody => trivial
  | @anchored win' a =>
    obtain ⟨rfl, rfl, _, hanchor, _⟩ := hs
    obtain ⟨⟨p, hp, hage⟩, hall⟩ := h a rfl
    refine ⟨⟨fun b => rfl, nofun⟩, p, ⟨⟨a.1, (hanchor a rfl).1, hp⟩, fun b hb x hx => ?_⟩,
      Or.inr ⟨rfl, a.1, rfl, hp⟩⟩
    rw [hage]
    exact hall b hb List.not_mem_nil x hx
  | @passes win' todo b anchor hkeep =>
    obtain ⟨rfl, rfl, _, _, _⟩ := hs
    intro a ha
    refine ⟨(h a ha).1, fun c hc hnot x hx => ?_⟩
    by_cases hcb : c = b
    · subst hcb
      obtain ⟨a', ha', hle⟩ := hkeep x hx
      obtain rfl : a = a' := Option.mem_unique ha ha'
      exact hle
    · exact (h a ha).2 c hc (by simp [hcb, hnot]) x hx
  | @older win' todo b anchor front hfront holder =>
    obtain ⟨rfl, rfl, _, _, hnone⟩ := hs
    intro a ha
    cases ha
    refine ⟨⟨front, hfront, rfl⟩, fun c hc hnot x hx => ?_⟩
    by_cases hcb : c = b
    · subst hcb
      exact Nat.le_of_eq (congrArg Player.enqueuedAt (Option.mem_unique hfront hx))
    · have hseen : c ∉ b :: todo := by simp [hcb, hnot]
      cases anchor with
      | none =>
        rw [hnone rfl c hc hseen] at hx
        cases hx
      | some a => exact (holder a rfl).le.trans ((h a rfl).2 c hc hseen x hx)
  | ended =>
    obtain ⟨hreaped, p, hp, hnext⟩ := h
    exact seeks_harvested hreaped hp fun hsome =>
      hnext.resolve_right fun hnone => hsome hnone.1
  | @popped windowLen pos b rest taken =>
    obtain ⟨hreaped, p, hp, hnext⟩ := h
    obtain ⟨popped, hq, htaken, _⟩ := popUntilTen_spec b (bs b) taken
    have hb : b ∈ reach win := hs.2.1 b List.mem_cons_self
    refine ⟨?_, p, hp, Or.inl ?_⟩
    · rw [htaken]
      exact hreaped.pop hb hq
    · rcases hnext with hold | ⟨rfl, c, hc, hfront⟩
      · rw [htaken, List.map_append]
        exact List.mem_append_left _ hold
      · -- the first bucket of the drain order is the anchor's
        obtain rfl : b = c := Option.some.inj hc
        exact front_mem_popUntilTen b hfront
  | rolledBack => trivial
  | putBack => trivial

/-- **Harvest is fair**: of every bucket it has taken a prefix, buckets out of reach are
as they were, and the oldest player of the window is in the group. -/
theorem harvest_fair {m m' : Matcher cfg τ} {w : Fin cfg.numWorkers}
    {win : List (Fin cfg.numBuckets)} (hsorted : m.Sorted)
    (hrun : Lts.Run Matcher.step (Matcher.Own w) (m.call w win) m') {g : MatchGroup τ}
    (hgate : m'.workers w = .gate g) :
    (∃ taken, g.toList = taken.map Prod.snd ∧
      ∀ b, m.buckets b = takenFrom taken b ++ m'.buckets b) ∧
    (∀ b, b ∉ reach win → m'.buckets b = m.buckets b) ∧
    ∃ p ∈ g.toList, (∃ b ∈ win, p ∈ m.buckets b) ∧
      ∀ b ∈ win, ∀ q ∈ m.buckets b, p.enqueuedAt ≤ q.enqueuedAt := by
  have hpc : (m.call w win).workers w = .peek win win none := Function.update_self ..
  have hend : Search m.buckets win m'.buckets (m'.workers w) ∧
      Seeks m.buckets win m'.buckets (m'.workers w) := by
    refine (Matcher.own_solo hrun).inv
      (I := fun s => Search m.buckets win s.1 s.2 ∧ Seeks m.buckets win s.1 s.2)
      (fun {a e b} hI _ hs => ⟨(search_act hI.1 hs).1, seeks_act hI.1 hI.2 hs⟩) ?_
    rw [hpc]
    exact ⟨⟨rfl, rfl, fun b hb => hb, nofun, fun _ b hb hnot => absurd hb hnot⟩, nofun⟩
  rw [hgate] at hend
  obtain ⟨taken, hlist, hreaped, p, hp, hforemost⟩ := hend.2
  refine ⟨⟨taken, hlist, hreaped.fronts⟩, fun b hb => hreaped.untouched hb, p, hp, ?_,
    fun b hb q hq => hforemost.le hsorted hb hq⟩
  obtain ⟨b, hb, hfront⟩ := hforemost.front
  exact ⟨b, hb, List.mem_of_mem_head? hfront⟩

/-- A bucket of `Config.seven`. -/
def bucketOf (i : Fin 7) : Fin Config.seven.numBuckets := i

/-- Four players in the second bucket, one of whom came before all others, three in the first,
five in the third and one in the sixth. -/
def thirteenWaiting : Matcher Config.seven Nat :=
  [50, 50, 50, 150, 150, 150, 250, 250, 250, 250, 250, 550].zipIdx.foldl
    (fun m r => m.enqueue (Int64.ofNat (r.2 + 1)) r.1 (r.2 + 1))
    { (Matcher.init Config.seven Nat 0).enqueue 0 150 0 with now := 5 }

/-- The harvest of the first two buckets takes the first player, all others of these buckets and
three from the border, and leaves the rest. -/
theorem harvest_fair_thirteen : ∃ (g : MatchGroup Nat) (m' : Matcher Config.seven Nat),
    (∃ p ∈ g.toList, p.enqueuedAt = 0) ∧ (m'.buckets (bucketOf 2)).length = 2 ∧
      m'.buckets (bucketOf 5) = thirteenWaiting.buckets (bucketOf 5) ∧
      ∃ taken, g.toList = taken.map Prod.snd ∧
        ∀ b, thirteenWaiting.buckets b = takenFrom taken b ++ m'.buckets b := by
  have hexec : (Lts.exec Matcher.step (fun m e => m.Own onlyThread e)
      (thirteenWaiting.call onlyThread [bucketOf 0, bucketOf 1])
      (List.replicate 7 (.worker onlyThread .run))).any (fun m =>
        (m.workers onlyThread).gated.isSome && decide ((m.buckets (bucketOf 2)).length = 2))
      = true := by
    decide +kernel
  obtain ⟨m', hrun, hm⟩ := Lts.exists_run_of_exec hexec
  rw [Bool.and_eq_true] at hm
  obtain ⟨hgated, hleft⟩ := hm
  have hsorted : thirteenWaiting.Sorted := by decide +kernel
  have hfirst : ∃ q ∈ thirteenWaiting.buckets (bucketOf 1), q.enqueuedAt = 0 := by
    decide +kernel
  obtain ⟨g, hgate⟩ := Option.isSome_iff_exists.mp hgated
  obtain ⟨htaken, hrest, p, hp, _, hold⟩ :=
    harvest_fair hsorted (hrun.mono of_decide_eq_true) (Pc.eq_gate hgate)
  obtain ⟨q, hq, hzero⟩ := hfirst
  have hle := hold (bucketOf 1) (List.mem_cons_of_mem _ List.mem_cons_self) q hq
  have hfar : bucketOf 5 ∉ reach [bucketOf 0, bucketOf 1] := by decide
  exact ⟨g, m', ⟨p, hp, Nat.le_zero.mp (hzero ▸ hle)⟩, of_decide_eq_true hleft,
    hrest (bucketOf 5) hfar, htaken⟩

end Supermatchmaker
