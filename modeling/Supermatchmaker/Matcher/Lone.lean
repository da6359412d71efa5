import Supermatchmaker.Matcher.Eviction
import Supermatchmaker.Matcher.Window

/-!
# What a lone attempt finds

`run_worker` and `harvest` compute twice, in different ways, what a window can
give: the density check adds up bucket lengths along the window and its borders,
the harvest pops along its drain order. With no other thread acting both are
about the same question (`Feasible`): is there a player in the window, and are
there ten in the window and its borders, each bucket counted once?

`Search` is the invariant of an attempt from the density check to its end, and
`step_search` the one step lemma. A window that wraps may hold a bucket several
times; the density check counts it each time, which can only make it more
hopeful (`headcount_le`), and the harvest finds it empty the second time.
-/

namespace Supermatchmaker

variable {cfg : Config} {τ : Type}

/-- How many players the distinct buckets of a list hold. -/
def headcount (bs : Buckets cfg τ) (l : List (Fin cfg.numBuckets)) : Nat :=
  ∑ b ∈ l.toFinset, (bs b).length

/-- A group of ten can be had from the window: it is not empty, and with its
borders it holds ten. -/
def Feasible (bs : Buckets cfg τ) (win : List (Fin cfg.numBuckets)) : Prop :=
  (∃ b ∈ win, bs b ≠ []) ∧ 10 ≤ headcount bs (reach win)

/-- A bucket met several times is counted several times along the list. -/
theorem headcount_le (bs : Buckets cfg τ) (l : List (Fin cfg.numBuckets)) :
    headcount bs l ≤ (l.map fun b => (bs b).length).sum := by
  unfold headcount
  induction l with
  | nil => exact Nat.le_refl 0
  | cons b l ih =>
    rw [List.toFinset_cons, List.map_cons, List.sum_cons]
    by_cases hb : b ∈ l.toFinset
    · rw [Finset.insert_eq_of_mem hb]
      omega
    · rw [Finset.sum_insert hb]
      omega

/-- Replacing the content of one bucket. -/
theorem headcount_set (bs : Buckets cfg τ) {l : List (Fin cfg.numBuckets)} {b : Fin cfg.numBuckets}
    (hb : b ∈ l) (q : List (Player τ)) :
    headcount (bs.set b q) l + (bs b).length = headcount bs l + q.length := by
  have hb : b ∈ l.toFinset := List.mem_toFinset.mpr hb
  unfold headcount
  rw [← Finset.add_sum_erase _ _ hb, ← Finset.add_sum_erase l.toFinset (fun c => (bs c).length) hb,
    Buckets.set_self]
  have hrest : ∑ c ∈ l.toFinset.erase b, (bs.set b q c).length
      = ∑ c ∈ l.toFinset.erase b, (bs c).length :=
    Finset.sum_congr rfl fun c hc => by rw [Buckets.set_of_ne bs (Finset.ne_of_mem_erase hc)]
  omega

/-- The pop loop empties the bucket unless it has its ten. -/
theorem popUntilTen_empties {β : Type} (bi : β) :
    ∀ (q : List (Player τ)) (taken : List (β × Player τ)),
      (popUntilTen bi q taken).2.length < 10 → (popUntilTen bi q taken).1 = []
  | [], _, _ => rfl
  | p :: q, taken, h => by
    unfold popUntilTen at h ⊢
    split
    next hlt =>
      rw [if_pos hlt] at h
      exact popUntilTen_empties bi q _ h
    next hge =>
      rw [if_neg hge] at h
      exact absurd h hge

/-! ## The invariant of an attempt -/

/-- Where an attempt on the window `win` stands that began with the buckets `bs₀` and
has them at `bs` now, nobody else having touched them. -/
def Search (bs₀ : Buckets cfg τ) (win : List (Fin cfg.numBuckets)) (bs : Buckets cfg τ) :
    Pc cfg τ → Prop
  | .idle | .rollback _ => ¬ Feasible bs₀ win
  | .density win' todo approx => win' = win ∧ bs = bs₀ ∧
    approx + (todo.map fun b => (bs₀ b).length).sum
      = ((reach win).map fun b => (bs₀ b).length).sum
  | .peek win' todo anchor => win' = win ∧ bs = bs₀ ∧ (∀ b ∈ todo, b ∈ win) ∧
    (∀ a ∈ anchor, a.1 ∈ win ∧ bs₀ a.1 ≠ []) ∧
    (anchor = none → ∀ b ∈ win, b ∉ todo → bs₀ b = [])
  | .drain _ _ todo taken => (∃ b ∈ win, bs₀ b ≠ []) ∧ (∀ b ∈ todo, b ∈ reach win) ∧
    taken.length ≤ 10 ∧ taken.length + headcount bs (reach win) = headcount bs₀ (reach win) ∧
    (taken.length < 10 → ∀ b ∈ reach win, b ∉ todo → bs b = [])
  | .gate _ => Feasible bs₀ win
  | .giveBack _ | .commit .. | .defer _ => False

/-- The steps an attempt still has before it. -/
def Pc.fuel : Pc cfg τ → Nat
  | .density win todo _ => todo.length + 2 * win.length + 18
  | .peek win todo _ => todo.length + win.length + 17
  | .drain _ _ todo _ => todo.length + 13
  | .gate _ => 12
  | .rollback todo => todo.length + 1
  | .giveBack todo => todo.length + 1
  | .idle | .commit .. | .defer _ => 0

/-- The end of the drain loop. -/
theorem search_harvested {bs₀ bs : Buckets cfg τ} {win : List (Fin cfg.numBuckets)}
    {windowLen pos : Nat} {todo : List (Fin cfg.numBuckets)}
    {taken : List (Fin cfg.numBuckets × Player τ)}
    (h : Search bs₀ win bs (.drain windowLen pos todo taken))
    (hend : taken.length = 10 ∨ todo = []) : Search bs₀ win bs (Pc.harvested taken) := by
  obtain ⟨hsome, _, hten, htotal, hempty⟩ := h
  unfold Pc.harvested
  split
  next hlt =>
    -- every bucket within reach is empty: what was taken is all there was
    rintro ⟨_, hfeasible⟩
    have htodo : todo = [] := hend.resolve_left (Nat.ne_of_lt hlt)
    have hzero : headcount bs (reach win) = 0 := by
      refine Finset.sum_eq_zero fun b hb => ?_
      rw [hempty hlt b (List.mem_toFinset.mp hb) (by rw [htodo]; exact List.not_mem_nil)]
      rfl
    omega
  next hge =>
    have hlen : (taken.map Prod.snd).length = 10 := by
      rw [List.length_map]
      omega
    obtain ⟨g, hg, _⟩ := tryInto_eq_some hlen
    rw [hg]
    exact ⟨hsome, by omega⟩

/-- After the drain at most a rollback of ten is left. -/
theorem fuel_harvested (taken : List (Fin cfg.numBuckets × Player τ)) :
    (Pc.harvested taken).fuel < 13 := by
  unfold Pc.harvested
  split
  next hlt =>
    simp only [Pc.fuel, List.length_reverse]
    omega
  · cases tryInto (taken.map Prod.snd) <;> simp [Pc.fuel]

/-- **Step of a harvest**: the invariant goes on and the steps left are fewer. -/
theorem search_act {bs₀ bs bs' : Buckets cfg τ} {win : List (Fin cfg.numBuckets)}
    {pc pc' : Pc cfg τ} (h : Search bs₀ win bs pc) (hact : pc.act.result bs = some (bs', pc')) :
    Search bs₀ win bs' pc' ∧ pc'.fuel < pc.fuel := by
  cases Pc.act_cases hact with
  | nobody =>
    obtain ⟨rfl, rfl, _, _, hnone⟩ := h
    refine ⟨?_, by simp [Pc.fuel]⟩
    rintro ⟨⟨b, hb, hne⟩, _⟩
    exact hne (hnone rfl b hb List.not_mem_nil)
  | @anchored win' a =>
    obtain ⟨rfl, rfl, _, hanchor, _⟩ := h
    obtain ⟨ha, hne⟩ := hanchor a rfl
    refine ⟨⟨⟨a.1, ha, hne⟩, fun b hb => (mem_drainOrder ha).mp hb, Nat.zero_le _,
      Nat.zero_add _, fun _ b hb hnot => absurd ((mem_drainOrder ha).mpr hb) hnot⟩, ?_⟩
    have := length_drainOrder_le win' a.1
    simp only [Pc.fuel, List.length_nil]
    omega
  | @passes win' todo b anchor hkeep =>
    obtain ⟨rfl, rfl, htodo, hanchor, hnone⟩ := h
    refine ⟨⟨rfl, rfl, fun c hc => htodo c (List.mem_cons_of_mem _ hc), hanchor,
      fun hno c hc hnot => ?_⟩, by simp [Pc.fuel]⟩
    by_cases hcb : c = b
    · -- the first front seen would have become the anchor
      rw [hcb]
      refine List.head?_eq_none_iff.mp (Option.eq_none_iff_forall_not_mem.mpr fun x hx => ?_)
      obtain ⟨a, ha, _⟩ := hkeep x hx
      rw [hno] at ha
      cases ha
    · exact hnone hno c hc (by simp [hcb, hnot])
  | @older win' todo b anchor front hfront holder =>
    obtain ⟨rfl, rfl, htodo, _, _⟩ := h
    refine ⟨⟨rfl, rfl, fun c hc => htodo c (List.mem_cons_of_mem _ hc), fun a ha => ?_, nofun⟩,
      by simp [Pc.fuel]⟩
    cases ha
    refine ⟨htodo b List.mem_cons_self, fun hnil => ?_⟩
    rw [hnil] at hfront
    cases hfront
  | @ended windowLen pos todo taken hend =>
    refine ⟨search_harvested h hend, ?_⟩
    have := fuel_harvested taken
    simp only [Pc.fuel] at this ⊢
    omega
  | @popped windowLen pos b rest taken hten =>
    obtain ⟨hsome, htodo, hlen, htotal, hempty⟩ := h
    obtain ⟨popped, hq, htaken, hten'⟩ := popUntilTen_spec b (bs b) taken
    have hb : b ∈ reach win := htodo b List.mem_cons_self
    refine ⟨⟨hsome, fun c hc => htodo c (List.mem_cons_of_mem _ hc), hten' hlen, ?_, ?_⟩, ?_⟩
    · have hset := headcount_set bs hb (popUntilTen b (bs b) taken).1
      have hbucket := congrArg List.length hq
      rw [List.length_append] at hbucket
      rw [htaken, List.length_append, List.length_map]
      show taken.length + popped.length
        + headcount (bs.set b (popUntilTen b (bs b) taken).1) (reach win) = _
      omega
    · intro hlt c hc hnot
      by_cases hcb : c = b
      · subst hcb
        exact (Buckets.set_self bs c _).trans (popUntilTen_empties c (bs c) taken hlt)
      · have hfew : taken.length < 10 := by omega
        exact (Buckets.set_of_ne bs hcb _).trans
          (hempty hfew c hc (by simp [hcb, hnot]))
    · simp only [Pc.fuel, List.length_cons]
      omega
  | rolledBack => exact ⟨h, by simp [Pc.fuel]⟩
  | putBack => exact ⟨h, by simp [Pc.fuel]⟩

/-- The thread is adding up the lengths of its buckets. -/
def Pc.Counting : Pc cfg τ → Prop
  | .density .. => True
  | _ => False

/-- An attempt that is neither over nor at the gate is under way. -/
theorem Search.under_way {bs₀ bs : Buckets cfg τ} {win : List (Fin cfg.numBuckets)}
    {pc : Pc cfg τ} (h : Search bs₀ win bs pc) (hidle : pc ≠ .idle) (hgate : ∀ g, pc ≠ .gate g) :
    pc.Counting ∨ pc.Harvesting := by
  cases pc with
  | idle => exact absurd rfl hidle
  | density => exact Or.inl trivial
  | peek | drain | rollback => exact Or.inr trivial
  | gate g => exact absurd rfl (hgate g)
  | giveBack | commit | defer => cases h

/-- A harvest does not go back to the density check. -/
theorem act_not_counting {bs bs' : Buckets cfg τ} {pc pc' : Pc cfg τ}
    (hact : pc.act.result bs = some (bs', pc')) : ¬ pc'.Counting := by
  cases Pc.act_cases hact with
  | @ended _ _ _ taken =>
    unfold Pc.harvested
    split
    · exact id
    · cases tryInto (taken.map Prod.snd) <;> exact id
  | _ => exact id

namespace Matcher

/-- **Step** of a lone attempt, from the density check to its end: the thread moves on,
with the invariant and fewer steps left, and nothing but the pool is touched. -/
theorem step_search {bs₀ : Buckets cfg τ} {win : List (Fin cfg.numBuckets)} {m : Matcher cfg τ}
    {w : Fin cfg.numWorkers} (h : Search bs₀ win m.buckets (m.workers w))
    (hpc : (m.workers w).Counting ∨ (m.workers w).Harvesting) :
    ∃ bs' pc', m.step (.worker w .run) = some (m.withPool ⟨bs', Function.update m.workers w pc'⟩) ∧
      Search bs₀ win bs' pc' ∧ pc'.fuel < (m.workers w).fuel ∧
      ((m.workers w).Harvesting → ¬ pc'.Counting) := by
  rcases hpc with hcount | hharvest
  · cases hw : m.workers w with
    | density win' todo approx =>
      rw [hw] at h
      obtain ⟨rfl, hbs, hsum⟩ := h
      cases todo with
      | nil =>
        refine ⟨m.buckets, if approx < 10 then .idle else .peek win' win' none, ?_, ?_, ?_, nofun⟩
        · show m.workerRun w = _
          unfold workerRun
          rw [hw]
          rfl
        · split
          next hlt =>
            -- too few along the list, the more so in its distinct buckets
            rintro ⟨_, hten⟩
            have hle := headcount_le bs₀ (reach win')
            simp only [List.map_nil, List.sum_nil, Nat.add_zero] at hsum
            omega
          · exact ⟨rfl, hbs, fun b hb => hb, nofun, fun _ b hb hnot => absurd hb hnot⟩
        · split <;> simp only [Pc.fuel, List.length_nil] <;> omega
      | cons b todo =>
        refine ⟨m.buckets, .density win' todo (approx + (m.buckets b).length), ?_,
          ⟨rfl, hbs, ?_⟩, by simp only [Pc.fuel, List.length_cons]; omega, nofun⟩
        · show m.workerRun w = _
          unfold workerRun
          rw [hw]
          rfl
        · rw [List.map_cons, List.sum_cons] at hsum
          rw [hbs]
          omega
    | _ =>
      rw [hw] at hcount
      cases hcount
  · obtain ⟨⟨bs', pc'⟩, hr⟩ : ∃ r, (m.workers w).act.result m.buckets = some r := by
      cases hact : (m.workers w).act with
      | halt => exact absurd hharvest (Pc.act_eq_halt.mp hact)
      | _ => exact ⟨_, rfl⟩
    obtain ⟨hsearch, hfuel⟩ := search_act h hr
    refine ⟨bs', pc', ?_, hsearch, hfuel, fun _ => act_not_counting hr⟩
    rw [step_act hharvest]
    show ((((m.workers w).act.result m.buckets).map _).map m.withPool) = _
    rw [hr]
    rfl

/-- Thread `w` goes on with its density check. -/
def OwnCount (w : Fin cfg.numWorkers) (m : Matcher cfg τ) (e : MatcherEvent cfg τ) : Prop :=
  e = .worker w .run ∧ (m.workers w).Counting

/-- The window the next ticket claims. -/
def claimed (m : Matcher cfg τ) : List (Fin cfg.numBuckets) :=
  window cfg (m.ticket.toNat % cfg.numBuckets)

/-- Thread `w` calls `harvest`. -/
def call (m : Matcher cfg τ) (w : Fin cfg.numWorkers) (win : List (Fin cfg.numBuckets)) :
    Matcher cfg τ :=
  m.setPc w (.peek win win none)

/-- A harvest of thread `w` that began with the buckets `bs₀` is under way, or over. -/
structure Called (bs₀ : Buckets cfg τ) (win : List (Fin cfg.numBuckets)) (w : Fin cfg.numWorkers)
    (m : Matcher cfg τ) : Prop where
  search : Search bs₀ win m.buckets (m.workers w)
  notCounting : ¬ (m.workers w).Counting

theorem call_called (m : Matcher cfg τ) (w : Fin cfg.numWorkers)
    (win : List (Fin cfg.numBuckets)) : Called m.buckets win w (m.call w win) := by
  have hpc : (m.call w win).workers w = .peek win win none := Function.update_self ..
  constructor
  · rw [hpc]
    exact ⟨rfl, rfl, fun b hb => hb, nofun, fun _ b hb hnot => absurd hb hnot⟩
  · rw [hpc]
    exact id

/-- **Step**: until it has returned, the thread can go on, and has fewer steps left. -/
theorem Called.progress {bs₀ : Buckets cfg τ} {win : List (Fin cfg.numBuckets)}
    {w : Fin cfg.numWorkers} {m : Matcher cfg τ} (h : Called bs₀ win w m)
    (hcall : (m.workers w).Harvesting) :
    ∃ m', m.step (.worker w .run) = some m' ∧ Called bs₀ win w m' ∧
      (m'.workers w).fuel < (m.workers w).fuel := by
  obtain ⟨bs', pc', hstep, hsearch, hfuel, hcount⟩ := step_search h.search (Or.inr hcall)
  have hpc : (m.withPool ⟨bs', Function.update m.workers w pc'⟩).workers w = pc' :=
    Function.update_self ..
  refine ⟨_, hstep, ⟨?_, ?_⟩, ?_⟩
  · rw [hpc]
    exact hsearch
  · rw [hpc]
    exact hcount hcall
  · rwa [hpc]

/-- **Step** of a thread that is alone. -/
theorem step_called {bs₀ : Buckets cfg τ} {win : List (Fin cfg.numBuckets)}
    {w : Fin cfg.numWorkers} {m m' : Matcher cfg τ} {e : MatcherEvent cfg τ}
    (h : Called bs₀ win w m) (hown : Own w m e) (hstep : m.step e = some m') :
    Called bs₀ win w m' := by
  unfold Own at hown
  split at hown
  next w' =>
    obtain ⟨rfl, hcall⟩ := hown
    obtain ⟨m'', hstep', hcalled, _⟩ := h.progress hcall
    rw [hstep'] at hstep
    cases hstep
    exact hcalled
  next => cases hown

/-- What the outcome says: a group when the window is feasible, none when it is not. -/
theorem Called.returned {bs₀ : Buckets cfg τ} {win : List (Fin cfg.numBuckets)}
    {w : Fin cfg.numWorkers} {m : Matcher cfg τ} (h : Called bs₀ win w m) (hdone : m.Returned w) :
    (m.workers w = .idle ∧ ¬ Feasible bs₀ win) ∨
      ∃ g, m.workers w = .gate g ∧ Feasible bs₀ win := by
  obtain ⟨hsearch, hcount⟩ := h
  unfold Returned at hdone
  cases hpc : m.workers w with
  | idle =>
    rw [hpc] at hsearch
    exact Or.inl ⟨rfl, hsearch⟩
  | gate g =>
    rw [hpc] at hsearch
    exact Or.inr ⟨g, rfl, hsearch⟩
  | density =>
    rw [hpc] at hcount
    exact absurd trivial hcount
  | peek | drain | rollback =>
    rw [hpc] at hdone
    exact absurd trivial hdone
  | giveBack | commit | defer =>
    rw [hpc] at hsearch
    cases hsearch

/-- A density check begun on the buckets as they are. -/
theorem search_takeTicket (m : Matcher cfg τ) (w : Fin cfg.numWorkers) :
    Search m.buckets m.claimed (m.takeTicket w).buckets ((m.takeTicket w).workers w) := by
  show Search m.buckets _ m.buckets (Function.update m.workers w _ w)
  rw [Function.update_self]
  exact ⟨rfl, rfl, Nat.zero_add _⟩

end Matcher

/-- **Harvest succeeds exactly when it can**: called on the window of a ticket, with no
other thread acting, it returns; it returns a group (of ten) if there are ten
players to be had, and `None` otherwise. And the density check skips a window
only where that is so. -/
theorem harvest_iff_feasible (m : Matcher cfg τ) (w : Fin cfg.numWorkers) :
    (∃ m', Lts.Run Matcher.step (Matcher.Own w) (m.call w m.claimed) m' ∧ m'.Returned w) ∧
    (∀ m', Lts.Run Matcher.step (Matcher.Own w) (m.call w m.claimed) m' → m'.Returned w →
      ((∃ g, m'.workers w = .gate g) ↔ Feasible m.buckets m.claimed) ∧
      (m'.workers w = .idle ↔ ¬ Feasible m.buckets m.claimed)) ∧
    ∀ m' approx, Lts.Run Matcher.step (Matcher.OwnCount w) (m.takeTicket w) m' →
      m'.workers w = .density m.claimed [] approx → approx < 10 →
      ¬ Feasible m.buckets m.claimed := by
  refine ⟨?_, ?_, ?_⟩
  · have hprogress : ∀ {a : Matcher cfg τ}, a.Called m.buckets m.claimed w → ¬ a.Returned w →
        ∃ e b, a.Own w e ∧ a.step e = some b ∧ b.Called m.buckets m.claimed w ∧
          (b.workers w).fuel < (a.workers w).fuel := by
      intro a hcalled hnot
      have hcall : (a.workers w).Harvesting := not_not.mp hnot
      obtain ⟨b, hstep, hcalled', hfuel⟩ := hcalled.progress hcall
      exact ⟨.worker w .run, b, ⟨rfl, hcall⟩, hstep, hcalled', hfuel⟩
    obtain ⟨m', hrun, _, hdone⟩ := Lts.Run.exists_of_decreasing
      (fun a : Matcher cfg τ => (a.workers w).fuel) hprogress (m.call_called w m.claimed)
    exact ⟨m', hrun, hdone⟩
  · intro m' hrun hdone
    have hcalled : m'.Called m.buckets m.claimed w :=
      hrun.inv (fun h hown hs => Matcher.step_called h hown hs) (m.call_called w m.claimed)
    rcases hcalled.returned hdone with ⟨hidle, hnot⟩ | ⟨g, hgate, hfeasible⟩
    · rw [hidle]
      exact ⟨⟨nofun, fun hf => absurd hf hnot⟩, fun _ => hnot, fun _ => rfl⟩
    · rw [hgate]
      exact ⟨⟨fun _ => hfeasible, fun _ => ⟨g, rfl⟩⟩, nofun, fun hnot => absurd hfeasible hnot⟩
  · intro m' approx hrun hpc hlt
    have hsearch : Search m.buckets m.claimed m'.buckets (m'.workers w) := by
      refine hrun.inv (I := fun m' => Search m.buckets m.claimed m'.buckets (m'.workers w))
        (fun {a e b} hI hguard hs => ?_) (Matcher.search_takeTicket m w)
      obtain ⟨rfl, hcount⟩ := hguard
      obtain ⟨bs', pc', hstep, hsearch, _⟩ := Matcher.step_search hI (Or.inl hcount)
      rw [hstep] at hs
      cases hs
      show Search _ _ bs' (Function.update a.workers w pc' w)
      rwa [Function.update_self]
    rw [hpc] at hsearch
    obtain ⟨_, _, hsum⟩ := hsearch
    rintro ⟨_, hten⟩
    have hle := headcount_le m.buckets (reach m.claimed)
    simp only [List.map_nil, List.sum_nil, Nat.add_zero] at hsum
    omega

end Supermatchmaker
