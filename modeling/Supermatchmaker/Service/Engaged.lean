import Supermatchmaker.Service.Effects

/-!
# Who is engaged

An ingest event on its way to the pool, a queue entry and a player of a match
are three forms of the same thing. `Core.engaged` collects all of them under a
key that they share (the user, or the id of the event), leaving out the matches
whose ordinals are listed.

The one fact about it, `Effect.engaged`: within the life of a process a step
passes keys on or lets go of some. Only the `XADD` of a queue call brings a new
one. That no key is engaged twice is therefore a matter of what calls publish,
and of what a process boots with.
-/

namespace Supermatchmaker

variable {cfg : Config} {κ : Type}

/-- What an ingest event and the entry made from it have in common. -/
structure Key (κ : Type) where
  event : Nat × IngestEvent → κ
  player : Player Nat → κ
  agree : ∀ e p, p.id = e.2.id → p.origin = e.1 → player p = event e

/-- Told apart by user. -/
def Key.user : Key Int64 where
  event e := e.2.id
  player p := p.id
  agree _ _ h _ := h

/-- Told apart by the event they come from. -/
def Key.origin : Key Nat where
  event e := e.1
  player p := p.origin
  agree _ _ _ h := h

/-- The keys of a match. -/
def Key.group (k : Key κ) (f : Formed Nat) : Multiset κ := f.group.toList.map k.player

namespace Core

variable (c : Core cfg) (k : Key κ)

/-- The keys of the events the ingestion thread has still to place. -/
def aheadKeys : Multiset κ := c.ingest.ahead.map k.event

/-- The keys of the entries in the pool and in hands. -/
def waitingKeys : Multiset κ := (waiting c.mem).map k.player

/-- The keys in the pool, and on their way to it. -/
def pendingKeys : Multiset κ := c.aheadKeys k + c.waitingKeys k

/-- The keys of the matches, but for those in `out`. -/
def matchedKeys (out : List Nat) : Multiset κ :=
  ((c.mem.formed.filter (·.ordinal ∉ out)).map k.group).sum

/-- The keys of all that is pending and of all matches but those of the ordinals `out`. -/
def engaged (out : List Nat) : Multiset κ := c.pendingKeys k + c.matchedKeys k out

end Core

/-! ## The parts -/

/-- Letting go of more matches. -/
theorem matchedKeys_anti (c : Core cfg) (k : Key κ) {out out' : List Nat} (h : out ⊆ out') :
    c.matchedKeys k out' ≤ c.matchedKeys k out := by
  have hsub : (c.mem.formed.filter (·.ordinal ∉ out')).Sublist
      (c.mem.formed.filter (·.ordinal ∉ out)) := by
    refine List.monotone_filter_right _ fun f hf => ?_
    rw [decide_eq_true_iff] at hf ⊢
    exact fun hmem => hf (h hmem)
  exact (hsub.map k.group).sum_le_sum fun _ _ => Multiset.zero_le _

theorem engaged_anti (c : Core cfg) (k : Key κ) {out out' : List Nat} (h : out ⊆ out') :
    c.engaged k out' ≤ c.engaged k out :=
  add_le_add_right (matchedKeys_anti c k h) _

theorem mem_matchedKeys {c : Core cfg} {k : Key κ} {out : List Nat} {f : Formed Nat}
    (hf : f ∈ c.mem.formed) (hout : f.ordinal ∉ out) : k.group f ≤ c.matchedKeys k out := by
  have hmem : f ∈ c.mem.formed.filter (·.ordinal ∉ out) :=
    List.mem_filter.mpr ⟨hf, decide_eq_true hout⟩
  exact List.single_le_sum (fun _ _ => Multiset.zero_le _) _ (List.mem_map_of_mem hmem)

/-- All the matches together. -/
theorem matchedKeys_nil (c : Core cfg) (k : Key κ) :
    c.matchedKeys k [] = (inMatches c.mem).map k.player := by
  unfold Core.matchedKeys inMatches
  rw [List.filter_eq_self.mpr fun f _ => decide_eq_true List.not_mem_nil]
  induction c.mem.formed with
  | nil => rfl
  | cons f fs ih =>
    rw [List.map_cons, List.map_cons, List.sum_cons, List.sum_cons, Multiset.map_add, ih]
    rfl

/-- With no match left out, every entry the process ever had is engaged. -/
theorem engaged_nil {c : Core cfg} (k : Key κ) (hI : Inv c.mem) :
    c.engaged k [] = c.aheadKeys k + (c.mem.enqueued.map k.player : Multiset κ) := by
  unfold Core.engaged Core.pendingKeys Core.waitingKeys
  rw [matchedKeys_nil, add_assoc, ← Multiset.map_add, hI.waiting_add, Multiset.map_coe]

@[simp] theorem apply_formed (m : Matcher cfg Nat) (call : PoolCall) :
    (m.apply call).formed = m.formed := by
  cases call <;> rfl

/-- The ingestion thread hands keys from the stream to the pool. -/
theorem thread_keys {m : Matcher cfg Nat} {s s' : Ingest} {call : PoolCall} (k : Key κ)
    (h : Ingest.Advance s s' call) :
    (s'.ahead.map k.event : Multiset κ) + (waiting (m.apply call)).map k.player
      ≤ (s.ahead.map k.event : Multiset κ) + (waiting m).map k.player := by
  cases h with
  | kept hcall ha _ =>
    rw [ha]
    cases call with
    | none => exact le_refl _
    | counted => exact le_refl _
    | enqueue e => exact absurd rfl (hcall e)
  | @placed e ha _ =>
    -- the event becomes the entry
    have hkey : k.player ⟨e.2.id, e.2.poolRating, m.now, m.enqueued.length, e.1⟩ = k.event e :=
      k.agree e _ rfl rfl
    refine le_of_eq ?_
    show (s'.ahead.map k.event : Multiset κ)
      + (waiting (m.enqueue e.2.id e.2.poolRating e.1)).map _ = _
    rw [enqueue_waiting, Multiset.map_add, Multiset.map_singleton, hkey, ha, List.map_cons,
      ← Multiset.cons_coe, ← Multiset.singleton_add]
    abel
  | dropped _ ha _ =>
    rw [ha]
    exact add_le_add_left (Multiset.zero_le _) _

/-- An append brings at most the key of the event. -/
theorem xadd_keys {c : Core cfg} (k : Key κ) (hwf : c.ingest.Wf) (ev : IngestEvent) :
    ({ c with ingest := c.ingest.xadd (some ev) } : Core cfg).pendingKeys k
      ≤ c.pendingKeys k + {k.event (c.ingest.stream.lastId + 1, ev)} := by
  unfold Core.pendingKeys Core.aheadKeys
  rw [Ingest.xadd_ahead hwf, List.map_append, ← Multiset.coe_add]
  have hnew : ((if c.ingest.position.isSome then Log.decoded [(c.ingest.stream.lastId + 1, some ev)]
      else []).map k.event : Multiset κ) ≤ {k.event (c.ingest.stream.lastId + 1, ev)} := by
    split
    · exact le_refl _
    · exact Multiset.zero_le _
  refine le_trans (add_le_add_left (add_le_add_right hnew _) _) (le_of_eq ?_)
  show _ + _ + c.waitingKeys k = _
  abel

/-- A trim takes keys from the stream. -/
theorem trim_keys (c : Core cfg) (k : Key κ) (upTo : Nat) :
    ((c.ingest.trim upTo).ahead.map k.event : Multiset κ) ≤ c.aheadKeys k :=
  Multiset.coe_le.mpr ((c.ingest.trim_ahead upTo).map k.event).subperm

/-- A step of the threads that form matches passes entries on to them. -/
theorem flow_keys {c : Core cfg} {me : MatcherEvent cfg Nat} {mem : Matcher cfg Nat} (k : Key κ)
    {out : List Nat} (hout : ∀ n ∈ out, n < c.mem.drawn)
    (hme : ∀ id rating origin, me ≠ .enqueue id rating origin) (h : Flow c.mem me mem) :
    ({ c with mem := mem } : Core cfg).engaged k out = c.engaged k out := by
  unfold Core.engaged Core.pendingKeys Core.waitingKeys Core.matchedKeys
  cases h with
  | still hw hf _ => rw [hw, hf]; rfl
  | arrived hp => exact absurd hp (hme _ _ _)
  | @formed f hw hf _ _ ho _ =>
    have hfresh : f.ordinal ∉ out := fun hmem => by
      have := hout _ hmem
      omega
    rw [hw, hf, List.filter_append, List.map_append, List.sum_append, Multiset.map_add,
      List.filter_cons_of_pos (by exact decide_eq_true hfresh), List.filter_nil, List.map_singleton,
      List.sum_singleton]
    show c.aheadKeys k + _ + _ = c.aheadKeys k + (_ + k.group f) + _
    abel

/-- Nobody is engaged before the first call. -/
theorem init_engaged (k : Key κ) (out : List Nat) : (World.init cfg).engaged k out = 0 := by
  have hwaiting : waiting (Matcher.init cfg Nat 0) = 0 := by
    have hinv : Inv (Matcher.init cfg Nat 0) := init_inv 0
    exact (add_eq_zero.mp hinv.waiting_add).1
  show (0 : Multiset κ) + (waiting (Matcher.init cfg Nat 0)).map k.player + 0 = 0
  rw [hwaiting]
  rfl

/-! ## One step -/

/-- The event that a queue call appends in this step. -/
def Publishes (s : World cfg) (e : WorldEvent cfg) (ev : IngestEvent) : Prop :=
  ∃ i link, e = .call i link ∧ link ≠ .down ∧ s.calls[i]? = some ⟨ev.id, .publish ev.rating⟩

/-- **What a step does to the keys pending**: nothing new, except by an `XADD`. -/
theorem Effect.pending {s : World cfg} {e : WorldEvent cfg} {c : Core cfg} (hS : Sound s.toCore)
    (h : Effect s e c) (hboot : e ≠ .restart) (k : Key κ) :
    c.pendingKeys k ≤ s.pendingKeys k ∨ ∃ ev, Publishes s e ev ∧
      c.pendingKeys k ≤ s.pendingKeys k + {k.event (s.ingest.stream.lastId + 1, ev)} := by
  cases h with
  | @xadd i link user rating hcall hlink =>
    exact .inr ⟨⟨user, rating⟩, ⟨i, link, rfl, hlink, hcall⟩, xadd_keys k hS.thread _⟩
  | ingest hstep => exact .inl (thread_keys k (Ingest.threadStep_advance hS.thread hstep))
  | process hd hstep =>
    exact .inl
      (add_le_add_right (Multiset.map_le_map (step_enqueued hS.inv hd.ne_enqueue hstep).2) _)
  | publish hd hstep =>
    exact .inl
      (add_le_add_right (Multiset.map_le_map (step_enqueued hS.inv hd.ne_enqueue hstep).2) _)
  | @trimmed upTo => exact .inl (add_le_add_left (trim_keys s.toCore k upTo) _)
  | restart => exact absurd rfl hboot
  | _ => exact .inl (le_refl _)

/-- **What a step does to the keys engaged**: nothing new, except by an `XADD`. -/
theorem Effect.engaged {s : World cfg} {e : WorldEvent cfg} {c : Core cfg} (hS : Sound s.toCore)
    (h : Effect s e c) (hboot : e ≠ .restart) (k : Key κ) {out : List Nat}
    (hout : ∀ n ∈ out, n < s.mem.drawn) :
    c.engaged k out ≤ s.engaged k out ∨ ∃ ev, Publishes s e ev ∧
      c.engaged k out ≤ s.engaged k out + {k.event (s.ingest.stream.lastId + 1, ev)} := by
  -- outside the threads that form matches, what is engaged changes as what is pending
  have hkeep : c.mem.formed = s.mem.formed →
      c.engaged k out ≤ s.engaged k out ∨ ∃ ev, Publishes s e ev ∧
      c.engaged k out ≤ s.engaged k out + {k.event (s.ingest.stream.lastId + 1, ev)} := by
    intro hf
    unfold Core.engaged Core.matchedKeys
    rw [hf]
    rcases h.pending hS hboot k with hle | ⟨ev, hev, hle⟩
    · exact .inl (add_le_add_left hle _)
    · refine .inr ⟨ev, hev, le_trans (add_le_add_left hle _) (le_of_eq ?_)⟩
      abel
  cases h with
  | process hd hstep =>
    exact .inl (le_of_eq (flow_keys k hout hd.ne_enqueue (step_flow hS.inv hstep)))
  | publish hd hstep =>
    exact .inl (le_of_eq (flow_keys (c := s.toCore) k hout hd.ne_enqueue (step_flow hS.inv hstep)))
  | ingest hstep => exact hkeep (apply_formed _ _)
  | restart => exact absurd rfl hboot
  | _ => exact hkeep rfl

end Supermatchmaker
