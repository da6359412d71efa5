import Mathlib
import Supermatchmaker.Config

/-!
# The pool: players in buckets

`struct Player`, `struct Pool` and its methods from `matcher.rs`. A bucket is a
FIFO queue with the longest-waiting player in front; bucket indices are
`Fin numBuckets`, so `buckets[i]` cannot be out of bounds, and `bucketIndex`
shows that the index the code computes never is.

Two fields of a `Player` are ghosts, written at `enqueue` and read by no
definition that models code: `serial` says which call of `enqueue` made the
entry (two entries of the same user with the same rating are two entries), and
`origin` says which ingest event it came from.
-/

namespace Supermatchmaker

/-- A queue entry. `enqueuedAt` is the `Instant`, in nanoseconds. -/
structure Player (τ : Type) where
  id : Int64
  rating : UInt32
  enqueuedAt : Nat
  /-- ghost -/
  serial : Nat
  /-- ghost -/
  origin : τ
  deriving DecidableEq, Repr

/-- The queues of `Pool::buckets`. -/
abbrev Buckets (cfg : Config) (τ : Type) := Fin cfg.numBuckets → List (Player τ)

variable {cfg : Config} {τ : Type}

/-- `(rating / bucket_width).min(buckets.len() - 1)`. -/
def bucketIndex (cfg : Config) (rating : UInt32) : Fin cfg.numBuckets :=
  ⟨min (rating.toNat / cfg.bucketWidth.toNat) (cfg.numBuckets - 1), by
    have := cfg.numBuckets_pos
    omega⟩

/-- Replace the content of one bucket: the effect of one critical section. -/
def Buckets.set (bs : Buckets cfg τ) (b : Fin cfg.numBuckets) (q : List (Player τ)) :
    Buckets cfg τ :=
  Function.update bs b q

@[simp] theorem Buckets.set_self (bs : Buckets cfg τ) (b : Fin cfg.numBuckets)
    (q : List (Player τ)) : bs.set b q b = q :=
  Function.update_self ..

theorem Buckets.set_of_ne (bs : Buckets cfg τ) {b c : Fin cfg.numBuckets} (h : c ≠ b)
    (q : List (Player τ)) : bs.set b q c = bs c :=
  Function.update_of_ne h ..

/-- Everything in the buckets after one was replaced was there before or is in
the new content. -/
theorem Buckets.mem_set {bs : Buckets cfg τ} {b c : Fin cfg.numBuckets}
    {q : List (Player τ)} {p : Player τ} (h : p ∈ bs.set b q c) :
    (c = b ∧ p ∈ q) ∨ p ∈ bs c := by
  by_cases hc : c = b
  · subst hc
    rw [Buckets.set_self] at h
    exact Or.inl ⟨rfl, h⟩
  · rw [Buckets.set_of_ne bs hc] at h
    exact Or.inr h

/-- `Pool::enqueue`: newest player to the back of the bucket its rating maps to. -/
def Buckets.enqueue (bs : Buckets cfg τ) (p : Player τ) : Buckets cfg τ :=
  bs.set (bucketIndex cfg p.rating) (bs (bucketIndex cfg p.rating) ++ [p])

/-- `push_front`, the critical section of `rollback` and `return_group`. -/
def Buckets.pushFront (bs : Buckets cfg τ) (b : Fin cfg.numBuckets) (p : Player τ) :
    Buckets cfg τ :=
  bs.set b (p :: bs b)

/-- `Pool::waiting`: the sum of all bucket lengths. -/
def Buckets.waiting (bs : Buckets cfg τ) : Nat :=
  ((List.finRange cfg.numBuckets).map fun b => (bs b).length).sum

/-- Every entry sits in the bucket its rating maps to. -/
def Buckets.Homed (bs : Buckets cfg τ) : Prop :=
  ∀ b, ∀ p ∈ bs b, bucketIndex cfg p.rating = b

theorem Buckets.Homed.enqueue {bs : Buckets cfg τ} (h : bs.Homed) (p : Player τ) :
    (bs.enqueue p).Homed := by
  intro c x hx
  rcases Buckets.mem_set hx with ⟨hc, hq⟩ | hold
  · rcases List.mem_append.mp hq with hold | hnew
    · rw [hc]
      exact h _ x hold
    · rw [hc, List.mem_singleton.mp hnew]
  · exact h c x hold

/-- A player who is put back where he belongs is at home. -/
theorem Buckets.Homed.pushFront {bs : Buckets cfg τ} (h : bs.Homed) {b : Fin cfg.numBuckets}
    {p : Player τ} (hp : bucketIndex cfg p.rating = b) : (bs.pushFront b p).Homed := by
  intro c x hx
  rcases Buckets.mem_set hx with ⟨hc, hq⟩ | hold
  · rcases List.mem_cons.mp hq with hnew | hold
    · rw [hc, hnew, hp]
    · rw [hc]
      exact h b x hold
  · exact h c x hold

/-- Shrinking a bucket keeps every remaining entry at home. -/
theorem Buckets.Homed.set_of_subset {bs : Buckets cfg τ} (h : bs.Homed)
    {b : Fin cfg.numBuckets} {q : List (Player τ)} (hq : ∀ p ∈ q, p ∈ bs b) :
    (bs.set b q).Homed := by
  intro c x hx
  rcases Buckets.mem_set hx with ⟨hc, hnew⟩ | hold
  · rw [hc]
    exact h b x (hq x hnew)
  · exact h c x hold

end Supermatchmaker
