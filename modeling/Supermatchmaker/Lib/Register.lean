import Mathlib.Data.List.Induction
import Mathlib.Logic.Function.Basic

/-!
# Keyed registers and their write logs

A store of last-write-wins registers is determined by the log of its writes:
`replay` applies them in order. The rule that makes statements about "the value
from then on" provable is `replay_of_split`: the value under a key after a write
of that key is decided by this write and the later writes of the same key.
-/

universe u v w

namespace Register

variable {κ : Type u} {ν : Type v} {ω : Type w} [DecidableEq κ] (key : ω → κ) (val : ω → ν)

/-- The registers after the writes of a log. -/
def replay (st : κ → ν) (log : List ω) : κ → ν :=
  log.foldl (fun st w => Function.update st (key w) (val w)) st

/-- Replaying goes on where it stopped. -/
theorem replay_append (st : κ → ν) (log log' : List ω) :
    replay key val st (log ++ log') = replay key val (replay key val st log) log' :=
  List.foldl_append ..

variable {key val}

/-- A property of a register that every write of its key has is kept. -/
theorem replay_keeps {P : ν → Prop} {k : κ} (log : List ω) :
    ∀ {st : κ → ν}, P (st k) → (∀ w ∈ log, key w = k → P (val w)) →
      P (replay key val st log k) := by
  induction log with
  | nil =>
    intro st h _
    exact h
  | cons w log ih =>
    intro st h hlog
    have hnow : P (Function.update st (key w) (val w) k) := by
      by_cases hk : key w = k
      · rw [← hk, Function.update_self]
        exact hlog w List.mem_cons_self hk
      · rw [Function.update_of_ne (Ne.symm hk)]
        exact h
    exact ih hnow fun w' hw' => hlog w' (List.mem_cons_of_mem _ hw')

/-- **Last write**: what a write and all later writes of its key have in common
holds of the register. -/
theorem replay_of_split {P : ν → Prop} {st : κ → ν} {pre post : List ω} {w : ω} (hw : P (val w))
    (hpost : ∀ w' ∈ post, key w' = key w → P (val w')) :
    P (replay key val st (pre ++ w :: post) (key w)) := by
  rw [replay_append]
  have hnow : P (Function.update (replay key val st pre) (key w) (val w) (key w)) := by
    rw [Function.update_self]
    exact hw
  exact replay_keeps post hnow hpost

variable (key) in
/-- The last write of a key. -/
def lastWrite (log : List ω) (k : κ) : Option ω := (log.filter fun w => key w = k).getLast?

/-- What the write at the end leaves behind. -/
theorem lastWrite_append (log : List ω) (w : ω) (k : κ) :
    lastWrite key (log ++ [w]) k = if key w = k then some w else lastWrite key log k := by
  unfold lastWrite
  rw [List.filter_append]
  by_cases hk : key w = k
  · rw [List.filter_cons_of_pos (by simpa using hk), List.filter_nil, List.getLast?_concat,
      if_pos hk]
  · rw [List.filter_cons_of_neg (by simpa using hk), List.filter_nil, List.append_nil, if_neg hk]

/-- A register holds what was written last. -/
theorem replay_eq_lastWrite (st : κ → ν) (log : List ω) (k : κ) :
    replay key val st log k = ((lastWrite key log k).map val).getD (st k) := by
  induction log using List.reverseRecOn with
  | nil => rfl
  | append_singleton log w ih =>
    rw [replay_append, lastWrite_append]
    show Function.update (replay key val st log) (key w) (val w) k = _
    by_cases hk : key w = k
    · rw [if_pos hk, ← hk, Function.update_self]
      rfl
    · rw [if_neg hk, Function.update_of_ne (Ne.symm hk), ih]

/-- The last write of a key is a write of that key. -/
theorem mem_of_lastWrite {log : List ω} {k : κ} {w : ω} (h : lastWrite key log k = some w) :
    w ∈ log ∧ key w = k := by
  have hmem := List.mem_filter.mp (List.mem_of_getLast? h)
  exact ⟨hmem.1, of_decide_eq_true hmem.2⟩

end Register
