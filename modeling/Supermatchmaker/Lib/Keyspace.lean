import Mathlib.Data.Set.Operations
import Mathlib.Logic.Function.Basic
import Supermatchmaker.Lib.Log

/-!
# One key space

A server that keeps everything under one set of keys. A key holds a text or a stream,
perhaps with a consumer group, or nothing. Each command works at one key; a command for
the one kind of value is refused at a key that holds the other.

A client thinks of its stores as separate: it works at addresses, and a function tells
the key of each. `exec_pull` is the rule for that: if no two addresses share a key, the
server answers as one whose keys are the addresses would, and the keys of no address are
never touched (`exec_outside`).

A missing key is an empty stream without a group to the commands that may create it.
`Holds` says so, and what each command does to a stream that is held is one lemma.
-/

universe u v w x

namespace Keyspace

/-- What a key holds. -/
inductive Value (β : Type v) (η : Type w)
  | text (b : β)
  | stream (log : Log η) (group : Option (Consumer η))

/-- A key space: a value, or none, at each key. -/
abbrev Store (κ : Type u) (β : Type v) (η : Type w) := κ → Option (Value β η)

/-- The commands, without the key. -/
inductive Op (β : Type v) (η : Type w)
  | get
  | set (b : β)
  /-- the time to live is over -/
  | expire
  | xadd (entry : η)
  /-- which id `$` stands for -/
  | newest
  | xread (count start : Nat)
  | xtrim (upTo : Nat)
  /-- `XGROUP CREATE .. $ MKSTREAM` -/
  | groupCreate
  /-- `XREADGROUP .. >` -/
  | groupRead (count : Nat)
  /-- `XREADGROUP .. 0` -/
  | groupPending (count : Nat)
  | groupAck (ids : List Nat)

/-- What the server answers to a command. -/
inductive Reply (β : Type v) (η : Type w)
  | done
  | text (b : Option β)
  | id (n : Nat)
  | entries (es : List (Nat × η))
  | busyGroup
  | noGroup
  | wrongType

section Commands

variable {κ : Type u} [DecidableEq κ] {β : Type v} {η : Type w}

/-- A command at a key that holds this. -/
def Op.run : Op β η → Option (Value β η) → Option (Value β η) × Reply β η
  | .get, none => (none, .text none)
  | .get, some (.text b) => (some (.text b), .text (some b))
  | .set b, _ => (some (.text b), .done)
  | .expire, _ => (none, .done)
  | .xadd entry, none => (some (.stream (Log.empty.append entry) none), .id 1)
  | .xadd entry, some (.stream log group) =>
    (some (.stream (log.append entry) group), .id (log.lastId + 1))
  | .newest, none => (none, .id 0)
  | .newest, some (.stream log group) => (some (.stream log group), .id log.lastId)
  | .xread _ _, none => (none, .entries [])
  | .xread count start, some (.stream log group) =>
    (some (.stream log group), .entries ((log.after start).take count))
  | .xtrim _, none => (none, .done)
  | .xtrim upTo, some (.stream log group) => (some (.stream (log.trim upTo) group), .done)
  | .groupCreate, none => (some (.stream .empty (some (.create .empty))), .done)
  | .groupCreate, some (.stream log none) => (some (.stream log (some (.create log))), .done)
  | .groupCreate, some (.stream log (some g)) => (some (.stream log (some g)), .busyGroup)
  | .groupRead count, some (.stream log (some g)) =>
    (some (.stream log (some (g.deliver log count))), .entries (g.undelivered log count))
  | .groupPending count, some (.stream log (some g)) =>
    (some (.stream log (some g)), .entries (g.redeliver count))
  | .groupRead _, none => (none, .noGroup)
  | .groupRead _, some (.stream log none) => (some (.stream log none), .noGroup)
  | .groupPending _, none => (none, .noGroup)
  | .groupPending _, some (.stream log none) => (some (.stream log none), .noGroup)
  | .groupAck _, none => (none, .done)
  | .groupAck ids, some (.stream log group) =>
    (some (.stream log (group.map (·.ack ids))), .done)
  | _, held => (held, .wrongType)

/-- A command at a key of the store. -/
def exec (s : Store κ β η) (k : κ) (op : Op β η) : Store κ β η × Reply β η :=
  (Function.update s k (op.run (s k)).1, (op.run (s k)).2)

/-! ## Addresses -/

/-- **Addressing rule**: at an address the server answers, and is left, as the store of the
addresses. -/
theorem exec_pull {ι : Type x} [DecidableEq ι] {addr : ι → κ} (haddr : Function.Injective addr)
    (s : Store κ β η) (i : ι) (op : Op β η) :
    (exec s (addr i) op).2 = (exec (s ∘ addr) i op).2 ∧
      (exec s (addr i) op).1 ∘ addr = (exec (s ∘ addr) i op).1 :=
  ⟨rfl, Function.update_comp_eq_of_injective s haddr i _⟩

/-- No other key is touched. -/
theorem exec_outside {ι : Type x} {addr : ι → κ} {k : κ} (hk : k ∉ Set.range addr)
    (s : Store κ β η) (i : ι) (op : Op β η) : (exec s (addr i) op).1 k = s k :=
  Function.update_of_ne (fun heq => hk ⟨i, heq.symm⟩) _ _

end Commands

/-! ## Streams -/

section Streams

variable {β : Type v} {η : Type w} {held : Option (Value β η)} {log : Log η}
  {group : Option (Consumer η)}

/-- The stream with its group at a key; a key that is missing is an empty one. -/
inductive Holds : Option (Value β η) → Log η → Option (Consumer η) → Prop
  | missing : Holds none .empty none
  | stream (log : Log η) (group : Option (Consumer η)) : Holds (some (.stream log group)) log group

/-- `XADD` appends. -/
theorem Holds.xadd (h : Holds held log group) (entry : η) :
    Holds ((Op.xadd entry).run held).1 (log.append entry) group ∧
      ((Op.xadd entry).run held).2 = .id (log.lastId + 1) := by
  cases h with
  | missing => exact ⟨.stream _ _, rfl⟩
  | stream => exact ⟨.stream _ _, rfl⟩

/-- The newest id is the number of entries ever appended. -/
theorem Holds.newest (h : Holds held log group) :
    Holds (Op.newest.run held).1 log group ∧ (Op.newest.run held).2 = .id log.lastId := by
  cases h with
  | missing => exact ⟨.missing, rfl⟩
  | stream => exact ⟨.stream _ _, rfl⟩

theorem after_empty (start : Nat) : (Log.empty : Log η).after start = [] := List.drop_nil

/-- `XREAD` reads from where it is told to. -/
theorem Holds.xread (h : Holds held log group) (count start : Nat) :
    Holds ((Op.xread count start).run held).1 log group ∧
      ((Op.xread count start).run held).2 = .entries ((log.after start).take count) := by
  cases h with
  | missing =>
    refine ⟨.missing, ?_⟩
    rw [after_empty, List.take_nil]
    rfl
  | stream => exact ⟨.stream _ _, rfl⟩

/-- `XTRIM` removes from the front. -/
theorem Holds.xtrim (h : Holds held log group) (upTo : Nat) :
    Holds ((Op.xtrim upTo).run held).1 (log.trim upTo) group ∧
      ((Op.xtrim upTo).run held).2 = .done := by
  cases h with
  | missing =>
    have hempty : (Log.empty : Log η).trim upTo = .empty := by
      refine Log.eq_of rfl ?_
      show max 0 (min upTo 0) = 0
      omega
    rw [hempty]
    exact ⟨.missing, rfl⟩
  | stream => exact ⟨.stream _ _, rfl⟩

/-- A group is created at the end of the stream, or was there before. -/
theorem Holds.groupCreate (h : Holds held log group) :
    Holds (Op.groupCreate.run held).1 log (group.or (some (.create log))) ∧
      (Op.groupCreate.run held).2 ≠ .wrongType := by
  cases h with
  | missing => exact ⟨.stream _ _, fun h => by cases h⟩
  | stream log group => cases group <;> exact ⟨.stream _ _, fun h => by cases h⟩

/-- Without a group there is nothing to read, and nothing happens. -/
theorem Holds.groupRead (h : Holds held log group) (count : Nat) :
    Holds ((Op.groupRead count).run held).1 log (group.map (·.deliver log count)) ∧
      ((Op.groupRead count).run held).2 =
        (group.map fun g => Reply.entries (g.undelivered log count)).getD .noGroup := by
  cases h with
  | missing => exact ⟨.missing, rfl⟩
  | stream log group => cases group <;> exact ⟨.stream _ _, rfl⟩

/-- `XREADGROUP .. 0` reads what is pending, if there is a group. -/
theorem Holds.groupPending (h : Holds held log group) (count : Nat) :
    Holds ((Op.groupPending count).run held).1 log group ∧
      ((Op.groupPending count).run held).2 =
        (group.map fun g => Reply.entries (g.redeliver count)).getD .noGroup := by
  cases h with
  | missing => exact ⟨.missing, rfl⟩
  | stream log group => cases group <;> exact ⟨.stream _ _, rfl⟩

/-- `XACK` takes out of what is pending. -/
theorem Holds.groupAck (h : Holds held log group) (ids : List Nat) :
    Holds ((Op.groupAck ids).run held).1 log (group.map (·.ack ids)) ∧
      ((Op.groupAck ids).run held).2 = .done := by
  cases h with
  | missing => exact ⟨.missing, rfl⟩
  | stream => exact ⟨.stream _ _, rfl⟩

end Streams

end Keyspace
