import Supermatchmaker.Lib.Keyspace
import Supermatchmaker.Lib.Spec
import Supermatchmaker.Matcher.Worker
import Supermatchmaker.Redis.Reply
import Supermatchmaker.Sync.Poller

/-!
# The four stores and the one Redis

The service is written as if it had four stores: the rating of each cached player, the
status of each user, and two streams. There is one Redis. `queue.rs` gives every store
keys of its own (`player_key`, `status_key`, two constants), writes JSON text, and reads
what it wrote out of replies whose errors it drops.

Two levels. `Stores.Step` is the service's view: an `Exchange` is one call of `queue.rs`
that Redis has executed, with what was read, and works on one of four separate stores.
`Serves` is what happens: a command at a key, and the reply decoded with the functions of
the source. `Backs` relates the two, and `serves_step` goes through the exchanges.

Mirroring notes:
- `serde_json` and the way Redis prints an id are a parameter, `Codec`.
- An id in a command is its position; in a reply it is text.
- A call that Redis has not executed is no exchange; one whose answer was lost is. Of
  a pipeline that failed, what Redis runs after the client has seen the failure is left
  out.
- A read that finds no entry is answered by nil. Redis answers `XREADGROUP .. 0` by an
  empty list of entries then, and the decoder makes nothing of either.
- `EX` only says when `expired` may happen.
-/

namespace Supermatchmaker.Redis

open Keyspace (Store Holds exec)

/-! ## Keys -/

/-- `player_key`. -/
def playerKey (userId : Int64) : String := "mm:player:" ++ toString userId

/-- `status_key`. -/
def statusKey (userId : Int64) : String := "mm:status:" ++ toString userId

/-- `INGEST_STREAM`. -/
def ingestStream : String := "mm:ingest:stream"

/-- `SYNC_STREAM`. -/
def syncStream : String := "match:sync:stream"

/-- Where the service keeps something. -/
inductive Address
  | player (userId : Int64)
  | status (userId : Int64)
  | ingest
  | sync
  deriving DecidableEq

/-- The key of the address. -/
def Address.key : Address → String
  | .player userId => playerKey userId
  | .status userId => statusKey userId
  | .ingest => ingestStream
  | .sync => syncStream

theorem toString_injective : Function.Injective (toString : Int64 → String) := by
  intro i j h
  have hrepr : Int.repr i.toInt = Int.repr j.toInt := h
  exact Int64.toInt_inj.mp (Int.repr_inj.mp hrepr)

/-- No two addresses share a key. -/
theorem key_injective : Function.Injective Address.key := by
  intro i j h
  have hchars := congrArg String.toList h
  cases i <;> cases j
  case player.player u v =>
    exact congrArg Address.player (toString_injective ((String.append_right_inj _).mp h))
  case status.status u v =>
    exact congrArg Address.status (toString_injective ((String.append_right_inj _).mp h))
  all_goals first
    | rfl
    | simp [Address.key, playerKey, statusKey, ingestStream, syncStream] at hchars

/-! ## Exchanges -/

/-- The fields of a stream entry. -/
abbrev Fields := List (Value × Value)

/-- `serde_json` at the types that are written, and the ids of Redis. -/
structure Codec where
  event : Json IngestEvent
  result : Json MatchResult
  /-- `{"id": .., "rating": ..}` -/
  playerText : Int64 → Int32 → String
  /-- `v.get("rating").and_then(|r| r.as_i64())` -/
  playerRating : String → Option Int64
  /-- the payload of a status key -/
  statusText : Status → String
  idText : Nat → String

/-- A call of `queue.rs` that Redis has executed, with what it has read. -/
inductive Exchange
  | cachedRating (userId : Int64) (rating : Option Int32)
  | cachePlayer (userId : Int64) (rating : Int32)
  | playerExpired (userId : Int64)
  /-- by `set_queued` or `commit_match` -/
  | setStatus (userId : Int64) (payload : Status)
  | statusExpired (userId : Int64)
  | pushIngest (ev : IngestEvent) (id : Nat)
  /-- a read from `"$"` comes in -/
  | newestIngest (id : Nat)
  | readIngestAfter (lastId : Nat) (batch : List (Nat × IngestEvent))
  | trimIngest (upTo : Nat)
  /-- by `commit_match` -/
  | addSync (m : MatchResult) (id : Nat)
  | ensureSyncGroup
  | readSyncBatch (batch : List SyncEntry)
  | readPending (batch : List SyncEntry)
  | ackSync (ids : List Nat)
  deriving DecidableEq

namespace Exchange

/-- The key an exchange is about. -/
def address : Exchange → Address
  | .cachedRating userId _ | .cachePlayer userId _ | .playerExpired userId => .player userId
  | .setStatus userId _ | .statusExpired userId => .status userId
  | .pushIngest .. | .newestIngest _ | .readIngestAfter .. | .trimIngest _ => .ingest
  | .addSync .. | .ensureSyncGroup | .readSyncBatch _ | .readPending _ | .ackSync _ => .sync

/-! ### Over four stores -/

end Exchange

/-- The stores as the service sees them. -/
structure Stores where
  player : Int64 → Option Int32
  status : Int64 → Option Status
  ingest : Log (Option IngestEvent)
  sync : Log (Option MatchResult)
  group : Option SyncGroup

namespace Exchange

/-- What the call has read is in the stores. -/
def Answered : Exchange → Stores → Prop
  | .cachedRating userId rating, s => rating = s.player userId
  | .pushIngest _ id, s => id = s.ingest.lastId + 1
  | .newestIngest id, s => id = s.ingest.lastId
  | .readIngestAfter lastId batch, s => batch = Log.decoded ((s.ingest.after lastId).take 100)
  | .addSync _ id, s => id = s.sync.lastId + 1
  | .readSyncBatch batch, s =>
    batch = Log.decoded ((s.group.map (·.undelivered s.sync 50)).getD [])
  | .readPending batch, s => batch = Log.decoded ((s.group.map (·.redeliver 500)).getD [])
  | _, _ => True

/-- The stores after the call. -/
def apply : Exchange → Stores → Stores
  | .cachePlayer userId rating, s =>
    { s with player := Function.update s.player userId (some rating) }
  | .playerExpired userId, s => { s with player := Function.update s.player userId none }
  | .setStatus userId payload, s =>
    { s with status := Function.update s.status userId (some payload) }
  | .statusExpired userId, s => { s with status := Function.update s.status userId none }
  | .pushIngest ev _, s => { s with ingest := s.ingest.append (some ev) }
  | .trimIngest upTo, s => { s with ingest := s.ingest.trim upTo }
  | .addSync m _, s => { s with sync := s.sync.append (some m) }
  | .ensureSyncGroup, s => { s with group := s.group.or (some (.create s.sync)) }
  | .readSyncBatch _, s => { s with group := s.group.map (·.deliver s.sync 50) }
  | .ackSync ids, s => { s with group := s.group.map (·.ack ids) }
  | _, s => s

end Exchange

/-- The exchange reads what the stores hold and leaves what it says. -/
def Stores.Step (s : Stores) (x : Exchange) (t : Stores) : Prop := x.Answered s ∧ x.apply s = t

/-! ### Over one Redis -/

section Wire

variable (C : Codec)

/-- The command. -/
def Exchange.op : Exchange → Keyspace.Op String Fields
  | .cachedRating .. => .get
  | .cachePlayer userId rating => .set (C.playerText userId rating)
  | .setStatus _ payload => .set (C.statusText payload)
  | .playerExpired _ | .statusExpired _ => .expire
  | .pushIngest ev _ => .xadd [dataField C.event ev]
  | .newestIngest _ => .newest
  | .readIngestAfter lastId _ => .xread 100 lastId
  | .trimIngest upTo => .xtrim upTo
  | .addSync m _ => .xadd [dataField C.result m]
  | .ensureSyncGroup => .groupCreate
  | .readSyncBatch _ => .groupRead 50
  | .readPending _ => .groupPending 500
  | .ackSync ids => .groupAck ids

/-- An entry in a reply. -/
def Codec.item (e : Nat × Fields) : Value :=
  .array [.bulkString (Utf8.encode (C.idText e.1)), .array (fieldList e.2 none)]

/-- `reply.ok()` of a read from the stream at the key. -/
def Codec.reply (key : String) : Keyspace.Reply String Fields → Option Value
  | .entries [] => some .nil
  | .entries es => some (.array [.array [.bulkString (Utf8.encode key), .array (es.map C.item)]])
  | _ => none

/-- `cached_rating`: an error, a missing key and a text without a rating are all a miss. -/
def Codec.cachedRating : Keyspace.Reply String Fields → Option Int32
  | .text raw => (raw.bind C.playerRating).map Int64.toInt32
  | _ => none

/-- The call makes of the reply what it is said to have read. -/
def Exchange.Hears : Exchange → Keyspace.Reply String Fields → Prop
  | .cachedRating _ rating, reply => rating = C.cachedRating reply
  | .pushIngest _ id, reply | .newestIngest id, reply | .addSync _ id, reply => reply = .id id
  | .readIngestAfter _ batch, reply =>
    parseIngestReply C.event (C.reply ingestStream reply) = batch.map fun e => ⟨C.idText e.1, e.2⟩
  | .readSyncBatch batch, reply | .readPending batch, reply =>
    parseStreamReply C.result (C.reply syncStream reply) = batch.map fun e => ⟨C.idText e.1, e.2⟩
  | _, _ => True

/-- The exchange with Redis: the key holds what the command is for, and the reply is what
was read. -/
def Serves (k : Store String String Fields) (x : Exchange) (k' : Store String String Fields) :
    Prop :=
  (exec k x.address.key (x.op C)).2 ≠ .wrongType ∧ x.Hears C (exec k x.address.key (x.op C)).2 ∧
    (exec k x.address.key (x.op C)).1 = k'

/-- What is written is read back as it was. -/
def Exchange.Decodes : Exchange → Prop
  | .cachePlayer userId rating =>
    C.playerRating (C.playerText userId rating) = some rating.toInt64
  | .pushIngest ev _ => C.event.Decodes ev
  | .addSync m _ => C.result.Decodes m
  | _ => True

instance (x : Exchange) : Decidable (x.Decodes C) :=
  match x with
  | .cachePlayer .. | .pushIngest .. | .addSync .. => inferInstanceAs (Decidable (_ = some _))
  | .cachedRating .. | .playerExpired _ | .setStatus .. | .statusExpired _ | .newestIngest _
  | .readIngestAfter .. | .trimIngest _ | .ensureSyncGroup | .readSyncBatch _ | .readPending _
  | .ackSync _ => .isTrue trivial

/-! ## What is on the wire -/

/-- An entry as its decoder reads it. -/
def readFields {α : Type} (J : Json α) (fields : Fields) : Option α :=
  (scanFields none (fieldList fields none)).bind J.fromText

/-- The fields of an entry hold its payload. -/
theorem readFields_dataField {α : Type} {J : Json α} {x : α} (h : J.Decodes x) :
    readFields J [dataField J x] = some x := by
  have hnone : NoData [] := fun _ hp => absurd hp List.not_mem_nil
  have hscan : scanFields none (fieldList ([] ++ dataField J x :: []) none) =
      some (Utf8.lossy (Utf8.encode (J.toText x))) :=
    scanFields_data (fieldData_dataField J x) hnone none
  unfold readFields
  rw [List.nil_append] at hscan
  rw [hscan, Utf8.lossy_encode]
  exact h

/-- The decoder returns the entries that can be read. -/
theorem parseReply_entries {α : Type} (J : Json α) (key : String) (es : List (Nat × Fields)) :
    parseReply J (C.reply key (.entries es)) =
      (Log.decoded (es.map fun e => (e.1, readFields J e.2))).map fun e => ⟨C.idText e.1, e.2⟩ := by
  have hloop : ∀ (es : List (Nat × Fields)) (out : List (Entry α)),
      (es.map C.item).foldl (parseEntry J) out = out ++
        (Log.decoded (es.map fun e => (e.1, readFields J e.2))).map
          fun e => ⟨C.idText e.1, e.2⟩ := by
    intro es
    induction es with
    | nil => exact fun out => (List.append_nil out).symm
    | cons e es ih =>
      intro out
      rw [List.map_cons, List.foldl_cons, Codec.item, parseEntry_array, ih, Utf8.lossy_encode,
        List.append_assoc]
      have hone : ∀ read : Option α,
          (read.map (⟨C.idText e.1, ·⟩ : α → Entry α)).toList ++
              (Log.decoded (es.map fun e => (e.1, readFields J e.2))).map
                (fun e => ⟨C.idText e.1, e.2⟩) =
            (Log.decoded ((e.1, read) :: es.map fun e => (e.1, readFields J e.2))).map
              fun e => ⟨C.idText e.1, e.2⟩ := by
        intro read
        cases read <;> rfl
      exact congrArg (out ++ ·) (hone (readFields J e.2))
  cases es with
  | nil => rfl
  | cons e es => exact hloop (e :: es) []

/-! ## One Redis for four stores -/

/-- The texts and the streams at the addresses are those of the stores. -/
structure Backs (s : Stores) (a : Store Address String Fields) : Prop where
  player : ∀ u, a (.player u) = (s.player u).map fun r => .text (C.playerText u r)
  legible : ∀ u r, s.player u = some r → C.playerRating (C.playerText u r) = some r.toInt64
  status : ∀ u, a (.status u) = (s.status u).map fun st => .text (C.statusText st)
  ingest : ∃ log, Holds (a .ingest) log none ∧ log.map (readFields C.event) = s.ingest
  sync : ∃ log group, Holds (a .sync) log group ∧ log.map (readFields C.result) = s.sync ∧
    group.map (Consumer.map (readFields C.result)) = s.group

/-- The same at the keys, and nothing anywhere else. -/
structure Backed (s : Stores) (k : Store String String Fields) : Prop where
  backs : Backs C s (k ∘ Address.key)
  others : ∀ key, key ∉ Set.range Address.key → k key = none

end Wire

section Stores

variable {C : Codec} {s t : Stores} {a : Store Address String Fields}

/-- A cached rating is written at its key, or expires. -/
theorem Backs.setPlayer (hB : Backs C s a) (u : Int64) {value : Option Int32}
    (hvalue : ∀ r, value = some r → C.playerRating (C.playerText u r) = some r.toInt64) :
    Backs C { s with player := Function.update s.player u value }
      (Function.update a (.player u) (value.map fun r => .text (C.playerText u r))) where
  player v := by
    dsimp only
    by_cases hv : v = u
    · subst hv
      rw [Function.update_self, Function.update_self]
    · rw [Function.update_of_ne (fun heq => hv (Address.player.inj heq)), Function.update_of_ne hv]
      exact hB.player v
  legible v r hr := by
    dsimp only at hr
    by_cases hv : v = u
    · subst hv
      rw [Function.update_self] at hr
      exact hvalue r hr
    · rw [Function.update_of_ne hv] at hr
      exact hB.legible v r hr
  status v := (Function.update_of_ne (fun heq => by cases heq) _ _).trans (hB.status v)
  ingest := by
    rw [Function.update_of_ne (fun heq => by cases heq)]
    exact hB.ingest
  sync := by
    rw [Function.update_of_ne (fun heq => by cases heq)]
    exact hB.sync

/-- A status is written at its key, or expires. -/
theorem Backs.setStatus (hB : Backs C s a) (u : Int64) (value : Option Status) :
    Backs C { s with status := Function.update s.status u value }
      (Function.update a (.status u) (value.map fun st => .text (C.statusText st))) where
  player v := (Function.update_of_ne (fun heq => by cases heq) _ _).trans (hB.player v)
  legible := hB.legible
  status v := by
    dsimp only
    by_cases hv : v = u
    · subst hv
      rw [Function.update_self, Function.update_self]
    · rw [Function.update_of_ne (fun heq => hv (Address.status.inj heq)), Function.update_of_ne hv]
      exact hB.status v
  ingest := by
    rw [Function.update_of_ne (fun heq => by cases heq)]
    exact hB.ingest
  sync := by
    rw [Function.update_of_ne (fun heq => by cases heq)]
    exact hB.sync

/-- The ingest stream, after a command at its key. -/
theorem Backs.setIngest (hB : Backs C s a) {held : Option (Keyspace.Value String Fields)}
    {log : Log Fields} (h : Holds held log none) :
    Backs C { s with ingest := log.map (readFields C.event) }
      (Function.update a .ingest held) where
  player v := (Function.update_of_ne (fun heq => by cases heq) _ _).trans (hB.player v)
  legible := hB.legible
  status v := (Function.update_of_ne (fun heq => by cases heq) _ _).trans (hB.status v)
  ingest := ⟨log, by rwa [Function.update_self], rfl⟩
  sync := by
    rw [Function.update_of_ne (fun heq => by cases heq)]
    exact hB.sync

/-- The sync stream and its group, after a command at their key. -/
theorem Backs.setSync (hB : Backs C s a) {held : Option (Keyspace.Value String Fields)}
    {log : Log Fields} {group : Option (Consumer Fields)} (h : Holds held log group) :
    Backs C { s with
      sync := log.map (readFields C.result)
      group := group.map (Consumer.map (readFields C.result)) }
      (Function.update a .sync held) where
  player v := (Function.update_of_ne (fun heq => by cases heq) _ _).trans (hB.player v)
  legible := hB.legible
  status v := (Function.update_of_ne (fun heq => by cases heq) _ _).trans (hB.status v)
  ingest := by
    rw [Function.update_of_ne (fun heq => by cases heq)]
    exact hB.ingest
  sync := ⟨log, group, by rwa [Function.update_self], rfl, rfl⟩

/-- A read from the pending entries or of new ones, with the group as the decoder sees it. -/
theorem parseReply_group {key : String} {group : Option (Consumer Fields)}
    {read : Consumer Fields → List (Nat × Fields)}
    {read' : SyncGroup → List (Nat × Option MatchResult)}
    (hread : ∀ g, read' (Consumer.map (readFields C.result) g) =
      (read g).map fun e => (e.1, readFields C.result e.2)) :
    parseReply C.result
        (C.reply key ((group.map fun g => Keyspace.Reply.entries (read g)).getD .noGroup)) =
      (Log.decoded (((group.map (Consumer.map (readFields C.result))).map read').getD [])).map
        fun e => ⟨C.idText e.1, e.2⟩ := by
  cases group with
  | none => rfl
  | some g =>
    simp only [Option.map_some, Option.getD_some]
    rw [parseReply_entries, hread]

/-- **Each exchange**: at its address the command is answered by what the call has read, and
leaves there what the call leaves in the stores. -/
theorem Backs.exchange {x : Exchange} (hB : Backs C s a) (hx : x.Decodes C) (h : s.Step x t) :
    (exec a x.address (x.op C)).2 ≠ .wrongType ∧
      x.Hears C (exec a x.address (x.op C)).2 ∧ Backs C t (exec a x.address (x.op C)).1 := by
  obtain ⟨hread, rfl⟩ := h
  obtain ⟨ingestLog, hingest, hingestMap⟩ := hB.ingest
  obtain ⟨syncLog, group, hsync, hsyncMap, hgroupMap⟩ := hB.sync
  cases x with
  | cachedRating u rating =>
    have hheld := hB.player u
    have hrating : rating = s.player u := hread
    have hget : Keyspace.Op.get.run (a (.player u)) =
        (a (.player u), .text ((s.player u).map (C.playerText u))) := by
      rw [hheld]
      cases s.player u <;> rfl
    show (Keyspace.Op.get.run (a (.player u))).2 ≠ .wrongType ∧
      rating = C.cachedRating (Keyspace.Op.get.run (a (.player u))).2 ∧
      Backs C s (Function.update a (.player u) (Keyspace.Op.get.run (a (.player u))).1)
    rw [hget, Function.update_eq_self]
    refine ⟨(fun h => by cases h), ?_, hB⟩
    rw [hrating]
    cases hu : s.player u with
    | none => rfl
    | some r =>
      show some r = (C.playerRating (C.playerText u r)).map Int64.toInt32
      rw [hB.legible u r hu, Option.map_some, Int32.toInt32_toInt64]
  | cachePlayer u rating =>
    refine ⟨(fun h => by cases h), trivial, hB.setPlayer u fun r hr => ?_⟩
    obtain rfl := Option.some.inj hr
    exact hx
  | playerExpired u =>
    exact ⟨(fun h => by cases h), trivial, hB.setPlayer u fun _ hr => by cases hr⟩
  | setStatus u payload => exact ⟨(fun h => by cases h), trivial, hB.setStatus u (some payload)⟩
  | statusExpired u => exact ⟨(fun h => by cases h), trivial, hB.setStatus u none⟩
  | pushIngest ev id =>
    obtain ⟨hheld, hreply⟩ := hingest.xadd [dataField C.event ev]
    have hid : id = s.ingest.lastId + 1 := hread
    have hev : readFields C.event [dataField C.event ev] = some ev := readFields_dataField hx
    have hafter := hB.setIngest hheld
    rw [Log.map_append, hingestMap, hev] at hafter
    rw [← hingestMap, Log.lastId_map] at hid
    exact ⟨hreply.trans_ne (fun h => by cases h), hreply.trans (hid ▸ rfl), hafter⟩
  | newestIngest id =>
    obtain ⟨hheld, hreply⟩ := hingest.newest
    have hid : id = s.ingest.lastId := hread
    have hafter := hB.setIngest hheld
    rw [hingestMap] at hafter
    rw [← hingestMap, Log.lastId_map] at hid
    exact ⟨hreply.trans_ne (fun h => by cases h), hreply.trans (hid ▸ rfl), hafter⟩
  | readIngestAfter lastId batch =>
    obtain ⟨hheld, hreply⟩ := hingest.xread 100 lastId
    have hbatch : batch = Log.decoded ((s.ingest.after lastId).take 100) := hread
    have hafter := hB.setIngest hheld
    rw [hingestMap] at hafter
    refine ⟨hreply.trans_ne (fun h => by cases h), ?_, hafter⟩
    show parseReply C.event
      (C.reply ingestStream ((Keyspace.Op.xread 100 lastId).run (a .ingest)).2) = _
    rw [hreply, parseReply_entries, List.map_take, ← Log.after_map, hingestMap, ← hbatch]
  | trimIngest upTo =>
    obtain ⟨hheld, hreply⟩ := hingest.xtrim upTo
    have hafter := hB.setIngest hheld
    rw [Log.map_trim, hingestMap] at hafter
    exact ⟨hreply.trans_ne (fun h => by cases h), trivial, hafter⟩
  | addSync m id =>
    obtain ⟨hheld, hreply⟩ := hsync.xadd [dataField C.result m]
    have hid : id = s.sync.lastId + 1 := hread
    have hm : readFields C.result [dataField C.result m] = some m := readFields_dataField hx
    have hafter := hB.setSync hheld
    rw [Log.map_append, hsyncMap, hgroupMap, hm] at hafter
    rw [← hsyncMap, Log.lastId_map] at hid
    exact ⟨hreply.trans_ne (fun h => by cases h), hreply.trans (hid ▸ rfl), hafter⟩
  | ensureSyncGroup =>
    obtain ⟨hheld, hreply⟩ := hsync.groupCreate
    have hafter := hB.setSync hheld
    have hcreated : (group.or (some (.create syncLog))).map (Consumer.map (readFields C.result)) =
        s.group.or (some (.create s.sync)) := by
      rw [← hgroupMap, ← hsyncMap]
      cases group with
      | none => exact congrArg some (Consumer.map_create syncLog _)
      | some g => rfl
    rw [hsyncMap, hcreated] at hafter
    exact ⟨hreply, trivial, hafter⟩
  | readSyncBatch batch =>
    obtain ⟨hheld, hreply⟩ := hsync.groupRead 50
    have hbatch : batch = Log.decoded ((s.group.map (·.undelivered s.sync 50)).getD []) := hread
    have hafter := hB.setSync hheld
    have hdelivered : (group.map (·.deliver syncLog 50)).map (Consumer.map (readFields C.result)) =
        s.group.map (·.deliver s.sync 50) := by
      rw [← hgroupMap, ← hsyncMap, Option.map_map, Option.map_map]
      exact Option.map_congr fun g _ => Consumer.map_deliver g syncLog _ 50
    rw [hsyncMap, hdelivered] at hafter
    refine ⟨hreply.trans_ne (by cases group <;> exact (fun h => by cases h)), ?_, hafter⟩
    show parseReply C.result
      (C.reply syncStream ((Keyspace.Op.groupRead 50).run (a .sync)).2) = _
    rw [hreply, hbatch, ← hgroupMap, ← hsyncMap]
    exact parseReply_group fun g => Consumer.undelivered_map g syncLog _ 50
  | readPending batch =>
    obtain ⟨hheld, hreply⟩ := hsync.groupPending 500
    have hbatch : batch = Log.decoded ((s.group.map (·.redeliver 500)).getD []) := hread
    have hafter := hB.setSync hheld
    rw [hsyncMap, hgroupMap] at hafter
    refine ⟨hreply.trans_ne (by cases group <;> exact (fun h => by cases h)), ?_, hafter⟩
    show parseReply C.result
      (C.reply syncStream ((Keyspace.Op.groupPending 500).run (a .sync)).2) = _
    rw [hreply, hbatch, ← hgroupMap]
    exact parseReply_group fun g => Consumer.redeliver_map g _ 500
  | ackSync ids =>
    obtain ⟨hheld, hreply⟩ := hsync.groupAck ids
    have hafter := hB.setSync hheld
    have hacked : (group.map (·.ack ids)).map (Consumer.map (readFields C.result)) =
        s.group.map (·.ack ids) := by
      rw [← hgroupMap, Option.map_map, Option.map_map]
      exact Option.map_congr fun g _ => Consumer.map_ack g _ ids
    rw [hsyncMap, hacked] at hafter
    exact ⟨hreply.trans_ne (fun h => by cases h), trivial, hafter⟩

/-- The same at the keys. -/
theorem serves_step {x : Exchange} {k : Store String String Fields} (hx : x.Decodes C)
    (h : s.Step x t) (hB : Backed C s k) : ∃ k', Serves C k x k' ∧ Backed C t k' := by
  obtain ⟨hreply, hstore⟩ := Keyspace.exec_pull key_injective k x.address (x.op C)
  obtain ⟨hright, hears, hbacks⟩ := hB.backs.exchange hx h
  rw [← hreply] at hright hears
  rw [← hstore] at hbacks
  refine ⟨_, ⟨hright, hears, rfl⟩, hbacks, fun key hkey => ?_⟩
  rw [Keyspace.exec_outside hkey]
  exact hB.others key hkey

end Stores

end Supermatchmaker.Redis
