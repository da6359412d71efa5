import Supermatchmaker.Ingest.Loop
import Supermatchmaker.Lib.Utf8
import Supermatchmaker.Matcher.Split

/-!
# Stream replies

`push_ingest` and `commit_match` append an entry with one field, `data`, that holds the
JSON text of an event; `parse_ingest_reply` and `parse_stream_reply` take the events out
of the nested arrays of an `XREAD` or `XREADGROUP` reply. The two decoders are the same
code for two types of event: one definition here, `parseReply`, with the source's names
for its two uses.

The decoders skip whatever does not have the expected shape. Which elements those are is
said in terms of the shape alone (`MalformedEntry`, `MalformedStream`), and a reply is
described element by element (`EntryReply`, `StreamReply`): each is one that was written,
perhaps with other fields beside `data`, or a malformed one. The decoders return exactly
what was written (`replies_decode`).

Mirroring notes:
- `serde_json` is a parameter, `Json`: what it writes for an event and what it reads.
- The scan over the fields goes in steps of two and keeps the last `data`; an element
  without a partner at the end is not looked at.
- A decoder returns its entries in a new list; `out` is the list so far.
-/

namespace Supermatchmaker.Redis

/-- `redis::Value`. The number of a `Double` is left out. -/
inductive Value
  | nil
  | int (n : Int64)
  | bulkString (bytes : List UInt8)
  | array (items : List Value)
  | simpleString (text : String)
  | okay
  | map (entries : List (Value × Value))
  | attribute (data : Value) (attributes : List (Value × Value))
  | set (items : List Value)
  | double
  | boolean (b : Bool)
  | verbatimString (text : String)
  | bigNumber (n : Int)
  | push (data : List Value)
  | serverError (text : String)

/-- `serde_json` for one type: `to_string` and `from_str`. -/
structure Json (α : Type) where
  toText : α → String
  fromText : String → Option α

/-- An entry as it is returned: `struct IngestEntry` and `struct SyncEntry`. -/
structure Entry (α : Type) where
  id : String
  content : α
  deriving DecidableEq, Repr

variable {α : Type} (J : Json α)

/-! ## queue.rs -/

/-- `b"data"`. -/
def dataKey : List UInt8 := [0x64, 0x61, 0x74, 0x61]

/-- The field that `push_ingest` and `commit_match` append: `data` and the JSON text. -/
def dataField (x : α) : Value × Value :=
  (.bulkString (Utf8.encode "data"), .bulkString (Utf8.encode (J.toText x)))

/-- The bytes of the pair if it is a `data` field. -/
def fieldData : Value → Value → Option (List UInt8)
  | .bulkString k, .bulkString v => if k = dataKey then some v else none
  | _, _ => none

/-- The loop over the fields. -/
def scanFields : (payload : Option String) → List Value → Option String
  | payload, k :: v :: fields =>
    match fieldData k v with
    | some bytes => scanFields (some (Utf8.lossy bytes)) fields
    | none => scanFields payload fields
  | payload, _ => payload

/-- The body of the loop over the entries of a stream. -/
def parseEntry (out : List (Entry α)) : Value → List (Entry α)
  | .array [.bulkString b, .array fields] =>
    match scanFields none fields with
    | some payload =>
      match J.fromText payload with
      | some x => out ++ [⟨Utf8.lossy b, x⟩]
      | none => out
    | none => out
  | _ => out

/-- The body of the loop over the streams. -/
def parseStream (out : List (Entry α)) : Value → List (Entry α)
  | .array [_, .array entries] => entries.foldl (parseEntry J) out
  | _ => out

/-- The entries of every stream of a reply, in order; anything but an array has none. -/
def parseReply : Option Value → List (Entry α)
  | some (.array streams) => streams.foldl (parseStream J) []
  | _ => []

/-- `parse_ingest_reply`. -/
def parseIngestReply (J : Json IngestEvent) : Option Value → List (Entry IngestEvent) :=
  parseReply J

/-- `parse_stream_reply`. -/
def parseStreamReply (J : Json MatchResult) : Option Value → List (Entry MatchResult) :=
  parseReply J

/-! ## What is in a reply -/

/-- The fields of an entry: pairs, and perhaps an element without a partner. -/
def fieldList (pairs : List (Value × Value)) (odd : Option Value) : List Value :=
  pairs.flatMap (fun p => [p.1, p.2]) ++ odd.toList

/-- None of the pairs is a `data` field. -/
def NoData (pairs : List (Value × Value)) : Prop := ∀ p ∈ pairs, fieldData p.1 p.2 = none

/-- Elements of a stream that hold no event. -/
inductive MalformedEntry : Value → Prop
  | notArray {v : Value} (h : ∀ items, v ≠ .array items) : MalformedEntry v
  | notPair {items : List Value} (h : items.length ≠ 2) : MalformedEntry (.array items)
  | noId {id fields : Value} (h : ∀ b, id ≠ .bulkString b) : MalformedEntry (.array [id, fields])
  | noFields {id fields : Value} (h : ∀ items, fields ≠ .array items) :
      MalformedEntry (.array [id, fields])
  | noData {id : Value} {pairs : List (Value × Value)} {odd : Option Value} (h : NoData pairs) :
      MalformedEntry (.array [id, .array (fieldList pairs odd)])
  | noEvent {id : Value} {before after : List (Value × Value)} {bytes : List UInt8}
      {odd : Option Value} (h : J.fromText (Utf8.lossy bytes) = none) (hafter : NoData after) :
      MalformedEntry (.array [id, .array (fieldList
        (before ++ (.bulkString dataKey, .bulkString bytes) :: after) odd)])

/-- An element of a stream, with the entry it was written for, if any. -/
inductive EntryReply : Value → List (Entry α) → Prop
  | written (id : String) (x : α) (before after : List (Value × Value)) (odd : Option Value)
      (hbefore : NoData before) (hafter : NoData after) :
      EntryReply (.array [.bulkString (Utf8.encode id),
        .array (fieldList (before ++ dataField J x :: after) odd)]) [⟨id, x⟩]
  | malformed {v : Value} (h : MalformedEntry J v) : EntryReply v []

/-- Elements of a reply that hold no entries. -/
inductive MalformedStream : Value → Prop
  | notArray {v : Value} (h : ∀ items, v ≠ .array items) : MalformedStream v
  | notPair {items : List Value} (h : items.length ≠ 2) : MalformedStream (.array items)
  | noEntries {name entries : Value} (h : ∀ items, entries ≠ .array items) :
      MalformedStream (.array [name, entries])

/-- An element of a reply, with the entries that were written to the stream. -/
inductive StreamReply : Value → List (Entry α) → Prop
  | entries (name : Value) {items : List Value} {written : List (List (Entry α))}
      (h : List.Forall₂ (EntryReply J) items written) :
      StreamReply (.array [name, .array items]) written.flatten
  | malformed {v : Value} (h : MalformedStream v) : StreamReply v []

/-- What was written for the event is read back as the event. -/
def Json.Decodes (x : α) : Prop := J.fromText (J.toText x) = some x

/-! ## The scan -/

theorem dataKey_eq : Utf8.encode "data" = dataKey := by decide

theorem fieldData_data (bytes : List UInt8) :
    fieldData (.bulkString dataKey) (.bulkString bytes) = some bytes := by
  rw [fieldData, if_pos rfl]

theorem fieldData_dataField (x : α) :
    fieldData (dataField J x).1 (dataField J x).2 = some (Utf8.encode (J.toText x)) := by
  unfold dataField
  rw [dataKey_eq]
  exact fieldData_data _

theorem fieldList_cons (p : Value × Value) (pairs : List (Value × Value)) (odd : Option Value) :
    fieldList (p :: pairs) odd = p.1 :: p.2 :: fieldList pairs odd := rfl

/-- **The scan**: each pair is looked at by itself, and the last `data` is kept. -/
theorem scanFields_fieldList (odd : Option Value) (pairs : List (Value × Value)) :
    ∀ payload, scanFields payload (fieldList pairs odd) =
      pairs.foldl (fun payload p => ((fieldData p.1 p.2).map Utf8.lossy).or payload) payload := by
  induction pairs with
  | nil =>
    intro payload
    cases odd <;> rfl
  | cons p pairs ih =>
    intro payload
    rw [fieldList_cons, scanFields, List.foldl_cons]
    cases fieldData p.1 p.2 with
    | none => exact ih payload
    | some bytes => exact ih (some (Utf8.lossy bytes))

/-- Fields that are no `data` are passed over. -/
theorem scanFields_noData {pairs : List (Value × Value)} (h : NoData pairs) (odd : Option Value)
    (payload : Option String) : scanFields payload (fieldList pairs odd) = payload := by
  rw [scanFields_fieldList]
  induction pairs with
  | nil => rfl
  | cons p pairs ih =>
    rw [List.foldl_cons, h p List.mem_cons_self]
    exact ih fun q hq => h q (List.mem_cons_of_mem _ hq)

/-- The last `data` field decides, whatever is in front of it. -/
theorem scanFields_data {p : Value × Value} {bytes : List UInt8}
    {before after : List (Value × Value)} (hp : fieldData p.1 p.2 = some bytes)
    (hafter : NoData after) (odd : Option Value) :
    scanFields none (fieldList (before ++ p :: after) odd) = some (Utf8.lossy bytes) := by
  have hrest := scanFields_noData hafter odd (some (Utf8.lossy bytes))
  rw [scanFields_fieldList] at hrest ⊢
  rw [List.foldl_append, List.foldl_cons, hp]
  exact hrest

/-! ## The loops -/

/-- An entry of the expected shape, decoded or dropped. -/
theorem parseEntry_array (b : List UInt8) (items : List Value) (out : List (Entry α)) :
    parseEntry J out (.array [.bulkString b, .array items]) =
      out ++ (((scanFields none items).bind J.fromText).map (⟨Utf8.lossy b, ·⟩)).toList := by
  rw [parseEntry]
  cases scanFields none items with
  | none => exact (List.append_nil out).symm
  | some payload =>
    dsimp only [Option.bind_some]
    cases J.fromText payload with
    | none => exact (List.append_nil out).symm
    | some x => rfl

/-- An entry of any other shape is dropped. -/
theorem parseEntry_malformed {v : Value} (h : MalformedEntry J v) (out : List (Entry α)) :
    parseEntry J out v = out := by
  -- the shape of an element that is looked at
  have hskip : (∀ b items, v ≠ .array [.bulkString b, .array items]) →
      parseEntry J out v = out := by
    intro hshape
    unfold parseEntry
    split
    next b items => exact absurd rfl (hshape b items)
    next => rfl
  have hlook : ∀ {id : Value} {items : List Value},
      (scanFields none items).bind J.fromText = none →
      parseEntry J out (.array [id, .array items]) = out := by
    intro id items hnone
    cases id with
    | bulkString b => rw [parseEntry_array, hnone, Option.map_none]; simp
    | _ => rfl
  cases h with
  | notArray h => exact hskip fun b items heq => h _ heq
  | notPair h =>
    refine hskip fun b items heq => h ?_
    rw [Value.array.inj heq]
    rfl
  | noId h =>
    refine hskip fun b items heq => h b ?_
    exact (List.cons.inj (Value.array.inj heq)).1
  | noFields h =>
    refine hskip fun b items heq => h items ?_
    exact (List.cons.inj (List.cons.inj (Value.array.inj heq)).2).1
  | noData h =>
    refine hlook ?_
    rw [scanFields_noData h]
    rfl
  | noEvent h hafter =>
    refine hlook ?_
    rw [scanFields_data (fieldData_data _) hafter]
    exact h

/-- **One element**: what was written is appended, anything malformed is skipped. -/
theorem parseEntry_reply {v : Value} {written : List (Entry α)} (h : EntryReply J v written)
    (hdec : ∀ e ∈ written, J.Decodes e.content) (out : List (Entry α)) :
    parseEntry J out v = out ++ written := by
  cases h with
  | written id x before after odd hbefore hafter =>
    rw [parseEntry_array, scanFields_data (fieldData_dataField J x) hafter,
      Utf8.lossy_encode, Utf8.lossy_encode, Option.bind_some,
      hdec ⟨id, x⟩ List.mem_cons_self]
    rfl
  | malformed h => rw [parseEntry_malformed J h, List.append_nil]

/-- A loop that appends what each element stands for. -/
theorem foldl_append {β γ : Type} {f : List γ → β → List γ} {R : β → List γ → Prop}
    {P : γ → Prop}
    (hf : ∀ {v written}, R v written → (∀ e ∈ written, P e) → ∀ out, f out v = out ++ written)
    {items : List β} {written : List (List γ)} (h : List.Forall₂ R items written) :
    (∀ e ∈ written.flatten, P e) → ∀ out, items.foldl f out = out ++ written.flatten := by
  induction h with
  | nil => exact fun _ out => (List.append_nil out).symm
  | cons hv _ ih =>
    intro hP out
    rw [List.flatten_cons] at hP ⊢
    rw [List.foldl_cons, hf hv fun e he => hP e (List.mem_append_left _ he),
      ih fun e he => hP e (List.mem_append_right _ he), List.append_assoc]

/-- A stream of a reply gives what was written to it. -/
theorem parseStream_reply {v : Value} {written : List (Entry α)} (h : StreamReply J v written)
    (hdec : ∀ e ∈ written, J.Decodes e.content) (out : List (Entry α)) :
    parseStream J out v = out ++ written := by
  cases h with
  | entries name h => exact foldl_append (fun h => parseEntry_reply J h) h hdec out
  | malformed h =>
    rw [List.append_nil]
    unfold parseStream
    cases h with
    | notArray h =>
      split
      next => exact absurd rfl (h _)
      next => rfl
    | notPair h =>
      split
      next heq =>
        rw [Value.array.inj heq] at h
        exact absurd rfl h
      next => rfl
    | noEntries h =>
      split
      next heq =>
        exact absurd (List.cons.inj (List.cons.inj (Value.array.inj heq)).2).1 (h _)
      next => rfl

/-- So does the whole reply. -/
theorem parseReply_reply {streams : List Value} {written : List (List (Entry α))}
    (h : List.Forall₂ (StreamReply J) streams written)
    (hdec : ∀ e ∈ written.flatten, J.Decodes e.content) :
    parseReply J (some (.array streams)) = written.flatten :=
  (foldl_append (fun h => parseStream_reply J h) h hdec []).trans (List.nil_append _)

/-- The reply to a read of a log: one stream, one element for each entry. -/
theorem parseReply_log (idText : Nat → String) (name : Value) {items : List Value}
    {es : List (Nat × Option α)}
    (h : List.Forall₂ (fun v e => EntryReply J v (e.2.map (⟨idText e.1, ·⟩)).toList) items es)
    (hdec : ∀ e ∈ Log.decoded es, J.Decodes e.2) :
    parseReply J (some (.array [.array [name, .array items]])) =
      (Log.decoded es).map fun e => ⟨idText e.1, e.2⟩ := by
  have hwritten : (es.map fun e => (e.2.map (⟨idText e.1, ·⟩ : α → Entry α)).toList).flatten =
      (Log.decoded es).map fun e => ⟨idText e.1, e.2⟩ := by
    clear h hdec
    induction es with
    | nil => rfl
    | cons e es ih =>
      obtain ⟨i, x⟩ := e
      rw [List.map_cons, List.flatten_cons, ih]
      cases x with
      | none => rfl
      | some x => rfl
  have hentries : List.Forall₂ (EntryReply J) items
      (es.map fun e => (e.2.map (⟨idText e.1, ·⟩)).toList) := List.forall₂_map_right_iff.mpr h
  have hstream : StreamReply J (.array [name, .array items]) _ := .entries name hentries
  have hparse := parseReply_reply J (.cons hstream .nil) fun e he => ?_
  · rw [hparse, List.flatten_cons, List.flatten_nil, List.append_nil, hwritten]
  · rw [List.flatten_cons, List.flatten_nil, List.append_nil, hwritten] at he
    obtain ⟨d, hd, rfl⟩ := List.mem_map.mp he
    exact hdec d hd

/-- What the ingestion thread gets from a read. -/
theorem parseIngestReply_readBatch (J : Json IngestEvent) (s : Ingest) (start : Nat)
    (idText : Nat → String) (name : Value) {items : List Value}
    (h : List.Forall₂ (fun v e => EntryReply J v (e.2.map (⟨idText e.1, ·⟩)).toList) items
      ((s.stream.after start).take 100))
    (hdec : ∀ e ∈ s.readBatch start, J.Decodes e.2) :
    parseIngestReply J (some (.array [.array [name, .array items]])) =
      (s.readBatch start).map fun e => ⟨idText e.1, e.2⟩ :=
  parseReply_log J idText name h hdec

/-- **The decoders**: they return the events that were written, with their ids and in
the order of the reply, whatever else is in it. -/
theorem replies_decode (ingest : Json IngestEvent) (sync : Json MatchResult) :
    (∀ {streams written}, List.Forall₂ (StreamReply ingest) streams written →
      (∀ e ∈ written.flatten, ingest.Decodes e.content) →
      parseIngestReply ingest (some (.array streams)) = written.flatten) ∧
    (∀ {streams written}, List.Forall₂ (StreamReply sync) streams written →
      (∀ e ∈ written.flatten, sync.Decodes e.content) →
      parseStreamReply sync (some (.array streams)) = written.flatten) :=
  ⟨parseReply_reply ingest, parseReply_reply sync⟩

/-! ## Two replies -/

/-- The JSON text of an event, and the one that is read back here. -/
def sampleIngest : Json IngestEvent where
  toText ev := "\x7b\"id\":" ++ toString ev.id.toInt ++ ",\"rating\":" ++
    toString ev.rating.toInt ++ "\x7d"
  fromText text := if text = "\x7b\"id\":7,\"rating\":1500\x7d" then some ⟨7, 1500⟩ else none

/-- `[[id,rating],...]` -/
def teamText (team : List (Int64 × Int32)) : String :=
  "[" ++ ",".intercalate (team.map fun p =>
    "[" ++ toString p.1.toInt ++ "," ++ toString p.2.toInt ++ "]") ++ "]"

/-- JSON for one match. -/
def sampleSync : Json MatchResult where
  toText m := "\x7b\"match_id\":" ++ toString m.matchId.toNat ++ ",\"team_a\":" ++
    teamText m.teamA ++ ",\"team_b\":" ++ teamText m.teamB ++ ",\"spread\":" ++
    toString m.spread.toNat ++ "\x7d"
  fromText text :=
    if text = "\x7b\"match_id\":1,\"team_a\":[[7,1500]],\"team_b\":[[8,1400]],\"spread\":20\x7d"
    then some ⟨1, [(7, 1500)], [(8, 1400)], 20⟩ else none

/-- An entry with another field and an element without a partner. -/
def sampleItem : Value :=
  .array [.bulkString (Utf8.encode "5-0"), .array (fieldList
    ([(.okay, .nil)] ++ dataField sampleIngest ⟨7, 1500⟩ :: []) (some .nil))]

/-- The entry of that match in a reply. -/
def sampleMatch : Value :=
  .array [.bulkString (Utf8.encode "6-0"), .array (fieldList
    ([] ++ dataField sampleSync ⟨1, [(7, 1500)], [(8, 1400)], 20⟩ :: []) none)]

/-- A malformed stream and a malformed entry in front of what was written. -/
theorem replies_decode_sample :
    parseIngestReply sampleIngest
        (some (.array [.nil, .array [.okay, .array [.int 3, sampleItem]]])) =
      [⟨"5-0", ⟨7, 1500⟩⟩] ∧
    parseStreamReply sampleSync (some (.array [.array [.okay, .array [sampleMatch]]])) =
      [⟨"6-0", ⟨1, [(7, 1500)], [(8, 1400)], 20⟩⟩] := by
  have hnone : NoData [] := fun _ hp => absurd hp List.not_mem_nil
  have hother : NoData [(Value.okay, Value.nil)] := by
    intro p hp
    rw [List.mem_singleton.mp hp]
    rfl
  have hitem : EntryReply sampleIngest sampleItem [⟨"5-0", ⟨7, 1500⟩⟩] :=
    EntryReply.written (J := sampleIngest) "5-0" ⟨7, 1500⟩ [(.okay, .nil)] [] (some .nil)
      hother hnone
  have hmatch : EntryReply sampleSync sampleMatch
      [⟨"6-0", ⟨1, [(7, 1500)], [(8, 1400)], 20⟩⟩] :=
    .written "6-0" _ _ _ _ hnone hnone
  have hbad : EntryReply sampleIngest (.int 3) [] := .malformed (.notArray fun _ h => by cases h)
  have hnil : StreamReply sampleIngest .nil [] := .malformed (.notArray fun _ h => by cases h)
  have hevents : StreamReply sampleIngest (.array [.okay, .array [.int 3, sampleItem]])
      [⟨"5-0", ⟨7, 1500⟩⟩] := .entries .okay (.cons hbad (.cons hitem .nil))
  have hmatches : StreamReply sampleSync (.array [.okay, .array [sampleMatch]])
      [⟨"6-0", ⟨1, [(7, 1500)], [(8, 1400)], 20⟩⟩] := .entries .okay (.cons hmatch .nil)
  have hdecode := replies_decode sampleIngest sampleSync
  refine ⟨hdecode.1 (.cons hnil (.cons hevents .nil)) fun e he => ?_,
    hdecode.2 (.cons hmatches .nil) fun e he => ?_⟩
  · obtain rfl := List.mem_singleton.mp he
    unfold Json.Decodes
    decide +kernel
  · obtain rfl := List.mem_singleton.mp he
    unfold Json.Decodes
    decide +kernel

end Supermatchmaker.Redis
