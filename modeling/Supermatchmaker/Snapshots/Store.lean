import Mathlib.Data.List.Basic
import Supermatchmaker.Lib.Directory
import Supermatchmaker.Lib.Lts

/-!
# The snapshot store

`snapshot.rs`: a snapshot is written to a temporary file, the file is renamed to
`snapshot-<unixmillis>.json`, and all but the newest `keep` files of that kind are
removed. `load_latest` takes the newest file that parses.

`writeSnapshot` is the function of the source. The store runs it one file operation
at a time (`Store.step`), so that the process can die between any two of them: while
the temporary file is being written it may hold any bytes at all, and `prune` may be
cut after any number of removals. What an uncut call leaves is the result of the
function (`uncut_writeSnapshot`).

The abstract store is a list of snapshots, the newest first (`Holds`): a rename puts
one in front, a removal takes one out, nothing else shows. Two facts carry the rest:
the new name sorts in front of every other (`fileName_lt`, which is where the equal
number of digits is needed), and `prune` never removes the first.

Mirroring notes:
- `now_ms` is part of the call, and `serde_json` a parameter, `Json`.
- A write or a rename that fails ends the call where it is, like a crash. `prune`
  skips a file it cannot remove and goes on with the next; here every removal that is
  reached succeeds.
- Names are compared as text: all files are in one directory.
-/

namespace Supermatchmaker.Snapshots

open Directory (Dir listed)

/-- `Snapshot`. -/
structure Snapshot where
  createdMs : UInt64
  lastStreamId : String
  players : List (Int64 × UInt32)
  deriving DecidableEq, Repr

/-- `serde_json` for snapshots: `to_vec` and `from_slice`. -/
structure Json where
  toVec : Snapshot → List UInt8
  fromSlice : List UInt8 → Option Snapshot

/-- What was encoded is decoded. -/
def Json.Decodes (J : Json) (snap : Snapshot) : Prop := J.fromSlice (J.toVec snap) = some snap

/-- The files of the directory, as bytes. -/
abbrev Files := Dir (List UInt8)

variable (J : Json)

/-! ## snapshot.rs -/

/-- `format!("snapshot-{}.json", snap.created_ms)`. -/
def fileName (createdMs : UInt64) : String := "snapshot-" ++ toString createdMs.toNat ++ ".json"

/-- `path.with_extension("json.tmp")`. -/
def tmpName (createdMs : UInt64) : String := fileName createdMs ++ ".tmp"

/-- `n.starts_with("snapshot-") && n.ends_with(".json")`. -/
def isSnapshot (n : String) : Bool :=
  "snapshot-".toList.isPrefixOf n.toList && ".json".toList.isSuffixOf n.toList

/-- `list_snapshots`: newest first. -/
def listSnapshots (dir : Files) : List String := listed isSnapshot dir

/-- Remove the files one after the other. -/
def removeAll (dir : Files) (names : List String) : Files :=
  names.foldl (fun dir old => dir.erase old) dir

/-- `prune`. -/
def prune (dir : Files) (keep : Nat) : Files := removeAll dir ((listSnapshots dir).drop keep)

/-- `write_snapshot`. -/
def writeSnapshot (dir : Files) (snap : Snapshot) (keep : Nat) : Files :=
  let tmp := tmpName snap.createdMs
  let path := fileName snap.createdMs
  prune (Directory.rename (dir.insert tmp (J.toVec snap)) tmp path) keep

/-- `load_latest`. -/
def loadLatest (dir : Files) : Option Snapshot :=
  (listSnapshots dir).findSome? fun path => (dir.lookup path).bind J.fromSlice

/-! ## One file operation at a time -/

/-- Where a call of `write_snapshot` stands. -/
inductive Pc
  | idle
  /-- in `fs::write` of the temporary file -/
  | writing (snap : Snapshot) (keep : Nat)
  /-- the temporary file is written, about to rename it -/
  | written (snap : Snapshot) (keep : Nat)
  /-- about to list the files -/
  | pruning (keep : Nat)
  /-- about to remove the files of `todo` -/
  | removing (todo : List String)

/-- The directory, and the call in progress. -/
structure Store where
  dir : Files
  pc : Pc
  /-- ghost: the snapshot of the last call whose rename completed -/
  last : Option Snapshot
  /-- ghost: the timestamps of the calls so far -/
  used : List UInt64

/-- A call, one of its file operations, or the death of the process. -/
inductive Event
  | call (snap : Snapshot) (keep : Nat)
  /-- the temporary file holds these bytes for now -/
  | torn (bytes : List UInt8)
  | run
  | crash

namespace Store

/-- No call yet. -/
def start (dir : Files) : Store := ⟨dir, .idle, none, []⟩

/-- One file operation. While the temporary file is written, it may hold any bytes. -/
def step (s : Store) : Event → Option Store
  | .call snap keep =>
    match s.pc with
    | .idle => some { s with pc := .writing snap keep, used := s.used ++ [snap.createdMs] }
    | _ => none
  | .torn bytes =>
    match s.pc with
    | .writing snap _ => some { s with dir := s.dir.insert (tmpName snap.createdMs) bytes }
    | _ => none
  | .run =>
    match s.pc with
    | .idle => none
    | .writing snap keep =>
      some { s with
        dir := s.dir.insert (tmpName snap.createdMs) (J.toVec snap)
        pc := .written snap keep }
    | .written snap keep =>
      some { s with
        dir := Directory.rename s.dir (tmpName snap.createdMs) (fileName snap.createdMs)
        pc := .pruning keep
        last := some snap }
    | .pruning keep => some { s with pc := .removing ((listSnapshots s.dir).drop keep) }
    | .removing (old :: todo) => some { s with dir := s.dir.erase old, pc := .removing todo }
    | .removing [] => some { s with pc := .idle }
  | .crash => some { s with pc := .idle }

/-- How many digits a timestamp has. -/
def digits (ms : UInt64) : Nat := (toString ms.toNat).length

/-- At least one file is kept, the timestamp is newer than those before and as long,
and the snapshot can be read back. -/
def Proper (s : Store) : Event → Prop
  | .call snap keep => 1 ≤ keep ∧ J.Decodes snap ∧
      ∀ ms ∈ s.used, ms < snap.createdMs ∧ digits ms = digits snap.createdMs
  | _ => True

/-- A step of a call that goes on. -/
def Uncut (s : Store) (e : Event) : Prop := s.pc ≠ .idle ∧ e ≠ .crash

/-- The directory that the call in progress leaves if it is not cut. -/
def outcome (s : Store) : Files :=
  match s.pc with
  | .idle => s.dir
  | .writing snap keep => writeSnapshot J s.dir snap keep
  | .written snap keep =>
    prune (Directory.rename s.dir (tmpName snap.createdMs) (fileName snap.createdMs)) keep
  | .pruning keep => prune s.dir keep
  | .removing todo => removeAll s.dir todo

end Store

/-! ## Names -/

theorem isSnapshot_fileName (ms : UInt64) : isSnapshot (fileName ms) = true := by
  unfold isSnapshot fileName
  rw [String.toList_append, String.toList_append, Bool.and_eq_true]
  refine ⟨List.isPrefixOf_iff_prefix.mpr ?_, List.isSuffixOf_iff_suffix.mpr ?_⟩
  · rw [List.append_assoc]
    exact List.prefix_append _ _
  · exact List.suffix_append _ _

theorem isSnapshot_tmpName (ms : UInt64) : isSnapshot (tmpName ms) ≠ true := by
  unfold isSnapshot tmpName
  rw [String.toList_append]
  intro h
  obtain ⟨-, hsuf⟩ := Bool.and_eq_true_iff.mp h
  have hjson := List.isSuffixOf_iff_suffix.mp hsuf
  have htmp : ".tmp".toList <:+ (fileName ms).toList ++ ".tmp".toList := List.suffix_append _ _
  have hboth := List.suffix_of_suffix_length_le htmp hjson (by decide)
  exact absurd hboth (by decide)

theorem fileName_lt {ms ms' : UInt64} (h : ms < ms')
    (hdigits : Store.digits ms = Store.digits ms') : fileName ms < fileName ms' := by
  have htoList : ∀ n : Nat, (toString n).toList = Nat.toDigits 10 n := fun n =>
    String.toList_ofList
  unfold Store.digits at hdigits
  rw [← String.length_toList, ← String.length_toList, htoList, htoList] at hdigits
  unfold fileName
  rw [String.lt_iff_toList_lt]
  simp only [String.toList_append, htoList, List.append_assoc]
  exact List.append_left_lt (Directory.append_lt_append hdigits
    (Directory.toDigits_lt (UInt64.lt_iff_toNat_lt.mp h) hdigits) _ _)

theorem tmpName_ne {ms : UInt64} {n : String} (hn : isSnapshot n = true) : n ≠ tmpName ms :=
  fun h => isSnapshot_tmpName ms (h ▸ hn)

/-! ## The uncut call -/

/-- An uncut step does not change what the call comes to. -/
theorem step_outcome {s t : Store} {e : Event} (hcut : s.Uncut e) (h : s.step J e = some t) :
    t.outcome J = s.outcome J := by
  obtain ⟨dir, pc, last, used⟩ := s
  cases e with
  | crash => exact absurd rfl hcut.2
  | call snap keep =>
    cases pc with
    | idle => exact absurd rfl hcut.1
    | _ => cases h
  | torn bytes =>
    cases pc with
    | writing snap keep =>
      cases h
      simp only [Store.outcome, writeSnapshot, Finmap.insert_insert]
    | _ => cases h
  | run =>
    cases pc with
    | idle => cases h
    | removing todo =>
      cases todo with
      | nil =>
        cases h
        rfl
      | cons old todo =>
        cases h
        rfl
    | _ =>
      cases h
      rfl

/-- **An uncut call** leaves what the function returns. -/
theorem uncut_writeSnapshot {s t u : Store} {snap : Snapshot} {keep : Nat}
    (hcall : s.step J (.call snap keep) = some t) (hrun : Lts.Run (Store.step J) Store.Uncut t u)
    (hend : u.pc = .idle) : u.dir = writeSnapshot J s.dir snap keep := by
  have houtcome : u.outcome J = t.outcome J := by
    refine hrun.inv (I := fun u => u.outcome J = t.outcome J) (fun hsame hcut hstep => ?_) rfl
    rw [step_outcome J hcut hstep, hsame]
  have hstart : t.outcome J = writeSnapshot J s.dir snap keep := by
    obtain ⟨dir, pc, last, used⟩ := s
    cases pc with
    | idle =>
      cases hcall
      rfl
    | _ => cases hcall
  unfold Store.outcome at houtcome
  rw [hend] at houtcome
  exact houtcome.trans hstart

theorem call_writing {s t : Store} {snap : Snapshot} {keep : Nat}
    (h : s.step J (.call snap keep) = some t) : t.pc = .writing snap keep := by
  obtain ⟨dir, pc, last, used⟩ := s
  cases pc with
  | idle =>
    cases h
    rfl
  | _ => cases h

theorem removing_ends (todo : List String) : ∀ {s : Store}, s.pc = .removing todo →
    ∃ u, Lts.Run (Store.step J) Store.Uncut s u ∧ u.pc = .idle := by
  induction todo with
  | nil =>
    intro s hpc
    refine ⟨{ s with pc := .idle }, .single (e := .run) ⟨hpc ▸ nofun, nofun⟩ ?_, rfl⟩
    simp only [Store.step, hpc]
  | cons old todo ih =>
    intro s hpc
    obtain ⟨u, hrun, hend⟩ := ih (s := { s with dir := s.dir.erase old, pc := .removing todo }) rfl
    have hstep : s.step J .run = some { s with dir := s.dir.erase old, pc := .removing todo } := by
      simp only [Store.step, hpc]
    have hone := Lts.Run.single (P := Store.Uncut) (e := .run) ⟨hpc ▸ nofun, nofun⟩ hstep
    exact ⟨u, hone.trans hrun, hend⟩

/-- A call that is not cut comes to its end. -/
theorem call_ends {s : Store} {snap : Snapshot} {keep : Nat} (hpc : s.pc = .writing snap keep) :
    ∃ u, Lts.Run (Store.step J) Store.Uncut s u ∧ u.pc = .idle := by
  obtain ⟨dir, pc, last, used⟩ := s
  cases hpc
  obtain ⟨u, hrun, hend⟩ := removing_ends J _ (s := ⟨_, .removing _, some snap, used⟩) rfl
  have hthree : Lts.Run (Store.step J) Store.Uncut ⟨dir, .writing snap keep, last, used⟩
      ⟨_, .removing _, some snap, used⟩ :=
    .tail (e := .run) (.tail (e := .run) (.single (e := .run) ⟨nofun, nofun⟩ rfl)
      ⟨nofun, nofun⟩ rfl) ⟨nofun, nofun⟩ rfl
  exact ⟨u, hthree.trans hrun, hend⟩

/-! ## The abstract store -/

/-- The directory holds these snapshots, the newest first, each in its own file. -/
structure Holds (dir : Files) (snaps : List Snapshot) : Prop where
  names : listSnapshots dir = snaps.map fun x => fileName x.createdMs
  content : ∀ x ∈ snaps, dir.lookup (fileName x.createdMs) = some (J.toVec x)
  decodes : ∀ x ∈ snaps, J.Decodes x

/-- The name of the snapshot sorts behind all others. -/
def Newer (snap : Snapshot) (snaps : List Snapshot) : Prop :=
  ∀ x ∈ snaps, fileName x.createdMs < fileName snap.createdMs

variable {J} {dir : Files} {snaps : List Snapshot} {snap : Snapshot}

theorem Holds.loadLatest (h : Holds J dir snaps) : loadLatest J dir = snaps.head? := by
  unfold Snapshots.loadLatest
  rw [h.names]
  cases snaps with
  | nil => rfl
  | cons x snaps =>
    rw [List.map_cons, List.findSome?_cons, h.content x List.mem_cons_self, Option.bind_some,
      h.decodes x List.mem_cons_self]
    rfl

/-- A temporary file does not show. -/
theorem Holds.insert_tmp (h : Holds J dir snaps) (ms : UInt64) (bytes : List UInt8) :
    Holds J (dir.insert (tmpName ms) bytes) snaps where
  names := (Directory.listed_insert_of_not (isSnapshot_tmpName ms) bytes).trans h.names
  content x hx := (Finmap.lookup_insert_of_ne dir (tmpName_ne (isSnapshot_fileName _))).trans
    (h.content x hx)
  decodes := h.decodes

/-- **Rename**: the temporary file becomes the newest snapshot. -/
theorem Holds.rename (h : Holds J dir snaps) (hnew : Newer snap snaps) (hdec : J.Decodes snap)
    (htmp : dir.lookup (tmpName snap.createdMs) = some (J.toVec snap)) :
    Holds J (Directory.rename dir (tmpName snap.createdMs) (fileName snap.createdMs))
      (snap :: snaps) := by
  have hmoved : Directory.rename dir (tmpName snap.createdMs) (fileName snap.createdMs) =
      (dir.erase (tmpName snap.createdMs)).insert (fileName snap.createdMs) (J.toVec snap) := by
    unfold Directory.rename
    rw [htmp]
  have hothers : listed isSnapshot (dir.erase (tmpName snap.createdMs)) =
      snaps.map fun x => fileName x.createdMs :=
    (Directory.listed_erase_of_not (isSnapshot_tmpName _)).trans h.names
  rw [hmoved]
  refine ⟨?_, fun x hx => ?_, fun x hx => ?_⟩
  · have hgreatest : ∀ m ∈ listed isSnapshot (dir.erase (tmpName snap.createdMs)),
        m < fileName snap.createdMs := by
      rw [hothers]
      intro m hm
      obtain ⟨x, hx, rfl⟩ := List.mem_map.mp hm
      exact hnew x hx
    rw [listSnapshots, Directory.listed_insert_greatest (isSnapshot_fileName _) hgreatest, hothers]
    rfl
  · rcases List.mem_cons.mp hx with rfl | hx
    · exact Finmap.lookup_insert _
    · rw [Finmap.lookup_insert_of_ne _ (hnew x hx).ne,
        Finmap.lookup_erase_ne (tmpName_ne (isSnapshot_fileName _))]
      exact h.content x hx
  · rcases List.mem_cons.mp hx with rfl | hx
    · exact hdec
    · exact h.decodes x hx

/-- **Removal**: one snapshot is missing. -/
theorem Holds.erase {before after : List Snapshot} (h : Holds J dir (before ++ snap :: after)) :
    Holds J (dir.erase (fileName snap.createdMs)) (before ++ after) := by
  have hnames := h.names
  rw [List.map_append, List.map_cons] at hnames
  have hnodup := Directory.listed_nodup isSnapshot dir
  rw [show listed isSnapshot dir = _ from hnames, List.nodup_middle] at hnodup
  have hmem : ∀ x ∈ before ++ after, x ∈ before ++ snap :: after := fun x hx =>
    (List.Sublist.append_left (List.sublist_cons_self snap after) before).subset hx
  refine ⟨?_, fun x hx => ?_, fun x hx => h.decodes x (hmem x hx)⟩
  · rw [List.map_append]
    exact Directory.listed_erase hnames
  · have hne : fileName x.createdMs ≠ fileName snap.createdMs := by
      intro heq
      refine (List.nodup_cons.mp hnodup).1 ?_
      rw [← heq, ← List.map_append]
      exact List.mem_map_of_mem hx
    rw [Finmap.lookup_erase_ne hne]
    exact h.content x (hmem x hx)

theorem Holds.removeAll (before after : List Snapshot) :
    ∀ {dir : Files}, Holds J dir (before ++ after) →
      Holds J (removeAll dir (after.map fun x => fileName x.createdMs)) before := by
  induction after with
  | nil =>
    intro dir h
    rwa [List.append_nil] at h
  | cons x after ih => exact fun h => ih h.erase

theorem Holds.prune (h : Holds J dir snaps) (keep : Nat) :
    Holds J (prune dir keep) (snaps.take keep) := by
  have htodo : (listSnapshots dir).drop keep =
      (snaps.drop keep).map fun x => fileName x.createdMs := by
    rw [h.names, List.map_drop]
  unfold Snapshots.prune
  rw [htodo]
  exact Holds.removeAll _ _ (by rwa [List.take_append_drop])

/-- **The function on the abstract store**: one more in front, and the oldest go. -/
theorem Holds.writeSnapshot (h : Holds J dir snaps) (hnew : Newer snap snaps)
    (hdec : J.Decodes snap) (keep : Nat) :
    Holds J (writeSnapshot J dir snap keep) ((snap :: snaps).take keep) :=
  ((h.insert_tmp snap.createdMs (J.toVec snap)).rename hnew hdec (Finmap.lookup_insert dir)).prune
    keep

/-! ## Any number of calls -/

/-- What the store is ready for, where it stands. -/
def Ready (J : Json) (s : Store) (snaps : List Snapshot) : Prop :=
  match s.pc with
  | .idle => True
  | .writing snap keep =>
    1 ≤ keep ∧ J.Decodes snap ∧ Newer snap snaps ∧ snap.createdMs ∈ s.used
  | .written snap keep =>
    1 ≤ keep ∧ J.Decodes snap ∧ Newer snap snaps ∧ snap.createdMs ∈ s.used ∧
      s.dir.lookup (tmpName snap.createdMs) = some (J.toVec snap)
  | .pruning keep => 1 ≤ keep ∧ snaps ≠ []
  -- the snapshots that are still to be removed are at the end
  | .removing todo => ∃ before after, snaps = before ++ after ∧ before ≠ [] ∧
      todo = after.map fun x => fileName x.createdMs

/-- The invariant: the store holds snapshots of earlier calls, and the newest is the
last one renamed. -/
structure Sound (J : Json) (s : Store) (snaps : List Snapshot) : Prop where
  holds : Holds J s.dir snaps
  newest : snaps.head? = s.last
  used : ∀ x ∈ snaps, x.createdMs ∈ s.used
  ready : Ready J s snaps

/-- **Step**: whatever happens to the store, it stays sound. -/
theorem step_sound {s t : Store} {e : Event} (h : Sound J s snaps) (hproper : s.Proper J e)
    (hstep : s.step J e = some t) : ∃ snaps', Sound J t snaps' := by
  obtain ⟨dir, pc, last, used⟩ := s
  obtain ⟨hholds, hnewest, hused, hready⟩ := h
  cases e with
  | crash =>
    cases hstep
    exact ⟨snaps, hholds, hnewest, hused, trivial⟩
  | call snap keep =>
    cases pc with
    | idle =>
      cases hstep
      obtain ⟨hkeep, hdec, hnew⟩ := hproper
      refine ⟨snaps, hholds, hnewest, fun x hx => List.mem_append_left _ (hused x hx), hkeep, hdec,
        fun x hx => ?_, List.mem_append_right _ List.mem_cons_self⟩
      obtain ⟨hlt, hdigits⟩ := hnew _ (hused x hx)
      exact fileName_lt hlt hdigits
    | _ => cases hstep
  | torn bytes =>
    cases pc with
    | writing snap keep =>
      cases hstep
      exact ⟨snaps, hholds.insert_tmp _ _, hnewest, hused, hready⟩
    | _ => cases hstep
  | run =>
    cases pc with
    | idle => cases hstep
    | writing snap keep =>
      cases hstep
      obtain ⟨hkeep, hdec, hnew, hmem⟩ := hready
      exact ⟨snaps, hholds.insert_tmp _ _, hnewest, hused, hkeep, hdec, hnew, hmem,
        Finmap.lookup_insert dir⟩
    | written snap keep =>
      cases hstep
      obtain ⟨hkeep, hdec, hnew, hmem, htmp⟩ := hready
      refine ⟨snap :: snaps, hholds.rename hnew hdec htmp, rfl, fun x hx => ?_, hkeep,
        List.cons_ne_nil _ _⟩
      rcases List.mem_cons.mp hx with rfl | hx
      · exact hmem
      · exact hused x hx
    | pruning keep =>
      cases hstep
      obtain ⟨hkeep, hne⟩ := hready
      refine ⟨snaps, hholds, hnewest, hused, snaps.take keep, snaps.drop keep,
        (List.take_append_drop ..).symm, fun hnil => ?_, ?_⟩
      · -- the newest is kept
        rcases List.take_eq_nil_iff.mp hnil with hzero | hnone
        · omega
        · exact hne hnone
      · rw [hholds.names, List.map_drop]
    | removing todo =>
      obtain ⟨before, after, rfl, hne, rfl⟩ := hready
      cases after with
      | nil =>
        cases hstep
        exact ⟨_, hholds, hnewest, hused, trivial⟩
      | cons x after =>
        cases hstep
        refine ⟨before ++ after, hholds.erase, ?_, fun y hy => ?_, before, after, rfl, hne, rfl⟩
        · rw [← hnewest, List.head?_append_of_ne_nil _ hne, List.head?_append_of_ne_nil _ hne]
        · have hsub := List.Sublist.append_left (List.sublist_cons_self x after) before
          exact hused y (hsub.subset hy)

/-- **Run**: the store is sound in every state it reaches. -/
theorem run_sound {d₀ : Files} (hempty : listSnapshots d₀ = []) {s : Store}
    (hrun : Lts.Run (Store.step J) (Store.Proper J) (Store.start d₀) s) :
    ∃ snaps, Sound J s snaps := by
  refine hrun.inv (I := fun s => ∃ snaps, Sound J s snaps)
    (fun ⟨_, hs⟩ hproper hstep => step_sound hs hproper hstep) ⟨[], ?_⟩
  exact ⟨⟨hempty, nofun, nofun⟩, rfl, nofun, trivial⟩

/-- A call that is made in a sound state and not cut: one more snapshot in front, and the
oldest go. -/
theorem Sound.uncut {s t u : Store} {snap : Snapshot} {keep : Nat} (h : Sound J s snaps)
    (hproper : s.Proper J (.call snap keep)) (hcall : s.step J (.call snap keep) = some t)
    (hrun : Lts.Run (Store.step J) Store.Uncut t u) (hend : u.pc = .idle) :
    Holds J u.dir ((snap :: snaps).take keep) := by
  obtain ⟨_, hdec, hnew⟩ := hproper
  rw [uncut_writeSnapshot J hcall hrun hend]
  refine h.holds.writeSnapshot (fun x hx => ?_) hdec keep
  obtain ⟨hlt, hdigits⟩ := hnew _ (h.used x hx)
  exact fileName_lt hlt hdigits

/-- **The crash-safe store**: wherever the calls are cut, the last snapshot that was
renamed is loaded; and a call that is not cut leaves the newest `keep` files. -/
theorem load_renamed {d₀ : Files} (hempty : listSnapshots d₀ = []) {s : Store}
    (hrun : Lts.Run (Store.step J) (Store.Proper J) (Store.start d₀) s) :
    loadLatest J s.dir = s.last ∧
    ∀ snap keep t u, s.Proper J (.call snap keep) → s.step J (.call snap keep) = some t →
      Lts.Run (Store.step J) Store.Uncut t u → u.pc = .idle →
      listSnapshots u.dir = (fileName snap.createdMs :: listSnapshots s.dir).take keep := by
  obtain ⟨snaps, hsound⟩ := run_sound hempty hrun
  refine ⟨hsound.holds.loadLatest.trans hsound.newest, ?_⟩
  intro snap keep t u hproper hcall huncut hend
  have hholds := hsound.uncut hproper hcall huncut hend
  rw [hholds.names, List.map_take, List.map_cons, hsound.holds.names]

/-! ## Three calls -/

/-- A snapshot of one player, and its JSON text. -/
def sampleSnapshot (createdMs : UInt64) : Snapshot := ⟨createdMs, "7-0", [(7, 1500)]⟩

/-- The text of a snapshot of one player. -/
def sampleText (snap : Snapshot) : String :=
  "\x7b\"created_ms\":" ++ toString snap.createdMs.toNat ++
    ",\"last_stream_id\":\"7-0\",\"players\":[[7,1500]]\x7d"

/-- JSON that can read three of them back. -/
def sampleJson : Json where
  toVec snap := sampleText snap |>.toList.flatMap String.utf8EncodeChar
  fromSlice bytes := ([1, 2, 3].map sampleSnapshot).find? fun snap =>
    bytes = (sampleText snap).toList.flatMap String.utf8EncodeChar

instance (s : Store) (e : Event) : Decidable (s.Proper sampleJson e) :=
  match e with
  | .call snap keep =>
    have : Decidable (∀ ms ∈ s.used,
        ms < snap.createdMs ∧ Store.digits ms = Store.digits snap.createdMs) :=
      List.decidableBAll _ s.used
    have : Decidable (sampleJson.Decodes snap) :=
      inferInstanceAs (Decidable (sampleJson.fromSlice _ = some snap))
    inferInstanceAs (Decidable (1 ≤ keep ∧ sampleJson.Decodes snap ∧ _))
  | .torn _ | .run | .crash => .isTrue trivial

/-- The first call is cut between rename and prune, the second in the temporary file, and
the third is not. -/
theorem load_renamed_sample : ∃ s u : Store,
    loadLatest sampleJson s.dir = some (sampleSnapshot 1) ∧
    listSnapshots u.dir =
      (fileName (sampleSnapshot 3).createdMs :: listSnapshots s.dir).take 1 := by
  have hexec : (Lts.exec (Store.step sampleJson) (fun s e => s.Proper sampleJson e)
      (Store.start ∅) [.call (sampleSnapshot 1) 2, .run, .run, .crash,
        .call (sampleSnapshot 2) 2, .torn [0x7b], .crash]).any
      (fun s => s.last = some (sampleSnapshot 1) ∧
        s.Proper sampleJson (.call (sampleSnapshot 3) 1) ∧
        (s.step sampleJson (.call (sampleSnapshot 3) 1)).isSome) = true := by decide +kernel
  obtain ⟨s, hrun, htest⟩ := Lts.exists_run_of_exec hexec
  obtain ⟨hlast, hproper, hsome⟩ := of_decide_eq_true htest
  obtain ⟨t, hcall⟩ := Option.isSome_iff_exists.mp hsome
  obtain ⟨u, huncut, hend⟩ := call_ends sampleJson (call_writing sampleJson hcall)
  obtain ⟨hload, hlisted⟩ := load_renamed (Directory.listed_empty _) (hrun.mono of_decide_eq_true)
  exact ⟨s, u, hload.trans hlast, hlisted _ _ t u hproper hcall huncut hend⟩

end Supermatchmaker.Snapshots
