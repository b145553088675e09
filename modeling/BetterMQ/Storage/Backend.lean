import BetterMQ.Storage.AppendFailure

/-!
# The two partition backends (`broker-storage/src/backend.rs`, `slate_log.rs`)

A broker keeps a partition in the local WAL or in SlateDB, behind one enum of methods. SlateDB is
taken as the durable ordered map it promises to be, so the SlateDB log is a map from keys to bytes
and the next offset.

* **`SlateLog.readLoop_ok`**, **`SlateLog.readLoop_error`** — the SlateDB log reads the account of
  what was done to it until it meets a purged offset, and fails there;
* **`Twin.step`** — two backends over one account answer an operation alike exactly when it is
  `Alike`, and then stay twins;
* **`backends_answer_alike_iff`** — so the answers to a whole sequence are the same if and only if
  every operation of it is;
* **`backends_differ_on_retry_and_gap`** — an exact retry, and a read over a purged offset, are not.
-/

namespace BetterMQ

open Function List Prog

/-! ## The SlateDB log -/

/-- SlateDB with its keys in use. -/
abbrev SlateDb := List Char → Option Bytes

def SlateDb.put (db : SlateDb) (key : List Char) (value : Bytes) : SlateDb :=
  Function.update db key (some value)

def SlateDb.delete (db : SlateDb) (key : List Char) : SlateDb := Function.update db key none

def frameKey (offset : Nat) : List Char := ['f', 'r', '/'] ++ padded 20 offset

def metaNextOffset : List Char := "meta/next_offset".toList

def metaLeaderGen : List Char := "meta/leader_generation".toList

/-- A `u64` stored under a metadata key. -/
def SlateDb.readU64 (db : SlateDb) (key : List Char) : Option Nat :=
  match db key with
  | some bytes => if 8 ≤ bytes.length then some (beNat (bytes.take 8)) else none
  | none => none

structure SlateLog where
  db : SlateDb
  nextOffset : Nat
  leaderGeneration : Nat

abbrev SlateM := Prog SlateLog LogError

variable {expected : Option Nat} {header : LogRecord} {item : Item} {want off : Nat}
  {frame rest payload : Bytes} {e : RecordError} {env : Env} {α : Type} {r : α}

namespace SlateLog

def readLeaderGeneration (db : SlateDb) : Nat := (db.readU64 metaLeaderGen).getD 0

/-- `recover_next_offset`: `meta/next_offset`, but no frame found beyond it is overwritten. -/
def recoverNextOffset (db : SlateDb) : Nat :=
  let next := (db.readU64 metaNextOffset).getD 0
  (List.range (satAdd64 next 4096)).foldl
    (fun next off => if (db (frameKey off)).isSome then max next (off + 1) else next) next

/-- `open`, on a database that already holds `db`. -/
def openDb (db : SlateDb) : SlateLog := ⟨db, recoverNextOffset db, readLeaderGeneration db⟩

/-- `require_fence`: the durable generation decides, not only the copy in memory. -/
def requireFence (generation : Nat) : SlateM Unit := do
  let log ← Prog.get
  let stored := readLeaderGeneration log.db
  Prog.modify fun log => { log with leaderGeneration := stored }
  Prog.check (stored ≤ generation) (.staleFence generation stored)

/-- The batch `append_frame` writes. -/
def frameBatch (log : SlateLog) (frame : Bytes) (stampGen : Option Nat) : SlateDb :=
  let db := (log.db.put (frameKey log.nextOffset) frame).put metaNextOffset
    (beBytes 8 (log.nextOffset + 1))
  match stampGen with
  | some gen => db.put metaLeaderGen (beBytes 8 gen)
  | none => db

def appendFrame (partition : UInt32) (header : LogRecord) (payload frame : Bytes)
    (fenceGeneration : Option Nat) : SlateM (StoredMessage × Bytes) := do
  let log ← Prog.get
  let stampGen := fenceGeneration.filter fun gen => log.leaderGeneration < gen
  match fenceGeneration with
  | some gen =>
    let stored := readLeaderGeneration log.db
    Prog.check (stored ≤ gen) (.staleFence gen stored)
  | none => pure ()
  Prog.modify fun log =>
    { log with
      db := log.frameBatch frame stampGen
      nextOffset := log.nextOffset + 1
      leaderGeneration := stampGen.getD log.leaderGeneration }
  pure (storedMessage header payload partition log.nextOffset, frame)

def appendFenced (env : Env) (partition : UInt32) (header : LogRecord) (payload : Bytes)
    (fenceGeneration : Option Nat) : SlateM (StoredMessage × Bytes) := do
  match fenceGeneration with
  | some gen => requireFence gen
  | none => pure ()
  let frame ← Prog.lift ((encodeFrame env.codec header payload).mapError .record)
  appendFrame partition header payload frame fenceGeneration

/-- `append_raw_frame`: the offset is checked before the frame is decoded, and a retry is not
looked for. -/
def appendRawFrame (env : Env) (partition : UInt32) (frame : Bytes)
    (expectedOffset : Option Nat) : SlateM StoredMessage := do
  let log ← Prog.get
  match expectedOffset with
  | some want => Prog.check (log.nextOffset = want) (.offsetMismatch log.nextOffset want)
  | none => pure ()
  let (header, payload) ← Prog.lift ((decodeFrame env.codec frame).1.mapError .record)
  let (stored, _) ← appendFrame partition header payload frame none
  pure stored

/-- The loop of `read_range`, with the offset it is at. -/
def readLoop (env : Env) (log : SlateLog) (partition : UInt32) :
    Nat → Nat → List StoredMessage → Except LogError (List StoredMessage)
  | 0, _, out => .ok out
  | n + 1, off, out =>
    if log.nextOffset ≤ off then .ok out
    else
      match log.db (frameKey off) with
      | none => .error (.offsetNotFound off)
      | some frame => do
        let (header, payload) ← (decodeFrame env.codec frame).1.mapError .record
        readLoop env log partition n (off + 1) (out ++ [storedMessage header payload partition off])

def readRange (env : Env) (log : SlateLog) (partition : UInt32) (offset maxMessages : Nat) :
    Except LogError (List StoredMessage) :=
  log.readLoop env partition maxMessages offset []

/-- `purge_offset`; the delete of a durable map succeeds, whether the key is there or not. -/
def purgeOffset (offset : Nat) : SlateM Bool := do
  let log ← Prog.get
  if log.nextOffset ≤ offset then pure false
  else do
    Prog.modify fun log => { log with db := log.db.delete (frameKey offset) }
    pure true

section Steps

variable {env : Env} {log : SlateLog}

theorem purgeOffset_eq (offset : Nat) (log : SlateLog) :
    purgeOffset offset log =
      if log.nextOffset ≤ offset then (.ok false, log)
      else (.ok true, { log with db := log.db.delete (frameKey offset) }) := by
  show (if log.nextOffset ≤ offset then _ else _ : SlateM Bool) log = _
  split <;> rfl

/-- What an append without a fence leaves. -/
def stored (log : SlateLog) (frame : Bytes) : SlateLog :=
  ⟨log.frameBatch frame none, log.nextOffset + 1, log.leaderGeneration⟩

theorem appendFenced_eq (env : Env) (partition : UInt32) (log : SlateLog) :
    appendFenced env partition header payload none log
      = match encodeFrame env.codec header payload with
        | .error e => (.error (.record e), log)
        | .ok frame => (.ok (storedMessage header payload partition log.nextOffset, frame),
          log.stored frame) := by
  show (Prog.lift ((encodeFrame env.codec header payload).mapError .record) >>= fun frame =>
    appendFrame partition header payload frame none) log = _
  cases encodeFrame env.codec header payload <;> rfl

theorem appendRawFrame_other (hwant : want ∈ expected) (hother : want ≠ log.nextOffset) (env : Env)
    (partition : UInt32) (frame : Bytes) :
    appendRawFrame env partition frame expected log
      = (.error (.offsetMismatch log.nextOffset want), log) := by
  obtain rfl := Option.mem_def.mp hwant
  show (Prog.check (log.nextOffset = want) _ >>= fun _ => _ : SlateM StoredMessage) log = _
  exact bind_error (check_neg (Ne.symm hother))

theorem appendRawFrame_next (hnext : ∀ want ∈ expected, want = log.nextOffset) (env : Env)
    (partition : UInt32) (frame : Bytes) :
    appendRawFrame env partition frame expected log
      = match (decodeFrame env.codec frame).1 with
        | .error e => (.error (.record e), log)
        | .ok item =>
          (.ok (storedMessage item.1 item.2 partition log.nextOffset), log.stored frame) := by
  cases expected with
  | none =>
    show (Prog.lift ((decodeFrame env.codec frame).1.mapError LogError.record) >>= _) log = _
    cases (decodeFrame env.codec frame).1 <;> rfl
  | some want =>
    refine (bind_ok (check_pos (hnext want rfl).symm)).trans ?_
    cases (decodeFrame env.codec frame).1 <;> rfl

end Steps

end SlateLog

/-! ## The backend -/

inductive PartitionBackend where
  | local (s : Sys)
  | slate (log : SlateLog)

/-- The operations compared. An `append` carries no fence. -/
inductive BackendOp where
  | append (partition : UInt32) (header : LogRecord) (payload : Bytes)
  | appendRawFrame (partition : UInt32) (frame : Bytes) (expectedOffset : Option Nat)
  | purgeOffset (offset : Nat)
  | readRange (partition : UInt32) (offset max : Nat)

/-- What an operation returns. -/
inductive BackendAnswer where
  | appended (result : Except LogError (StoredMessage × Bytes))
  | stored (result : Except LogError StoredMessage)
  | purged (result : Bool)
  | messages (result : Except LogError (List StoredMessage))
  deriving DecidableEq

namespace PartitionBackend

def openLocalForShard (env : Env) (config : PartitionLogConfig) (shardId : UInt32)
    (walFormat : UInt16) (now : Nat) : Except LogError PartitionBackend :=
  match openForShard env config shardId walFormat now ⟨.fresh, []⟩ with
  | (.ok log, st) => .ok (.local (st.disk.sys log))
  | (.error e, _) => .error e

/-- `open_slate` on an empty object store. -/
def openSlate : PartitionBackend := .slate (.openDb fun _ => none)

/-- One call, with what it returns. -/
def call (env : Env) : PartitionBackend → BackendOp → BackendAnswer × PartitionBackend
  | .local s, .append partition header payload =>
    let (r, s) := BetterMQ.append env partition header payload s
    (.appended r, .local s)
  | .local s, .appendRawFrame partition frame expected =>
    let (r, s) := BetterMQ.appendRawFrame env partition frame expected s
    (.stored r, .local s)
  | .local s, .purgeOffset offset =>
    let (r, s) := BetterMQ.purgeOffset offset s
    (.purged (r.toOption.getD false), .local s)
  | .local s, .readRange partition offset max =>
    (.messages (BetterMQ.readRange env s.disk s.log partition offset max), .local s)
  | .slate log, .append partition header payload =>
    let (r, log) := SlateLog.appendFenced env partition header payload none log
    (.appended r, .slate log)
  | .slate log, .appendRawFrame partition frame expected =>
    let (r, log) := SlateLog.appendRawFrame env partition frame expected log
    (.stored r, .slate log)
  | .slate log, .purgeOffset offset =>
    let (r, log) := SlateLog.purgeOffset offset log
    (.purged (r.toOption.getD false), .slate log)
  | .slate log, .readRange partition offset max =>
    (.messages (log.readRange env partition offset max), .slate log)

/-- The answers to a sequence of calls. -/
def answers (env : Env) : PartitionBackend → List BackendOp → List BackendAnswer
  | _, [] => []
  | b, op :: ops => (b.call env op).1 :: (b.call env op).2.answers env ops

end PartitionBackend

/-! ## What both answer alike -/

/-- Its frame fits a commit epoch, which only the V2 format asks for. -/
def FitsEpoch (env : Env) (fmt : WalFormat) (item : Item) : Prop :=
  fmt = .v2 → (frameBytes env.codec item).length ≤ maxEpochBodyBytes

/-- A record with the id is stored, and not purged, at the offset. -/
def Account.Holds (a : Account) (offset : Nat) (id : Uuid) : Prop :=
  offset ∉ a.purged ∧ ∃ item ∈ a.items[offset]?, item.1.id = id

/-- A raw frame the two backends treat alike, by what it decodes to. For an offset that is not the
next one it decodes and is no retry of the record there; else its record fits an epoch of the V2
format, which encodes it anew. -/
def FrameAlike (env : Env) (fmt : WalFormat) (a : Account) (expected : Option Nat) :
    Except RecordError Item → Prop
  | .error _ => ∀ want ∈ expected, want = a.items.length
  | .ok item =>
    if ∀ want ∈ expected, want = a.items.length then
      (fmt = .v2 → Encodes env.codec item = true) ∧ FitsEpoch env fmt item
    else ∀ want ∈ expected, ¬ a.Holds want item.1.id

/-- The call is one the two backends answer alike, over the account of the calls before it: an
appended record fits an epoch of the V2 format, a raw frame is treated alike, no offset is purged
twice, and no read covers a purged offset. -/
def BackendOp.Alike (env : Env) (fmt : WalFormat) (a : Account) : BackendOp → Prop
  | .append _ header payload =>
    Encodes env.codec (header, payload) = true → FitsEpoch env fmt (header, payload)
  | .appendRawFrame _ frame expected =>
    FrameAlike env fmt a expected (decodeFrame env.codec frame).1
  | .purgeOffset offset => offset ∉ a.purged
  | .readRange _ start max => ∀ o ∈ a.purged, o < start ∨ start + max ≤ o

theorem BackendOp.alike_raw {fmt : WalFormat} {a : Account} {r : Except RecordError Item}
    (hdecode : decodeFrame env.codec frame = (r, rest)) (partition : UInt32)
    (expected : Option Nat) : (appendRawFrame partition frame expected).Alike env fmt a ↔
      FrameAlike env fmt a expected r := by
  rw [Alike, hdecode]

/-- What such a call does to the account. -/
def Account.after (env : Env) (a : Account) : BackendOp → Account
  | .append _ header payload =>
    if Encodes env.codec (header, payload) = true then a.record [(header, payload)] else a
  | .appendRawFrame _ frame expected =>
    if ∀ want ∈ expected, want = a.items.length then a.record (rawItems env frame) else a
  | .purgeOffset offset => a.apply env (.purge offset)
  | .readRange .. => a

/-- Every call of the sequence is one the backends answer alike. -/
def AllAlike (env : Env) (fmt : WalFormat) : Account → List BackendOp → Prop
  | _, [] => True
  | a, op :: ops => op.Alike env fmt a ∧ AllAlike env fmt (a.after env op) ops

/-! ## The SlateDB log over an account -/

theorem frameKey_injective : Function.Injective frameKey :=
  fun _ _ h => padded_injective 20 (append_cancel_left h)

theorem frameKey_ne_meta (offset : Nat) :
    frameKey offset ≠ metaNextOffset ∧ frameKey offset ≠ metaLeaderGen := by
  have hhead : (frameKey offset).head? = some 'f' := rfl
  constructor <;> intro h <;> rw [h] at hhead <;> exact absurd hhead (by decide +kernel)

/-- The SlateDB log holds a frame for each record of the account that is not purged, and none for
those that are. -/
structure SlateLog.Ok (c : Codec) (a : Account) (log : SlateLog) : Prop where
  nextOffset : log.nextOffset = a.items.length
  held : ∀ o item, a.items[o]? = some item → o ∉ a.purged →
    ∃ frame, log.db (frameKey o) = some frame ∧ (decodeFrame c frame).1 = .ok item
  gone : ∀ o ∈ a.purged, log.db (frameKey o) = none
  below : ∀ o ∈ a.purged, o < a.items.length

section Slate

variable {env : Env} {a : Account} {log : SlateLog}

namespace SlateLog

theorem recoverNextOffset_empty : recoverNextOffset (fun _ => none) = 0 := by
  have hscan : ∀ offs : List Nat, offs.foldl (fun next off =>
      if ((fun _ => none : SlateDb) (frameKey off)).isSome then max next (off + 1) else next) 0
        = 0 := by
    intro offs
    induction offs with
    | nil => rfl
    | cons off offs ih => exact ih
  exact hscan (List.range _)

theorem openDb_empty (c : Codec) : (openDb fun _ => none).Ok c .empty := by
  unfold openDb
  rw [recoverNextOffset_empty]
  exact ⟨rfl, fun o item h => (by cases h), fun o h => (by cases h), fun o h => (by cases h)⟩

section

variable (h : log.Ok env.codec a)

include h

/-- **A read that meets no purged offset reads the account.** -/
theorem Ok.readLoop_ok (partition : UInt32) (n : Nat) (out : List StoredMessage)
    (hgap : ∀ o ∈ a.purged, o < off ∨ off + n ≤ o) :
    log.readLoop env partition n off out = .ok (out ++ a.read partition off n) := by
  induction n generalizing off out with
  | zero => simp [readLoop, Account.read]
  | succ n ih =>
    rw [readLoop]
    split
    · next hend =>
      rw [Account.read_end (h.nextOffset ▸ hend), append_nil]
    · next hend =>
      have hlt : off < a.items.length := h.nextOffset ▸ Nat.not_le.mp hend
      have hkept : off ∉ a.purged := by
        intro hmem
        have := hgap off hmem
        omega
      obtain ⟨frame, hframe, hdecode⟩ := h.held off _ (getElem?_eq_getElem hlt) hkept
      rw [hframe]
      dsimp only
      rw [hdecode, Account.read_next (getElem?_eq_getElem hlt) hkept]
      refine (ih _ fun o ho => ?_).trans (by rw [append_assoc]; rfl)
      have := hgap o ho
      have hne : o ≠ off := fun heq => hkept (heq ▸ ho)
      omega

/-- **A read that covers a purged offset fails.** -/
theorem Ok.readLoop_error (partition : UInt32) (n : Nat) {o : Nat} (out : List StoredMessage)
    (ho : o ∈ a.purged) (hge : off ≤ o) (hlt : o < off + n) :
    ∃ e, log.readLoop env partition n off out = .error e := by
  induction n generalizing off out with
  | zero => omega
  | succ n ih =>
    have hin := h.below o ho
    rw [readLoop, if_neg (by rw [h.nextOffset]; omega)]
    by_cases hmem : off ∈ a.purged
    · rw [h.gone off hmem]
      exact ⟨_, rfl⟩
    · have hoff : off < a.items.length := by omega
      obtain ⟨frame, hframe, hdecode⟩ := h.held off _ (getElem?_eq_getElem hoff) hmem
      rw [hframe]
      dsimp only
      rw [hdecode]
      have hne : o ≠ off := fun heq => hmem (heq ▸ ho)
      exact ih _ (by omega) (by omega)

theorem Ok.put (hdecode : (decodeFrame env.codec frame).1 = .ok item) :
    (log.stored frame).Ok env.codec (a.record [item]) := by
  have hdb : ∀ o, log.frameBatch frame none (frameKey o)
      = if o = a.items.length then some frame else log.db (frameKey o) := by
    intro o
    unfold frameBatch SlateDb.put
    dsimp only
    rw [update_of_ne (frameKey_ne_meta o).1, h.nextOffset, update_apply]
    simp only [frameKey_injective.eq_iff]
  have hlength : (a.record [item]).items.length = a.items.length + 1 := by
    simp [Account.record]
  refine ⟨?_, fun o item' hget hkept => ?_, fun o ho => ?_, fun o ho => ?_⟩
  · rw [hlength, ← h.nextOffset]
    rfl
  · rw [show (log.stored frame).db = log.frameBatch frame none from rfl, hdb]
    split
    · next heq =>
      rw [heq, Account.record, getElem?_concat_length] at hget
      cases hget
      exact ⟨frame, rfl, hdecode⟩
    · next hne =>
      refine h.held o item' ?_ hkept
      obtain ⟨hlt, -⟩ := List.getElem?_eq_some_iff.mp hget
      rwa [Account.record, getElem?_append_left (by omega)] at hget
  · rw [show (log.stored frame).db = log.frameBatch frame none from rfl, hdb,
      if_neg (Nat.ne_of_lt (h.below o ho))]
    exact h.gone o ho
  · have := h.below o ho
    omega

theorem Ok.delete {offset : Nat} (hlt : offset < a.items.length) :
    ({ log with db := log.db.delete (frameKey offset) } : SlateLog).Ok env.codec
      { a with purged := offset :: a.purged } := by
  have hdb : ∀ o, log.db.delete (frameKey offset) (frameKey o)
      = if o = offset then none else log.db (frameKey o) := by
    intro o
    rw [SlateDb.delete, update_apply]
    simp only [frameKey_injective.eq_iff]
  refine ⟨h.nextOffset, fun o item hget hkept => ?_, fun o ho => ?_, fun o ho => ?_⟩
  · rw [mem_cons, not_or] at hkept
    dsimp only
    rw [hdb, if_neg hkept.1]
    exact h.held o item hget hkept.2
  · dsimp only
    rw [hdb]
    split
    · rfl
    · next hne => exact h.gone o ((mem_cons.mp ho).resolve_left hne)
  · rcases mem_cons.mp ho with rfl | hold
    · exact hlt
    · exact h.below o hold

end

end SlateLog

end Slate

/-! ## The local log over an account -/

section Local

variable {env : Env} {fmt : WalFormat} {shard : UInt32} {a : Account} {L : Layout env.codec}
  {s : Sys} {item : Item}

theorem Encodes.frameOk {c : Codec} (h : Encodes c item = true) : FrameOk c item := by
  obtain ⟨frame, hframe⟩ := encodeFrame_of_encodes h
  exact ((encodeFrame_eq_ok_iff c item frame).mp hframe).1

/-- The record encodes and, in the V2 format, fits an epoch. -/
theorem not_unencodable {manifest : WalManifest} {done : List Item} {e : LogError}
    (hok : FrameOk env.codec item)
    (hfits : isV2 manifest = true → (frameBytes env.codec item).length ≤ maxEpochBodyBytes) :
    ¬ Unencodable env manifest [item] done e := by
  rintro (⟨item', rest, cause, hsplit, herror, -⟩ | ⟨-, hv2, hlarge, -⟩)
  · have hmem : item' ∈ [item] := by
      rw [hsplit]
      exact mem_append_right _ (.head _)
    rw [mem_singleton.mp hmem, (encodeFrame_eq_ok_iff env.codec item _).mpr ⟨hok, rfl⟩] at herror
    cases herror
  · rw [flatMap_singleton] at hlarge
    exact absurd (hfits hv2) (Nat.not_le.mpr hlarge)

/-- A record that does not encode, or in the V2 format does not fit an epoch, is refused. -/
theorem append_refused (partition : UInt32) (s : Sys) (h : ¬ (FrameOk env.codec item ∧
      (isV2 s.manifest = true → (frameBytes env.codec item).length ≤ maxEpochBodyBytes))) :
    ∃ e s', append env partition item.1 item.2 s = (.error e, s') ∧
      ∀ cause, encodeFrame env.codec item.1 item.2 = .error cause → e = .record cause ∧ s' = s := by
  cases appendFenced_run env partition item.1 item.2 none s with
  | stale hgen => cases hgen
  | @failed gen dirty done e haccepted he hrun =>
    refine ⟨_, _, hrun, fun cause hcause => ?_⟩
    rcases he with ⟨item', rest, cause', hsplit, herror, rfl⟩ | ⟨hoks, -⟩
    · obtain ⟨rfl, rfl⟩ : done = [] ∧ item' = item := by
        cases done with
        | nil => exact ⟨rfl, (List.cons.inj hsplit).1.symm⟩
        | cons _ done => simp at hsplit
      cases hcause.symm.trans herror
      obtain ⟨hgen, hdirty⟩ := haccepted.dirty.resolve_right fun hsome => hsome.1 rfl
      exact ⟨rfl, by rw [hgen, hdirty]; rfl⟩
    · rw [(encodeFrame_eq_ok_iff env.codec item _).mpr ⟨hoks item (by simp), rfl⟩] at hcause
      cases hcause
  | written _ hout =>
    refine absurd ⟨hout.1.ok item (by simp), fun hv2 => ?_⟩ h
    have hbytes := hout.1.bytes
    rw [if_pos hv2, flatMap_singleton] at hbytes
    exact hbytes.1

theorem checkExpected_next (partition : UInt32) (header : LogRecord)
    (h : ∀ want ∈ expected, want = s.nextOffset) :
    checkExpected env partition header expected s = (.ok none, s) := by
  cases expected with
  | none => rfl
  | some want =>
    rw [h want rfl]
    unfold checkExpected
    dsimp only
    rw [if_neg (Nat.lt_irrefl _), if_neg (Nat.lt_irrefl _)]

section

variable (h : Steady fmt shard a L s)

include h

/-- A retry finds the record it would append. -/
theorem Steady.checkExpected_retry (hholds : a.Holds want header.id) (partition : UInt32) :
    ∃ stored, checkExpected env partition header (some want) s = (.ok (some stored), s) := by
  obtain ⟨hkept, item, hget, hid⟩ := hholds
  obtain ⟨hlt, -⟩ := List.getElem?_eq_some_iff.mp hget
  unfold checkExpected
  dsimp only
  rw [if_pos (by rw [h.nextOffset]; exact hlt), h.readRange, Account.read_next hget hkept]
  dsimp only
  rw [if_pos ⟨rfl, hid⟩]
  exact ⟨_, rfl⟩

theorem Steady.checkExpected_other (hother : want ≠ a.items.length)
    (hholds : ¬ a.Holds want header.id) (partition : UInt32) :
    checkExpected env partition header (some want) s
      = (.error (.offsetMismatch a.items.length want), s) := by
  unfold checkExpected
  dsimp only
  rw [h.nextOffset]
  by_cases hlt : want < a.items.length
  · rw [if_pos hlt, h.readRange]
    by_cases hkept : want ∈ a.purged
    · cases hread : a.read partition want 1 with
      | nil => rfl
      | cons m ms =>
        -- what is read there instead lies behind the purged offset
        have hm := (Account.mem_read (hread ▸ mem_cons_self)).2
        dsimp only
        rw [if_neg fun hsame : m.offset = want ∧ m.id = header.id => hm (hsame.1 ▸ hkept)]
    · rw [Account.read_next (getElem?_eq_getElem hlt) hkept]
      refine if_neg fun hsame => hholds ⟨hkept, _, getElem?_eq_getElem hlt, ?_⟩
      exact hsame.2
  · rw [if_neg hlt, if_pos (by omega)]

omit h in
theorem appendRawFrame_decoded (hdecode : decodeFrame env.codec frame = (.ok item, rest))
    (partition : UInt32) (s : Sys) :
    appendRawFrame env partition frame expected s = (do
      let existing ← checkExpected env partition item.1 expected
      match existing with
      | some stored => pure stored
      | none => appendReceived env partition item frame : LogM StoredMessage) s := by
  unfold appendRawFrame
  rw [hdecode]
  rfl

theorem Steady.appendReceived_ok (henv : env.InPlace) (hbound : a.items.length + 1 < 2 ^ 64)
    (hsync : s.failNextSync = false) (hdecode : decodeFrame env.codec frame = (.ok item, rest))
    (hexact : fmt = .v1 → rest = []) (hencode : fmt = .v2 → Encodes env.codec item = true)
    (hfits : FitsEpoch env fmt item) (partition : UInt32) :
    GoesThrough (appendReceived env partition item frame) s
      (storedMessage item.1 item.2 partition a.items.length) := by
  have hlength : L.frames.length = a.items.length := by rw [← L.length_items, h.items]
  obtain ⟨_, s', rfl, hrun, hsync'⟩ := (appendReceived_step henv h.live partition hdecode
    hexact (hlength ▸ hbound)).succeeds hsync nofun fun done e hfails => by
      obtain rfl : fmt = .v2 := by simpa [h.live.isV2_eq] using hfails.1
      exact not_unencodable (Encodes.frameOk (hencode rfl)) (fun _ => hfits rfl) hfails.2
  exact ⟨s', hlength ▸ hrun, hsync'⟩

end

/-- In the V2 format the record is encoded anew, and refused if it does not encode or fit. -/
theorem Steady.appendReceived_error (h : Steady .v2 shard a L s)
    (hrefused : ¬ (Encodes env.codec item = true ∧ FitsEpoch env .v2 item)) (partition : UInt32)
    (frame : Bytes) : ∃ e s', appendReceived env partition item frame s = (.error e, s') := by
  cases appendReceived_run env partition item frame s with
  | stale hgen => cases hgen
  | failed _ _ hrun => exact ⟨_, _, hrun⟩
  | written _ hout =>
    obtain ⟨hbatch, -⟩ := hout
    rw [h.live.isV2_eq] at hbatch
    have hbytes := hbatch.bytes
    rw [h.live.isV2_eq, flatMap_singleton] at hbytes
    exact absurd ⟨(hbatch.ok item (by simp)).encodes, fun _ => hbytes.1⟩ hrefused

end Local

/-! ## Twins -/

/-- A local and a SlateDB log over the same account. -/
structure Twin (env : Env) (fmt : WalFormat) (shard : UInt32) (a : Account) (s : Sys)
    (log : SlateLog) : Prop where
  steady : ∃ L : Layout env.codec, Steady fmt shard a L s
  sync : s.failNextSync = false
  slate : log.Ok env.codec a

/-- The answers agree and leave twins if the call is `Alike`, and differ if it is not. -/
def Comparable (env : Env) (fmt : WalFormat) (shard : UInt32) (a : Account) (s : Sys)
    (log : SlateLog) (op : BackendOp) : Prop :=
  let atLocal := (PartitionBackend.local s).call env op
  let atSlate := (PartitionBackend.slate log).call env op
  (op.Alike env fmt a → atLocal.1 = atSlate.1 ∧ ∃ s' log', atLocal.2 = .local s' ∧
    atSlate.2 = .slate log' ∧ Twin env fmt shard (a.after env op) s' log') ∧
  (¬ op.Alike env fmt a → atLocal.1 ≠ atSlate.1)

section Twin

variable {env : Env} {fmt : WalFormat} {shard : UInt32} {a : Account} {s s' : Sys}
  {log log' : SlateLog} {op : BackendOp} {answer : BackendAnswer}

theorem local_answer (answer : α → BackendAnswer) {p : α × Sys} (h : p = (r, s')) :
    (answer p.1, PartitionBackend.local p.2) = (answer r, .local s') := by
  rw [h]

theorem slate_answer (answer : α → BackendAnswer) {p : α × SlateLog} (h : p = (r, log')) :
    (answer p.1, PartitionBackend.slate p.2) = (answer r, .slate log') := by
  rw [h]

theorem Comparable.agree (halike : op.Alike env fmt a)
    (hlocal : (PartitionBackend.local s).call env op = (answer, .local s'))
    (hslate : (PartitionBackend.slate log).call env op = (answer, .slate log'))
    (htwin : Twin env fmt shard (a.after env op) s' log') :
    Comparable env fmt shard a s log op := by
  unfold Comparable
  rw [hlocal, hslate]
  exact ⟨fun _ => ⟨rfl, s', log', rfl, rfl, htwin⟩, fun hnot => absurd halike hnot⟩

theorem Comparable.differ {answer' : BackendAnswer} {b b' : PartitionBackend}
    (hnot : ¬ op.Alike env fmt a) (hlocal : (PartitionBackend.local s).call env op = (answer, b))
    (hslate : (PartitionBackend.slate log).call env op = (answer', b')) (hne : answer ≠ answer') :
    Comparable env fmt shard a s log op := by
  unfold Comparable
  rw [hlocal, hslate]
  exact ⟨fun halike => absurd halike hnot, fun _ => hne⟩

section

variable (h : Twin env fmt shard a s log)

include h

theorem Twin.readRange (partition : UInt32) (start max : Nat) :
    Comparable env fmt shard a s log (.readRange partition start max) := by
  obtain ⟨L, hsteady⟩ := h.steady
  have hlocal := hsteady.readRange partition start max
  by_cases hgap : ∀ o ∈ a.purged, o < start ∨ start + max ≤ o
  · have hslate := h.slate.readLoop_ok partition max [] hgap
    exact .agree hgap rfl (congrArg (BackendAnswer.messages · , _) (hslate.trans hlocal.symm)) h
  · obtain ⟨o, ho, hge, hlt⟩ : ∃ o ∈ a.purged, start ≤ o ∧ o < start + max := by
      by_contra hnone
      refine hgap fun o ho => ?_
      by_contra hcovered
      exact hnone ⟨o, ho, by omega⟩
    obtain ⟨e, herror⟩ := h.slate.readLoop_error partition max [] ho hge hlt
    refine .differ hgap rfl rfl fun hsame => ?_
    have hresult := BackendAnswer.messages.inj hsame
    rw [hlocal, SlateLog.readRange, herror] at hresult
    cases hresult

omit h in
theorem purgeOffset_unfaulted (hsync : s.failNextSync = false) (offset : Nat) :
    (purgeOffset offset s).2.failNextSync = false := by
  rw [purgeOffset_eq]
  split
  · exact hsync
  · split
    · dsimp only
      split
      · obtain ⟨s', hrun, hsync'⟩ := flushDurable_ok
          (show (s.withLog fun log => log.tombstone offset).failNextSync = false from hsync)
        rw [hrun]
        exact hsync'
      · exact hsync
    · exact hsync

theorem Twin.purgeOffset (offset : Nat) :
    Comparable env fmt shard a s log (.purgeOffset offset) := by
  obtain ⟨L, hsteady⟩ := h.steady
  have hpurged := hsteady.purged offset
  have hslate := SlateLog.purgeOffset_eq offset log
  have hlocal := purgeOffset_eq offset s
  let ofPurge (r : Except LogError Bool) := BackendAnswer.purged (r.toOption.getD false)
  rw [hsteady.nextOffset] at hlocal
  by_cases hend : a.items.length ≤ offset
  · -- past the end both refuse
    have hnew : offset ∉ a.purged := fun hmem => absurd (h.slate.below offset hmem) (by omega)
    rw [if_pos (h.slate.nextOffset ▸ hend)] at hslate
    rw [if_pos (.inr hend)] at hlocal
    refine .agree hnew (local_answer ofPurge hlocal) (slate_answer ofPurge hslate) ?_
    rw [Account.after, Account.apply, if_neg (by omega)]
    exact h
  · have hlt := Nat.not_le.mp hend
    rw [if_neg (h.slate.nextOffset ▸ hend)] at hslate
    by_cases hold : offset ∈ a.purged
    · -- purged before: the local log says so, SlateDB deletes again
      rw [if_pos (.inl (hpurged.mpr hold))] at hlocal
      exact .differ (fun hnew => hnew hold) (local_answer ofPurge hlocal)
        (slate_answer ofPurge hslate) fun hsame => by cases hsame
    · have hnew : offset ∉ s.purgedOffsets := fun hmem => hold (hpurged.mp hmem)
      have hholds := hsteady.holds (hsteady.nextOffset.symm ▸ hlt) hnew
      obtain ⟨L', hsteady'⟩ := hsteady.purge offset
      have hsync' := purgeOffset_unfaulted h.sync offset
      rw [if_neg (not_or.mpr ⟨hnew, hend⟩), if_pos hholds] at hlocal
      rw [hlocal, Account.apply, if_pos hlt] at hsteady'
      rw [hlocal] at hsync'
      refine .agree hold (local_answer ofPurge hlocal) (slate_answer ofPurge hslate) ?_
      rw [Account.after, Account.apply, if_pos hlt]
      exact ⟨⟨L', hsteady'⟩, hsync', h.slate.delete hlt⟩

/-- What appending one more record takes of the configuration and the account. -/
structure Capacity (env : Env) (a : Account) : Prop where
  inPlace : env.InPlace
  payload : env.codec.maxFramePayloadBytes < 2 ^ 32
  bound : a.items.length + 1 < 2 ^ 64

theorem Twin.append (hcap : Capacity env a) (partition : UInt32) (header : LogRecord)
    (payload : Bytes) : Comparable env fmt shard a s log (.append partition header payload) := by
  obtain ⟨L, hsteady⟩ := h.steady
  have hlength : L.frames.length = a.items.length := by rw [← L.length_items, hsteady.items]
  have hslate := @SlateLog.appendFenced_eq header payload env partition log
  cases hencode : Encodes env.codec (header, payload) with
  | false =>
    obtain ⟨e, herror⟩ := encodeFrame_of_not_encodes hencode
    have hnot : ¬ FrameOk env.codec (header, payload) := fun hok =>
      nomatch hencode.symm.trans hok.encodes
    obtain ⟨_, _, hlocal, hcause⟩ := append_refused partition s fun hboth => hnot hboth.1
    obtain ⟨rfl, rfl⟩ := hcause e herror
    rw [herror] at hslate
    refine .agree (fun henc => absurd (hencode.symm.trans henc) Bool.false_ne_true)
      (local_answer .appended hlocal) (slate_answer .appended hslate) ?_
    rw [Account.after, if_neg (by rw [hencode]; exact Bool.false_ne_true)]
    exact h
  | true =>
    have hok := Encodes.frameOk hencode
    have hframe := (encodeFrame_eq_ok_iff env.codec (header, payload) _).mpr ⟨hok, rfl⟩
    rw [hframe] at hslate
    have hsmall : payload.length < 2 ^ 32 := by
      obtain ⟨_, -, -, hle⟩ := hok
      exact lt_of_le_of_lt hle hcap.payload
    by_cases hfits : FitsEpoch env fmt (header, payload)
    · obtain ⟨_, s', rfl, hlocal, hsync'⟩ := (appendFenced_step hcap.inPlace hsteady.live partition header payload none (fun _ => hsmall)
        (hlength ▸ hcap.bound)).succeeds h.sync nofun fun _ _ => not_unencodable hok fun hv2 =>
          hfits (by simpa [hsteady.live.isV2_eq] using hv2)
      obtain ⟨L', hsteady'⟩ := hsteady.call hcap.inPlace (.append partition header payload none)
        ⟨hsteady.nextOffset.symm ▸ hcap.bound, fun _ => hsmall⟩ (congrArg (·.1.toBool) hlocal)
      rw [show (LogOp.append partition header payload none).run env s = s' from
        congrArg Prod.snd hlocal] at hsteady'
      rw [hlength, ← h.slate.nextOffset] at hlocal
      refine .agree (fun _ => hfits) (local_answer .appended hlocal)
        (slate_answer .appended hslate) ?_
      rw [Account.after, if_pos hencode]
      refine ⟨⟨L', hsteady'⟩, hsync', h.slate.put ?_⟩
      have hexact := (decodeFrame_exact hcap.inPlace.lawful hok hsmall).ok []
      rw [append_nil] at hexact
      exact congrArg Prod.fst hexact
    · obtain ⟨rfl, hlarge⟩ := Classical.not_imp.mp hfits
      have hv2 : isV2 s.manifest = true := hsteady.live.isV2_eq.trans (decide_eq_true rfl)
      obtain ⟨e, s', hlocal, -⟩ := append_refused partition s fun hboth => hlarge (hboth.2 hv2)
      refine .differ (fun halike => hfits (halike hencode))
        (local_answer .appended hlocal) (slate_answer .appended hslate) ?_
      intro hsame
      cases hsame

end

variable {frame rest : Bytes}

theorem rawItems_eq {r : Except RecordError Item}
    (hdecode : decodeFrame env.codec frame = (r, rest)) :
    rawItems env frame = r.toOption.toList := by
  rw [rawItems, hdecode]
  cases r <;> rfl

section

variable (h : Twin env fmt shard a s log)

include h

theorem Twin.appendRawFrame_next (hcap : Capacity env a) (partition : UInt32)
    (hdecode : decodeFrame env.codec frame = (.ok item, rest)) (hexact : fmt = .v1 → rest = [])
    (hnext : ∀ want ∈ expected, want = a.items.length) :
    Comparable env fmt shard a s log (.appendRawFrame partition frame expected) := by
  obtain ⟨L, hsteady⟩ := h.steady
  have halike : (BackendOp.appendRawFrame partition frame expected).Alike env fmt a ↔
      (fmt = .v2 → Encodes env.codec item = true) ∧ FitsEpoch env fmt item :=
    (BackendOp.alike_raw hdecode partition expected).trans (by rw [FrameAlike, if_pos hnext])
  have hslate := SlateLog.appendRawFrame_next (h.slate.nextOffset.symm ▸ hnext) env partition frame
  rw [hdecode] at hslate
  have hcheck : checkExpected env partition item.1 expected s = (.ok none, s) :=
    checkExpected_next partition item.1 (hsteady.nextOffset.symm ▸ hnext)
  have hrun : appendRawFrame env partition frame expected s
      = appendReceived env partition item frame s :=
    (appendRawFrame_decoded hdecode partition s).trans (bind_ok hcheck)
  by_cases hwrites : (fmt = .v2 → Encodes env.codec item = true) ∧ FitsEpoch env fmt item
  · obtain ⟨s', hreceived, hsync'⟩ := hsteady.appendReceived_ok hcap.inPlace hcap.bound
      h.sync hdecode hexact hwrites.1 hwrites.2 partition
    have hlocal := hrun.trans hreceived
    have hv1 : isV2 s.manifest = false → (decodeFrame env.codec frame).2 = [] := by
      intro hformat
      rw [hsteady.live.isV2_eq, decide_eq_false_iff_not] at hformat
      rw [hdecode]
      cases fmt with
      | v1 => exact hexact rfl
      | v2 => exact absurd rfl hformat
    obtain ⟨L', hsteady'⟩ := hsteady.call hcap.inPlace
      (.appendRaw partition frame expected) ⟨hsteady.nextOffset.symm ▸ hcap.bound, hv1⟩
      (congrArg (·.1.toBool) hlocal)
    have happly : a.apply env (.appendRaw partition frame expected) = a.record [item] := by
      rw [show [item] = rawItems env frame from (rawItems_eq hdecode).symm]
      cases expected with
      | none => rfl
      | some want => rw [Account.apply, hnext want rfl, if_neg (Nat.lt_irrefl _)]
    rw [happly, show (LogOp.appendRaw partition frame expected).run env s = s' from
      congrArg Prod.snd hlocal] at hsteady'
    rw [← h.slate.nextOffset] at hlocal
    refine .agree (halike.mpr hwrites) (local_answer .stored hlocal)
      (slate_answer .stored hslate) ?_
    rw [Account.after, if_pos hnext, rawItems_eq hdecode]
    exact ⟨⟨L', hsteady'⟩, hsync', h.slate.put (congrArg Prod.fst hdecode)⟩
  · cases fmt with
    | v1 => exact absurd ⟨fun hv2 => (by cases hv2), fun hv2 => (by cases hv2)⟩ hwrites
    | v2 =>
      obtain ⟨e, s', hreceived⟩ := hsteady.appendReceived_error
        (fun hboth => hwrites ⟨fun _ => hboth.1, hboth.2⟩) partition frame
      refine .differ (fun hal => hwrites (halike.mp hal))
        (local_answer .stored (hrun.trans hreceived))
        (slate_answer .stored hslate) ?_
      intro hsame
      cases hsame

theorem Twin.appendRawFrame_other (partition : UInt32)
    (hdecode : decodeFrame env.codec frame = (.ok item, rest)) (hother : want ≠ a.items.length) :
    Comparable env fmt shard a s log (.appendRawFrame partition frame (some want)) := by
  obtain ⟨L, hsteady⟩ := h.steady
  have hnot : ¬ ∀ w ∈ some want, w = a.items.length := fun hall => hother (hall want rfl)
  have halike : (BackendOp.appendRawFrame partition frame (some want)).Alike env fmt a ↔
      ¬ a.Holds want item.1.id := by
    rw [BackendOp.alike_raw hdecode partition (some want), FrameAlike, if_neg hnot]
    exact ⟨fun hall => hall want rfl, fun hwant w hw => Option.some.inj hw ▸ hwant⟩
  have hslate := SlateLog.appendRawFrame_other (show want ∈ some want from rfl)
    (h.slate.nextOffset.symm ▸ hother) env partition frame
  have hrun : appendRawFrame env partition frame (some want) s = _ :=
    appendRawFrame_decoded hdecode partition s
  by_cases hholds : a.Holds want item.1.id
  · -- an exact retry: the local log answers with the record it holds
    obtain ⟨stored, hcheck⟩ := hsteady.checkExpected_retry hholds partition
    refine .differ (fun hal => halike.mp hal hholds)
      (local_answer .stored (hrun.trans (bind_ok hcheck)))
      (slate_answer .stored hslate) ?_
    intro hsame
    cases hsame
  · have hcheck := hsteady.checkExpected_other hother hholds partition
    rw [h.slate.nextOffset] at hslate
    refine .agree (halike.mpr hholds) (local_answer .stored (hrun.trans (bind_error hcheck)))
      (slate_answer .stored hslate) ?_
    rw [Account.after, if_neg hnot]
    exact h

theorem Twin.appendRawFrame (hcap : Capacity env a) (partition : UInt32) (frame : Bytes)
    (expected : Option Nat) (hframe : fmt = .v1 → (decodeFrame env.codec frame).2 = []) :
    Comparable env fmt shard a s log (.appendRawFrame partition frame expected) := by
  rcases hdecode : decodeFrame env.codec frame with ⟨e | item, rest⟩
  · -- the local log decodes before it looks at the offset, SlateDB behind that
    have hlocal : BetterMQ.appendRawFrame env partition frame expected s
        = (.error (.record e), s) := by
      unfold BetterMQ.appendRawFrame
      rw [hdecode]
      rfl
    have halike : (BackendOp.appendRawFrame partition frame expected).Alike env fmt a ↔ _ :=
      BackendOp.alike_raw hdecode partition expected
    by_cases hnext : ∀ want ∈ expected, want = a.items.length
    · have hslate := SlateLog.appendRawFrame_next (h.slate.nextOffset.symm ▸ hnext) env partition
        frame
      rw [hdecode] at hslate
      refine .agree (halike.mpr hnext) (local_answer .stored hlocal)
        (slate_answer .stored hslate) ?_
      rw [Account.after, if_pos hnext, rawItems_eq hdecode]
      show Twin env fmt shard ⟨a.items ++ [], a.purged⟩ s log
      rw [append_nil]
      exact h
    · obtain ⟨want, hwant, hother⟩ : ∃ want ∈ expected, want ≠ a.items.length := by
        simpa only [not_forall, exists_prop] using hnext
      have hslate := SlateLog.appendRawFrame_other hwant (h.slate.nextOffset.symm ▸ hother) env
        partition frame
      refine .differ (fun hal => hnext (halike.mp hal)) (local_answer .stored hlocal)
        (slate_answer .stored hslate) ?_
      intro hsame
      cases hsame
  · rw [hdecode] at hframe
    cases expected with
    | none => exact h.appendRawFrame_next hcap partition hdecode hframe fun w hw => by cases hw
    | some want =>
      by_cases hnext : want = a.items.length
      · exact h.appendRawFrame_next hcap partition hdecode hframe fun w hw =>
          Option.some.inj hw ▸ hnext
      · exact h.appendRawFrame_other partition hdecode hnext

end

/-- A V1 log writes a raw frame as it is, so it must be the bytes of one frame. -/
def BackendOp.WellFormed (env : Env) (fmt : WalFormat) : BackendOp → Prop
  | .appendRawFrame _ frame _ => fmt = .v1 → (decodeFrame env.codec frame).2 = []
  | _ => True

/-- **One call on twins**: the answers agree exactly if the call is `Alike`, and it leaves twins. -/
theorem Twin.step (h : Twin env fmt shard a s log) (hcap : Capacity env a) (op : BackendOp)
    (hop : op.WellFormed env fmt) : Comparable env fmt shard a s log op := by
  cases op with
  | append partition header payload => exact h.append hcap partition header payload
  | appendRawFrame partition frame expected =>
    exact h.appendRawFrame hcap partition frame expected hop
  | purgeOffset offset => exact h.purgeOffset offset
  | readRange partition start max => exact h.readRange partition start max

theorem Account.length_after_le (env : Env) (a : Account) (op : BackendOp) :
    (a.after env op).items.length ≤ a.items.length + 1 := by
  cases op with
  | append partition header payload =>
    rw [Account.after]
    split
    · simp [Account.record]
    · exact Nat.le_succ _
  | appendRawFrame partition frame expected =>
    have hraw : (rawItems env frame).length ≤ 1 := by
      unfold rawItems
      split <;> simp
    rw [Account.after]
    split
    · rw [Account.record, length_append]
      omega
    · exact Nat.le_succ _
  | purgeOffset offset =>
    rw [Account.after, Account.apply]
    split <;> exact Nat.le_succ _
  | readRange partition start max => exact Nat.le_succ _

/-- **A whole sequence on twins.** -/
theorem Twin.answers_iff (henv : env.InPlace) (hpayload : env.codec.maxFramePayloadBytes < 2 ^ 32)
    {ops : List BackendOp} (hops : ∀ op ∈ ops, op.WellFormed env fmt)
    (h : Twin env fmt shard a s log) (hbound : a.items.length + ops.length < 2 ^ 64) :
    (PartitionBackend.local s).answers env ops = (PartitionBackend.slate log).answers env ops ↔
      AllAlike env fmt a ops := by
  induction ops generalizing a s log with
  | nil => exact ⟨fun _ => trivial, fun _ => rfl⟩
  | cons op ops ih =>
    rw [length_cons] at hbound
    obtain ⟨hagree, hdiffer⟩ := h.step ⟨henv, hpayload, by omega⟩ op (hops op (.head _))
    rw [PartitionBackend.answers, PartitionBackend.answers, List.cons.injEq]
    by_cases halike : op.Alike env fmt a
    · obtain ⟨hanswer, s', log', hlocal, hslate, htwin⟩ := hagree halike
      have hgrows := a.length_after_le env op
      rw [hlocal, hslate, ih (fun o ho => hops o (.tail _ ho)) htwin (by omega)]
      exact ⟨fun hboth => ⟨halike, hboth.2⟩, fun hboth => ⟨hanswer, hboth.2⟩⟩
    · exact ⟨fun hboth => absurd hboth.1 (hdiffer halike), fun hboth => absurd hboth.1 halike⟩

end Twin

/-! ## From fresh backends -/

/-- **Fresh backends answer a sequence of calls alike if and only if every call of it is `Alike`**,
whatever the format, the fsync mode and the segment size of the local log. -/
theorem backends_answer_alike_iff {env : Env} (henv : env.InPlace)
    (hpayload : env.codec.maxFramePayloadBytes < 2 ^ 32)
    (config : PartitionLogConfig) (shard : UInt32) (fmt : WalFormat) (now : Nat)
    (ops : List BackendOp) (hops : ∀ op ∈ ops, op.WellFormed env fmt)
    (hbound : ops.length < 2 ^ 64) :
    ∃ opened, PartitionBackend.openLocalForShard env config shard fmt.version now = .ok opened ∧
      (opened.answers env ops = PartitionBackend.openSlate.answers env ops ↔
        AllAlike env fmt .empty ops) := by
  obtain ⟨log, st, hopen, hsteady⟩ := openForShard_steady env config shard fmt now
  have htwin : Twin env fmt shard .empty (st.disk.sys log) (.openDb fun _ => none) :=
    ⟨⟨_, hsteady⟩, by cases fmt <;> cases hopen <;> rfl, SlateLog.openDb_empty env.codec⟩
  refine ⟨.local (st.disk.sys log), ?_, ?_⟩
  · rw [PartitionBackend.openLocalForShard, hopen]
  · exact htwin.answers_iff henv hpayload hops ((Nat.zero_add _).symm ▸ hbound)

instance (env : Env) (fmt : WalFormat) (item : Item) : Decidable (FitsEpoch env fmt item) :=
  inferInstanceAs (Decidable (fmt = .v2 → _))

instance (a : Account) (offset : Nat) (id : Uuid) : Decidable (a.Holds offset id) :=
  inferInstanceAs (Decidable (_ ∧ _))

instance (env : Env) (fmt : WalFormat) (a : Account) (expected : Option Nat)
    (r : Except RecordError Item) : Decidable (FrameAlike env fmt a expected r) := by
  cases r <;> unfold FrameAlike <;> infer_instance

instance (env : Env) (fmt : WalFormat) (a : Account) (op : BackendOp) :
    Decidable (op.Alike env fmt a) := by
  cases op <;> unfold BackendOp.Alike <;> infer_instance

instance (env : Env) (fmt : WalFormat) :
    (a : Account) → (ops : List BackendOp) → Decidable (AllAlike env fmt a ops)
  | _, [] => .isTrue trivial
  | a, op :: ops =>
    have := instDecidableAllAlike env fmt (a.after env op) ops
    inferInstanceAs (Decidable (_ ∧ _))

instance (env : Env) (fmt : WalFormat) (op : BackendOp) : Decidable (op.WellFormed env fmt) := by
  cases op <;> unfold BackendOp.WellFormed <;> infer_instance

/-- The frame of the record `id`. -/
def plainFrame (id : Nat) : Bytes :=
  frameBytes localEnv.codec (plainRecord id, [UInt8.ofNat id])

/-- Two appends, a raw frame for the next offset, a purge, and a read behind it. -/
def plainCalls : List BackendOp :=
  [.append 0 (plainRecord 1) [1], .append 0 (plainRecord 2) [2],
    .appendRawFrame 0 (plainFrame 3) (some 2), .purgeOffset 0, .readRange 0 1 5]

theorem plain_calls_answered_alike :
    ∃ opened, PartitionBackend.openLocalForShard localEnv (rolling .always) 0
        WalFormat.v1.version 0 = .ok opened ∧
      opened.answers localEnv plainCalls
        = PartitionBackend.openSlate.answers localEnv plainCalls := by
  obtain ⟨opened, hopen, hiff⟩ := backends_answer_alike_iff localEnv_inPlace
    (by decide +kernel) (rolling .always) 0 .v1 0 plainCalls (by decide +kernel) (by decide)
  exact ⟨opened, hopen, hiff.mpr (by decide +kernel)⟩

/-- Append a record, and send its frame for the same offset again. -/
def exactRetry : List BackendOp :=
  [.append 0 (plainRecord 1) [1], .appendRawFrame 0 (plainFrame 1) (some 0)]

/-- Append two records, purge the first, and read both. -/
def readOverGap : List BackendOp :=
  [.append 0 (plainRecord 1) [1], .append 0 (plainRecord 2) [2], .purgeOffset 0, .readRange 0 0 10]

/-- **The backends are not interchangeable.** The local log acknowledges the retry with the record
it holds, SlateDB refuses it; the local log reads past the purged offset, SlateDB fails there. -/
theorem backends_differ_on_retry_and_gap :
    ∃ opened, PartitionBackend.openLocalForShard localEnv (unrolled .group) 0
        WalFormat.v1.version 0 = .ok opened ∧
      (opened.answers localEnv exactRetry)[1]?
        = some (.stored (.ok (storedMessage (plainRecord 1) [1] 0 0))) ∧
      (PartitionBackend.openSlate.answers localEnv exactRetry)[1]?
        = some (.stored (.error (.offsetMismatch 1 0))) ∧
      (opened.answers localEnv readOverGap)[3]?
        = some (.messages (.ok [storedMessage (plainRecord 2) [2] 0 1])) ∧
      (PartitionBackend.openSlate.answers localEnv readOverGap)[3]?
        = some (.messages (.error (.offsetNotFound 0))) := by
  decide +kernel

end BetterMQ
