import BetterMQ.Lib.Run
import BetterMQ.Storage.Maintain

/-!
# A partition directory over its whole life

The machine of one partition: a process opens the directory, calls the log's operations, closes
it, and may die at any file operation, by itself (every written byte stays) or with the machine
(any byte no fsync covers may go). `World.history` is a ghost: the records appended so far, cut at
each open to what the open recovered.

* **`World.step_holds`** — every step the capacity conditions allow keeps a layout on the disk, and
  what was sealed or fsynced stays as it was;
* **`World.run_holds`** — so does every run.
-/

namespace BetterMQ

open List Option

/-! ## The machine -/

/-- An operation on an open log. Segment rolls happen inside the appends. -/
inductive LogOp where
  | append (partition : UInt32) (header : LogRecord) (payload : Bytes) (fence : Option Nat)
  | appendBatch (partition : UInt32) (items : List Item) (fence : Option Nat)
  | appendRaw (partition : UInt32) (frame : Bytes) (expected : Option Nat)
  | sync
  | flushIfDue (due : Bool)
  | purge (offset : Nat)
  | injectFsyncFailure
  | gc (watermark : Nat)

/-- The state an operation leaves, whether it succeeds or not. -/
def LogOp.run (env : Env) : LogOp → Sys → Sys
  | .append partition header payload fence, s =>
    (appendFenced env partition header payload fence s).2
  | .appendBatch partition items fence, s => (BetterMQ.appendBatch env partition items fence s).2
  | .appendRaw partition frame expected, s => (appendRawFrame env partition frame expected s).2
  | .sync, s => (BetterMQ.sync s).2
  | .flushIfDue due, s => (BetterMQ.flushIfDue due s).2
  | .purge offset, s => (purgeOffset offset s).2
  | .injectFsyncFailure, s => (BetterMQ.injectFsyncFailure s).2
  | .gc watermark, s => (gcSealedBelow watermark s).2

/-- The records an operation adds when it goes through. -/
def LogOp.items (env : Env) : LogOp → List Item
  | .append _ header payload _ => [(header, payload)]
  | .appendBatch _ items _ => items
  | .appendRaw _ frame _ => rawItems env frame
  | _ => []

/-- A directory, the log a process has open on it, and the records appended so far. -/
structure World where
  disk : Disk
  log : Option PartitionLog
  history : List Item

inductive Action where
  | openLog (config : PartitionLogConfig) (requestedFormat : UInt16) (now : Nat)
  | call (op : LogOp)
  | close

inductive Event where
  | run (action : Action)
  /-- A crash between operations. -/
  | crash (keep : LogPath → Nat)
  /-- A crash after `count` of the file operations of `action`. -/
  | crashDuring (action : Action) (count : Nat) (keep : LogPath → Nat)

namespace World

def fresh : World := ⟨.fresh, none, []⟩

variable (env : Env) (shard : UInt32)

/-- An action run to its end: the disks it passes through and the state it leaves. -/
def exec (w : World) : Action → Option (List Disk × World)
  | .openLog config requested now =>
    match w.log with
    | some _ => none
    | none =>
      match openForShard env config shard requested now ⟨w.disk, []⟩ with
      | (.error _, st) => some (st.trace, { w with disk := st.disk })
      | (.ok log, st) =>
        some (st.trace, ⟨st.disk, some log, w.history.take log.nextOffset⟩)
  | .call op => w.log.map fun log =>
    let s := op.run env (w.disk.sys log)
    let added := s.nextOffset - log.nextOffset
    (s.trace, ⟨s.disk, some s.log, w.history ++ (op.items env).take added⟩)
  | .close => w.log.map fun log =>
    let s := (dropLog (w.disk.sys log)).2
    (s.trace, ⟨s.disk, none, w.history⟩)

/-- The disk on which a crash after `count` file operations strikes. -/
def crashPoint (w : World) (action : Action) (count : Nat) : Option Disk :=
  (w.exec env shard action).bind fun r => (w.disk :: r.1)[count]?

def step (w : World) : Event → Option World
  | .run action => (w.exec env shard action).map Prod.snd
  | .crash keep => some ⟨w.disk.crash keep, none, w.history⟩
  | .crashDuring action count keep =>
    (w.exec env shard action).bind fun r =>
      ((w.disk :: r.1)[count]?).map fun d => ⟨d.crash keep, none, r.2.history⟩

end World

/-! ## Conditions -/

/-- The next roll's name is not taken: `meta.json` has caught up with the last rename. -/
def Disk.RollFresh (d : Disk) : Prop :=
  ∀ mt, d.savedMeta = some mt → segmentName mt.segmentRollCount ∉ d.segments.map Prod.fst

/-- A complete epoch, or frame in a V1 log, stands in `active.wal` where no fsync has covered it. -/
def Disk.unsyncedBatch (c : Codec) (d : Disk) : Bool :=
  match d.manifest, d.wal with
  | .valid m, some f =>
    let rest := f.bytes.drop f.synced
    if isV2 m then (decodeEpoch c rest).1.toBool else (decodeFrame c rest).1.toBool
  | _, _ => false

/-- A crash that keeps every byte of the sealed segments. -/
def Disk.KeepsSealed (d : Disk) (keep : LogPath → Nat) : Prop :=
  ∀ f ∈ d.segments, f.2.bytes.length ≤ max f.2.synced (keep (.segment f.1))

/-- Offsets stay below `2^64`, a V1 frame's length fields hold, and nothing is collected. -/
def OpOk (env : Env) (log : PartitionLog) : LogOp → Prop
  | .append _ _ payload _ =>
    log.nextOffset + 1 < 2 ^ 64 ∧ (isV2 log.manifest = false → payload.length < 2 ^ 32)
  | .appendBatch _ items _ =>
    log.nextOffset + items.length < 2 ^ 64 ∧
      (isV2 log.manifest = false → ∀ item ∈ items, item.2.length < 2 ^ 32)
  | .appendRaw _ frame _ =>
    log.nextOffset + 1 < 2 ^ 64 ∧
      (isV2 log.manifest = false → (decodeFrame env.codec frame).2 = [])
  | .gc watermark => ∀ g ∈ log.sealedIndexes, collectable watermark g = false
  | _ => True

/-- What an action needs of the state it starts from. `strict` is for results about fsync. -/
def ActionOk (env : Env) (strict : Bool) (w : World) : Action → Prop
  | .openLog config _ _ =>
    w.disk.Few ∧ w.disk.RollFresh ∧
      (strict = true → config.fsync ≠ .os ∧ w.disk.unsyncedBatch env.codec = false)
  | .call op => ∀ log, w.log = some log → OpOk env log op
  | .close => True

def EventOk (env : Env) (shard : UInt32) (strict : Bool) (w : World) : Event → Prop
  | .run action => ActionOk env strict w action
  | .crash keep => strict = false → w.disk.KeepsSealed keep
  | .crashDuring action count keep =>
    ActionOk env strict w action ∧
      (strict = false → ∀ d, w.crashPoint env shard action count = some d → d.KeepsSealed keep)

instance (d : Disk) : Decidable d.RollFresh := by
  unfold Disk.RollFresh
  infer_instance

instance (d : Disk) (keep : LogPath → Nat) : Decidable (d.KeepsSealed keep) := by
  unfold Disk.KeepsSealed
  infer_instance

instance (env : Env) (log : PartitionLog) (op : LogOp) : Decidable (OpOk env log op) := by
  cases op <;> unfold OpOk <;> infer_instance

instance (env : Env) (strict : Bool) (w : World) (action : Action) :
    Decidable (ActionOk env strict w action) := by
  cases action <;> unfold ActionOk <;> infer_instance

instance (env : Env) (shard : UInt32) (strict : Bool) (w : World) (event : Event) :
    Decidable (EventOk env shard strict w event) := by
  cases event <;> unfold EventOk <;> infer_instance

/-! ## The invariant -/

/-- A directory that holds a layout, perhaps with a roll cut short. -/
def Stored {c : Codec} (fmt : WalFormat) (shard : UInt32) (strict : Bool)
    (L : Layout c) (d : Disk) :
    Prop :=
  ∃ m tail, OnDisk fmt m strict L tail d ∧ m.shardId = shard ∧ (RollSaved L d ∨ RollStale L d)

/-- A directory nobody has open: one that holds a layout or, as long as its format is not `known`,
an untouched one. -/
def Idle {c : Codec} (known : Option WalFormat) (shard : UInt32) (strict : Bool) (L : Layout c)
    (d : Disk) : Prop :=
  (known = none ∧ d = .fresh ∧ L = .empty) ∨
    ∃ fmt, (∀ f ∈ known, f = fmt) ∧ Stored fmt shard strict L d

variable {c : Codec} {d : Disk} {L : Layout c}

theorem Idle.stored {fmt : WalFormat} {shard : UInt32} {strict : Bool}
    (h : Idle (some fmt) shard strict L d) : Stored fmt shard strict L d := by
  rcases h with ⟨hnone, -⟩ | ⟨fmt', hknown, hstored⟩
  · cases hnone
  · exact hknown fmt rfl ▸ hstored

/-- The world holds the layout `L`, and its records are the history. -/
def World.Holds {c : Codec} (known : Option WalFormat) (shard : UInt32) (strict : Bool)
    (L : Layout c) (w : World) : Prop :=
  match w.log with
  | some log => ∃ fmt, (∀ f ∈ known, f = fmt) ∧ Live fmt strict L (w.disk.sys log) ∧
      log.shardId = shard ∧ L.items = w.history
  | none => Idle known shard strict L w.disk ∧ L.items <+: w.history

/-! ## Operations -/

variable {env : Env} {shard : UInt32} {strict : Bool} {fmt : WalFormat} {known : Option WalFormat}
  {config : PartitionLogConfig} {s : Sys} {log : PartitionLog} {m : WalManifest} {tail : Bytes}

theorem Appended.items_cases {α : Type} {items : List Item} {r : Except LogError α × Sys}
    {post : α → Prop} (h : Appended fmt strict L s items r post) :
    ∃ L', OpStep fmt strict L s L' r.2 ∧ (L'.items = L.items ∨ L'.items = L.items ++ items) := by
  obtain ⟨L', hstep, hitems, -⟩ := h
  exact ⟨L', hstep, hitems⟩

/-- **Every operation keeps the log live** and adds all of its records or none. -/
theorem LogOp.run_step (henv : env.InPlace) {L : Layout env.codec} (h : Live fmt strict L s)
    (op : LogOp) (hok : OpOk env s.log op) :
    ∃ L', OpStep fmt strict L s L' (op.run env s) ∧
      (L'.items = L.items ∨ L'.items = L.items ++ op.items env) := by
  have hv1 : fmt = .v1 → isV2 s.manifest = false := by
    rintro rfl
    rw [h.isV2_eq]
    rfl
  -- the operations that append nothing
  have hquiet : ∀ s', (∃ L', OpStep fmt strict L s L' s' ∧ L'.frames = L.frames) →
      ∃ L', OpStep fmt strict L s L' s' ∧
        (L'.items = L.items ∨ L'.items = L.items ++ op.items env) := by
    rintro s' ⟨L', hstep, hframes⟩
    exact ⟨L', hstep, .inl (by rw [Layout.items, hframes, Layout.items])⟩
  cases op with
  | append partition header payload fence =>
    obtain ⟨hbound, hpayload⟩ := hok
    rw [h.nextOffset] at hbound
    exact (appendFenced_step henv h partition header payload fence
      (fun hfmt => hpayload (hv1 hfmt)) hbound).appended.items_cases
  | appendBatch partition items fence =>
    obtain ⟨hbound, hpayload⟩ := hok
    rw [h.nextOffset] at hbound
    exact (appendBatch_step henv h partition items fence
      (fun hfmt => hpayload (hv1 hfmt)) hbound).items_cases
  | appendRaw partition frame expected =>
    obtain ⟨hbound, hframe⟩ := hok
    rw [h.nextOffset] at hbound
    rcases appendRawFrame_step henv h partition frame expected
      (fun hfmt => hframe (hv1 hfmt)) hbound with ⟨stored, want, hretry, -⟩ | happend
    · refine ⟨L, ?_, .inl rfl⟩
      show OpStep fmt strict L s L (appendRawFrame env partition frame expected s).2
      rw [hretry]
      exact .refl h
    · exact happend.items_cases
  | sync => exact hquiet _ (flushDurable_step h)
  | flushIfDue due => exact hquiet _ (flushIfDue_step h due)
  | purge offset => exact hquiet _ (purgeOffset_step h offset)
  | injectFsyncFailure => exact hquiet _ ⟨L, injectFsyncFailure_step h, rfl⟩
  | gc watermark => exact hquiet _ ⟨L, gcSealedBelow_step h watermark hok, rfl⟩

/-! ## Crashes -/

/-- Sealed segments that are fsynced survive every crash whole. -/
theorem OnDisk.keepsSealed (h : OnDisk fmt m true L tail d) (keep : LogPath → Nat) :
    d.KeepsSealed keep := by
  intro f hf
  rw [h.synced rfl f hf]
  exact le_max_left _ _

/-- **A crash keeps what is sealed or fsynced** and adds nothing. -/
theorem Idle.crash (h : Idle known shard strict L d) {keep : LogPath → Nat}
    (hkeep : strict = false → d.KeepsSealed keep) :
    ∃ L', Idle known shard strict L' (d.crash keep) ∧ L.Grows L' ∧ L'.items <+: L.items := by
  rcases h with ⟨hnone, rfl, rfl⟩ | ⟨fmt, hknown, m, tail, hdisk, hshard, hroll⟩
  · exact ⟨.empty, .inl ⟨hnone, rfl, rfl⟩, .refl _, prefix_rfl⟩
  · have hwhole : d.KeepsSealed keep := by
      cases strict with
      | false => exact hkeep rfl
      | true => exact hdisk.keepsSealed keep
    obtain ⟨L', tail', hcrash, hsealed, hdurable, hframes⟩ := hdisk.crash hwhole
    refine ⟨L', .inr ⟨fmt, hknown, m, tail', hcrash, hshard, ?_⟩, ⟨?_, ?_⟩, hframes.map _⟩
    · rwa [RollSaved, RollStale, hsealed]
    · exact ⟨[], (append_nil _).trans hsealed.symm⟩
    · refine ⟨[], (append_nil _).trans ?_⟩
      rw [Layout.durableFrames, Layout.durableFrames, hsealed, hdurable]

/-! ## Opens -/

/-- The layout after recovery: cutting a torn tail off fsyncs what stays. -/
def Layout.recovered {c : Codec} (L : Layout c) (tail : Bytes) : Layout c :=
  if tail = [] then L else L.flushed

section Recovered

variable {c : Codec} {m : WalManifest} {L : Layout c} {tail : Bytes} {d : Disk} {mt : LogMeta}

theorem recovered_sealed (L : Layout c) (tail : Bytes) : (L.recovered tail).sealed = L.sealed := by
  unfold Layout.recovered
  split <;> rfl

theorem recovered_active (L : Layout c) (tail : Bytes) : (L.recovered tail).active = L.active := by
  unfold Layout.recovered
  split
  · rfl
  · exact L.flushed_active

theorem recovered_base (L : Layout c) (tail : Bytes) : (L.recovered tail).base = L.base := by
  rw [Layout.base, recovered_sealed, Layout.base]

theorem recovered_frames (L : Layout c) (tail : Bytes) : (L.recovered tail).frames = L.frames := by
  rw [Layout.frames, recovered_sealed, recovered_active, Layout.frames]

theorem recovered_items (L : Layout c) (tail : Bytes) : (L.recovered tail).items = L.items := by
  rw [Layout.items, recovered_frames, Layout.items]

theorem grows_recovered (L : Layout c) (tail : Bytes) : L.Grows (L.recovered tail) := by
  unfold Layout.recovered
  split
  · exact .refl L
  · exact L.grows_flushed

/-- Without a complete batch past the fsynced length, every batch of the WAL is fsynced. -/
theorem OnDisk.pending_eq_nil (h : OnDisk fmt m strict L [] d)
    (hnone : d.unsyncedBatch c = false) : L.pending = [] := by
  rcases h.wal with hsome | ⟨-, hactive, -⟩
  · cases hpending : L.pending with
    | nil => rfl
    | cons b bs =>
      exfalso
      obtain ⟨-, hok⟩ := fileOk_append.mp h.activeOk
      rw [hpending] at hok
      have hdrop : (fileBytes fmt m.shardId L.base L.active ++ []).drop
            (fileBytes fmt m.shardId L.base L.durable).length
          = b.bytes fmt m.shardId (L.base + (records L.durable).length) ++
            fileBytes fmt m.shardId (L.base + (records L.durable).length + b.frames.length) bs := by
        rw [append_nil, Layout.active, fileBytes_append, drop_left, hpending, fileBytes]
      unfold Disk.unsyncedBatch at hnone
      rw [h.manifest, hsome] at hnone
      simp only [hdrop, isV2, h.format] at hnone
      cases fmt with
      | v1 =>
        obtain ⟨f, -, hbody⟩ := exists_frame_of_ok_v1 hok.1
        have hbytes : b.bytes .v1 m.shardId (L.base + (records L.durable).length) = f.bytes := hbody
        rw [hbytes, f.exact.ok] at hnone
        exact Bool.noConfusion (show true = false from hnone)
      | v2 =>
        rw [(decodeEpoch_batch hok.1).ok] at hnone
        exact Bool.noConfusion (show true = false from hnone)
  · exact (append_eq_nil_iff.mp hactive).2

/-- **A recovered log is live** when the roll count is right. -/
theorem Opened.live (ho : Opened fmt m L mt config log) (h : OnDisk fmt m strict L tail d)
    (hroll : mt.segmentRollCount = L.sealed.length)
    (hstrict : strict = true → config.fsync ≠ .os ∧ d.unsyncedBatch c = false) (trace : List Disk) :
    Live fmt strict (L.recovered tail) ⟨⟨recoveredDisk fmt m L tail d mt, trace⟩, log⟩ := by
  have hdisk := h.created.recovered.saveMeta { mt with nextOffset := L.frames.length }
  constructor
  · rw [ho.manifest]
    exact hdisk
  · rfl
  · exact ⟨_, rfl, by rw [recovered_sealed]; exact hroll⟩
  · rw [recovered_sealed, ho.logMeta]
    exact hroll
  · rw [recovered_frames, ho.logMeta]
  · rw [recovered_base, recovered_active, ho.manifest]
    exact ho.walSize
  · rw [recovered_base]
    exact ho.activeBaseOffset
  · rw [recovered_sealed, ho.manifest]
    exact ho.sealedIndexes
  · refine ⟨?_, mt.purgedOffsets, [], ?_, ?_, by simp⟩
    · rw [ho.index]
      intro e he
      obtain ⟨x, -, -, rfl⟩ := mem_scannedIndex he
      rfl
    · rw [ho.logMeta]
      exact fun o ho => ho
    · rw [ho.index, recovered_base, recovered_active, append_nil]
  · intro hs
    rw [ho.config_eq]
    exact (hstrict hs).1
  · intro hs
    rw [ho.committedHwm]
    by_cases htail : tail = []
    · subst htail
      have hpending := h.pending_eq_nil (hstrict hs).2
      rw [Layout.recovered, if_pos rfl, L.frames_eq, hpending, records_nil, append_nil]
    · rw [Layout.recovered, if_neg htail, durableFrames_flushed]

theorem RollSaved.openTrace (hmeta : d.savedMeta = some mt)
    (hroll : mt.segmentRollCount = L.sealed.length) {L' : Layout c} (hsealed : L'.sealed = L.sealed)
    {next : Nat} : ∀ d' ∈ openTrace fmt m L tail d { mt with nextOffset := next },
      RollSaved L' d' := by
  have hcount : mt.segmentRollCount = L'.sealed.length := by rw [hsealed, hroll]
  intro d' hd'
  simp only [BetterMQ.openTrace, cons_append, mem_cons, mem_append, not_mem_nil, or_false] at hd'
  rcases hd' with rfl | hmid | rfl
  · exact ⟨mt, hmeta, hcount⟩
  · split at hmid
    · cases hmid
    · rw [mem_singleton] at hmid
      subst hmid
      exact ⟨mt, hmeta, hcount⟩
  · exact ⟨_, rfl, hcount⟩

/-- A name that is not taken means that no roll was interrupted. -/
theorem OnDisk.rollSaved (h : OnDisk fmt m strict L tail d) (hfresh : d.RollFresh)
    (hroll : RollSaved L d ∨ RollStale L d) : RollSaved L d := by
  rcases hroll with hsaved | ⟨mt, hmeta, hcount⟩
  · exact hsaved
  · refine absurd ?_ (hfresh mt hmeta)
    rw [h.segment_names]
    exact mem_map_of_mem (mem_range.mpr (by omega))

end Recovered

/-- A directory whose manifest was just created. -/
def Disk.created (fmt : WalFormat) (shard : UInt32) : Disk :=
  { Disk.fresh with manifest := .valid ⟨1, fmt.version, protocolVersion, shard⟩ }

theorem openForShard_fresh (env : Env) (config : PartitionLogConfig) (shard : UInt32)
    (fmt : WalFormat) (now : Nat) :
    openForShard env config shard fmt.version now ⟨.fresh, []⟩
      = openForShard env config shard fmt.version now
        ⟨.created fmt shard, [.created fmt shard]⟩ := by
  have hformat : unsupportedFormat fmt.version = false := by cases fmt <;> rfl
  unfold openForShard WalManifest.loadOrCreate
  simp [Disk.created, Disk.fresh, hformat, Store.put]

/-- The first open of a directory creates its manifest, or refuses the format. -/
theorem openForShard_first (env : Env) (config : PartitionLogConfig) (shard : UInt32)
    (requested : UInt16) (now : Nat) :
    (∃ e, openForShard env config shard requested now ⟨.fresh, []⟩ = (.error e, ⟨.fresh, []⟩)) ∨
      ∃ fmt : WalFormat, requested = fmt.version := by
  by_cases hv1 : requested = walFormatV1
  · exact .inr ⟨.v1, hv1⟩
  · by_cases hv2 : requested = walFormatV2
    · exact .inr ⟨.v2, hv2⟩
    · refine .inl ⟨.io (.invalidInput s!"unsupported requested WAL format {requested}"), ?_⟩
      simp [openForShard, WalManifest.loadOrCreate, Disk.fresh, unsupportedFormat, hv1, hv2]

theorem onDisk_created (c : Codec) (strict : Bool) (fmt : WalFormat) (shard : UInt32) :
    OnDisk fmt ⟨1, fmt.version, protocolVersion, shard⟩ strict (.empty : Layout c) []
      (.created fmt shard) :=
  ⟨rfl, rfl, rfl, rfl, by simp [Disk.created, Disk.fresh], trivial, trivial, .nil fmt,
    .inr ⟨rfl, rfl, rfl⟩, rfl⟩

/-- **An open of a layout holds it**, and so does every disk on the way. -/
theorem openForShard_holds (env : Env) {L : Layout env.codec} (requested : UInt16) (now : Nat)
    (trace : List Disk)
    {history : List Item} (h : OnDisk fmt m strict L tail d) (hshard : m.shardId = shard)
    (hroll : RollSaved L d) (hfew : d.Few)
    (hstrict : strict = true → config.fsync ≠ .os ∧ d.unsyncedBatch env.codec = false)
    (hknown : ∀ f ∈ known, f = fmt) (hhistory : L.items <+: history) :
    ∃ log d' ds, openForShard env config shard requested now ⟨d, trace⟩
        = (.ok log, ⟨d', trace ++ ds⟩) ∧
      history.take log.nextOffset = L.items ∧
      World.Holds known shard strict (L.recovered tail) ⟨d', some log, L.items⟩ ∧
      ∀ x ∈ ds, ∃ L'', Idle known shard strict L'' x ∧ L.Grows L'' ∧ L''.items <+: L.items := by
  subst hshard
  obtain ⟨mt, hmeta, hcount⟩ := hroll
  obtain ⟨log, hopen, hopened⟩ := openForShard_onDisk env config requested now trace h
    (by rw [← h.segments_length]; exact hfew) hmeta
  refine ⟨log, _, _, hopen, ?_, ⟨fmt, hknown, hopened.live h hcount hstrict [], ?_, ?_⟩, ?_⟩
  · rw [hopened.logMeta, ← L.length_items]
    exact (prefix_iff_eq_take.mp hhistory).symm
  · rw [hopened.manifest]
  · exact recovered_items L tail
  · intro x hx
    rcases h.openTrace _ x hx with hbefore | hafter
    · exact ⟨L, .inr ⟨fmt, hknown, m, tail, hbefore, rfl, .inl (.openTrace hmeta hcount rfl x hx)⟩,
        .refl L, prefix_rfl⟩
    · exact ⟨L.recovered tail, .inr ⟨fmt, hknown, m, [], hafter, rfl,
        .inl (.openTrace hmeta hcount (recovered_sealed L tail) x hx)⟩, grows_recovered L tail,
        recovered_items L tail ▸ prefix_rfl⟩

/-! ## Steps and runs -/

/-- What an action keeps: the layout it ends in, and one for each disk on the way. -/
def World.Kept {c : Codec} (known : Option WalFormat) (shard : UInt32) (strict : Bool)
    (L : Layout c) (w : World)
    (trace : List Disk) (w' : World) : Prop :=
  (∃ L', w'.Holds known shard strict L' ∧ L.Grows L') ∧
    ∀ d ∈ w.disk :: trace, ∃ L'', Idle known shard strict L'' d ∧ L.Grows L'' ∧
      L''.items <+: w'.history

variable {w w' : World} {trace : List Disk}

theorem World.open_kept {L : Layout env.codec} {requested : UInt16} {now : Nat}
    (hlog : w.log = none) (hidle : Idle known shard strict L w.disk)
    (hhistory : L.items <+: w.history) (hok : ActionOk env strict w (.openLog config requested now))
    (hexec : w.exec env shard (.openLog config requested now) = some (trace, w')) :
    World.Kept known shard strict L w trace w' := by
  obtain ⟨hfew, hfresh, hstrict⟩ := hok
  simp only [World.exec, hlog] at hexec
  rcases hidle with ⟨hnone, hdisk, rfl⟩ | ⟨fmt, hknown, m, tail, hdisk, hshard, hroll⟩
  · have huntouched : Idle known shard strict (.empty : Layout env.codec) .fresh :=
      .inl ⟨hnone, rfl, rfl⟩
    rw [hdisk] at hexec
    rcases openForShard_first env config shard requested now with ⟨e, hrefused⟩ | ⟨fmt, rfl⟩
    · rw [hrefused] at hexec
      cases hexec
      refine ⟨⟨.empty, ⟨huntouched, hhistory⟩, .refl _⟩, forall_mem_singleton.mpr ?_⟩
      exact ⟨.empty, hdisk ▸ huntouched, .refl _, hhistory⟩
    · have hknown : ∀ f ∈ known, f = fmt := by rw [hnone]; simp
      have hcreated := onDisk_created env.codec strict fmt shard
      have hroll : RollSaved (.empty : Layout env.codec) (.created fmt shard) := ⟨.empty, rfl, rfl⟩
      obtain ⟨log, d', ds, hopen, htake, hholds, hds⟩ := openForShard_holds env fmt.version now
        [.created fmt shard] hcreated rfl hroll (Nat.zero_le _) (fun hs => ⟨(hstrict hs).1, rfl⟩)
        hknown hhistory
      rw [openForShard_fresh, hopen] at hexec
      cases hexec
      rw [htake]
      refine ⟨⟨_, hholds, grows_recovered _ _⟩, forall_mem_cons.mpr ⟨?_,
        forall_mem_cons.mpr ⟨?_, hds⟩⟩⟩
      · exact ⟨.empty, hdisk ▸ huntouched, .refl _, prefix_rfl⟩
      · exact ⟨.empty, .inr ⟨fmt, hknown, _, [], hcreated, rfl, .inl hroll⟩, .refl _, prefix_rfl⟩
  · have hsaved := hdisk.rollSaved hfresh hroll
    obtain ⟨log, d', ds, hopen, htake, hholds, hds⟩ := openForShard_holds env requested now []
      hdisk hshard hsaved hfew hstrict hknown hhistory
    rw [hopen] at hexec
    cases hexec
    rw [htake]
    refine ⟨⟨_, hholds, grows_recovered L tail⟩, forall_mem_cons.mpr ⟨?_, hds⟩⟩
    exact ⟨L, .inr ⟨fmt, hknown, m, tail, hdisk, hshard, hroll⟩, .refl L, prefix_rfl⟩

theorem OpStep.idle {L' : Layout c} {s' : Sys} (hknown : ∀ f ∈ known, f = fmt)
    (h : OpStep fmt strict L s L' s') (hlive : Live fmt strict L s) (htrace : s.trace = []) :
    ∀ d ∈ s.disk :: s'.trace, ∃ L'', Idle known s.shardId strict L'' d ∧
      L.Grows L'' ∧ L''.items <+: L'.items := by
  obtain ⟨ds, hds, hpoints⟩ := h.trace
  rw [htrace] at hds
  intro d hd
  rcases mem_cons.mp hd with rfl | hmem
  · exact ⟨L, .inr ⟨fmt, hknown, _, [], hlive.onDisk, rfl, .inl hlive.rollSaved⟩, .refl L,
      h.frames.map _⟩
  · rw [hds] at hmem
    obtain ⟨L'', hdisk, hroll, hgrows, hframes⟩ := hpoints d hmem
    exact ⟨L'', .inr ⟨fmt, hknown, _, [], hdisk, rfl, hroll⟩, hgrows, hframes.map _⟩

theorem Live.retrace (h : Live fmt strict L s) (trace : List Disk) :
    Live fmt strict L ⟨⟨s.disk, trace⟩, s.log⟩ :=
  ⟨h.onDisk, h.wal, h.rollSaved, h.rollCount, h.nextOffset, h.walSize, h.activeBaseOffset,
    h.sealedIndexes, h.index, h.mode, h.committed⟩

theorem World.call_kept (henv : env.InPlace) {L : Layout env.codec} {op : LogOp}
    (h : w.Holds known shard strict L) (hok : ActionOk env strict w (.call op))
    (hexec : w.exec env shard (.call op) = some (trace, w')) :
    World.Kept known shard strict L w trace w' := by
  obtain ⟨log, hlog, hresult⟩ := map_eq_some_iff.mp hexec
  cases hresult
  simp only [World.Holds, hlog] at h
  obtain ⟨fmt, hknown, hlive, rfl, hitems⟩ := h
  obtain ⟨L', hstep, hadded⟩ := op.run_step henv hlive (hok log hlog)
  -- the ghost grows by what the next offset says was added
  have hhistory : L'.items = w.history ++ (op.items env).take
      ((op.run env (w.disk.sys log)).nextOffset - log.nextOffset) := by
    have hbefore : log.nextOffset = L.items.length := by
      rw [L.length_items]
      exact hlive.nextOffset
    rw [hstep.live.nextOffset, ← L'.length_items, hbefore, ← hitems]
    rcases hadded with hsame | hmore
    · rw [hsame, Nat.sub_self, take_zero, append_nil]
    · rw [hmore, length_append, Nat.add_sub_cancel_left, take_length]
  refine ⟨⟨L', ⟨fmt, hknown, hstep.live.retrace [], ?_, hhistory⟩, hstep.grows⟩, ?_⟩
  · rw [hstep.manifest]
  · rw [← hhistory]
    exact OpStep.idle hknown hstep hlive rfl

theorem World.close_kept {L : Layout env.codec} (h : w.Holds known shard strict L)
    (hexec : w.exec env shard .close = some (trace, w')) :
    World.Kept known shard strict L w trace w' := by
  obtain ⟨log, hlog, hresult⟩ := map_eq_some_iff.mp hexec
  cases hresult
  simp only [World.Holds, hlog] at h
  obtain ⟨fmt, hknown, hlive, rfl, hitems⟩ := h
  obtain ⟨L', hstep, hframes⟩ := dropLog_step hlive
  have hsame : L'.items = w.history := by rw [← hitems, Layout.items, hframes, Layout.items]
  have hpoints := OpStep.idle hknown hstep hlive rfl
  rw [hsame] at hpoints
  refine ⟨⟨L', ⟨.inr ⟨fmt, hknown, _, [], hstep.live.onDisk, ?_, .inl hstep.live.rollSaved⟩, ?_⟩,
    hstep.grows⟩, hpoints⟩
  · rw [hstep.manifest]
  · exact hsame ▸ prefix_rfl

theorem World.exec_kept (henv : env.InPlace) {L : Layout env.codec} {action : Action}
    (h : w.Holds known shard strict L) (hok : ActionOk env strict w action)
    (hexec : w.exec env shard action = some (trace, w')) :
    World.Kept known shard strict L w trace w' := by
  cases action with
  | openLog config requested now =>
    cases hlog : w.log with
    | some log => simp [World.exec, hlog] at hexec
    | none =>
      simp only [World.Holds, hlog] at h
      exact World.open_kept hlog h.1 h.2 hok hexec
  | call op => exact World.call_kept henv h hok hexec
  | close => exact World.close_kept h hexec

theorem World.Holds.idle (h : w.Holds known shard strict L) :
    Idle known shard strict L w.disk ∧ L.items <+: w.history := by
  unfold World.Holds at h
  cases hlog : w.log with
  | none =>
    rw [hlog] at h
    exact h
  | some log =>
    rw [hlog] at h
    obtain ⟨fmt, hknown, hlive, hshard, hitems⟩ := h
    exact ⟨.inr ⟨fmt, hknown, _, [], hlive.onDisk, hshard, .inl hlive.rollSaved⟩,
      hitems ▸ prefix_rfl⟩

/-- **One step**: the disk holds a layout again, and what was sealed or fsynced stays. -/
theorem World.step_holds (henv : env.InPlace) {L : Layout env.codec} {event : Event}
    (h : w.Holds known shard strict L) (hok : EventOk env shard strict w event)
    (hstep : w.step env shard event = some w') :
    ∃ L', w'.Holds known shard strict L' ∧ L.Grows L' := by
  cases event with
  | run action =>
    obtain ⟨⟨trace, w₁⟩, hexec, rfl⟩ := map_eq_some_iff.mp hstep
    exact (World.exec_kept henv h hok hexec).1
  | crash keep =>
    cases hstep
    obtain ⟨hidle, hhistory⟩ := h.idle
    obtain ⟨L', hcrash, hgrows, hitems⟩ := hidle.crash hok
    exact ⟨L', ⟨hcrash, hitems.trans hhistory⟩, hgrows⟩
  | crashDuring action count keep =>
    obtain ⟨hact, hkeep⟩ := hok
    obtain ⟨⟨trace, w₁⟩, hexec, hpoint⟩ := bind_eq_some_iff.mp hstep
    obtain ⟨d, hd, rfl⟩ := map_eq_some_iff.mp hpoint
    have hcrashPoint : w.crashPoint env shard action count = some d := by
      rw [World.crashPoint, hexec]
      exact hd
    obtain ⟨-, hpoints⟩ := World.exec_kept henv h hact hexec
    obtain ⟨L₁, hidle, hgrows, hitems⟩ := hpoints d (mem_of_getElem? hd)
    obtain ⟨L₂, hcrash, hgrows', hitems'⟩ := hidle.crash fun hs => hkeep hs d hcrashPoint
    exact ⟨L₂, ⟨hcrash, hitems'.trans hitems⟩, hgrows.trans hgrows'⟩

/-- The format of a directory is known once it holds anything. -/
theorem World.Holds.of_open (hlog : w.log = some log) (h : w.Holds known shard strict L) :
    ∃ fmt, w.Holds (some fmt) shard strict L ∧ Live fmt strict L (w.disk.sys log) ∧
      L.items = w.history := by
  unfold World.Holds at h ⊢
  rw [hlog] at h ⊢
  obtain ⟨fmt, -, hlive, hshard, hitems⟩ := h
  exact ⟨fmt, ⟨fmt, by simp, hlive, hshard, hitems⟩, hlive, hitems⟩

theorem World.fresh_holds (c : Codec) (shard : UInt32) (strict : Bool) :
    World.fresh.Holds none shard strict (.empty : Layout c) :=
  ⟨.inl ⟨rfl, rfl, rfl⟩, prefix_rfl⟩

/-- **Every run** from a world that holds a layout. -/
theorem World.run_holds (henv : env.InPlace) {L : Layout env.codec} {events : List Event}
    (h : w.Holds known shard strict L)
    (hrun : Run (World.step env shard) (EventOk env shard strict) w events w') :
    ∃ L', w'.Holds known shard strict L' ∧ L.Grows L' := by
  refine hrun.invariant (fun w => ∃ L', w.Holds known shard strict L' ∧ L.Grows L') ?_
    ⟨L, h, .refl L⟩
  rintro w₁ event w₂ ⟨L₁, hholds, hgrows⟩ hok hstep
  obtain ⟨L₂, hholds', hgrows'⟩ := World.step_holds henv hholds hok hstep
  exact ⟨L₂, hholds', hgrows.trans hgrows'⟩

end BetterMQ
