import BetterMQ.Lib.DurableLog
import BetterMQ.Proto.Bincode
import BetterMQ.Storage.World

/-!
# What survives crashes

The durability results of the log, each over every run of the machine that meets the
conditions of `EventOk`, with a run outside them where the log breaks its promise:

* **`reopen_after_crash`** — a crash of an open log leaves a prefix of its records that includes
  every committed one, and the next open serves exactly that prefix;
* **`sealed_readable_after_reopen`** — sealed segments are never overwritten or cut;
* **`committed_readable_after_reopen`** — what was committed at any moment is served by every later
  open;
* **`close_keeps_all_records`** — a clean shutdown loses nothing.
-/

namespace BetterMQ

open List Option World

variable {env : Env} {shard : UInt32} {strict : Bool} {fmt : WalFormat}

/-! ## What an open serves -/

/-- The records `items`, less the tombstoned offsets, are what a reader gets. -/
def Serves (env : Env) (d : Disk) (log : PartitionLog) (items : List Item) : Prop :=
  ∀ (partition : UInt32) (start max : Nat), readRange env d log partition start max
    = .ok ((visible start log.purgedOffsets (messagesFrom partition 0 items)).take max)

variable {L : Layout env.codec} {log : PartitionLog} {d : Disk} {m : WalManifest} {tail : Bytes}

theorem Opened.serves {mt : LogMeta} {config : PartitionLogConfig}
    (ho : Opened fmt m L mt config log) (h : OnDisk fmt m strict L tail d) :
    Serves env (recoveredDisk fmt m L tail d mt) log L.items := by
  intro partition start max
  have hpurged : log.purgedOffsets = mt.purgedOffsets := by rw [ho.logMeta]
  have hsealed := ho.sealedIndexes
  have hread := h.read_segment
  have hfmt := h.format
  rw [← ho.manifest] at hsealed hread hfmt
  have hindex : log.index = scannedIndex log.purgedOffsets .wal
      (placed fmt (sealedRecords L.sealed).length 0 L.active) ++ [] := by
    rw [append_nil, hpurged]
    exact ho.index
  have hwal : (recoveredDisk fmt m L tail d mt).read .wal
      = some (fileBytes fmt log.shardId L.base L.active ++ []) := by
    rw [append_nil, ho.manifest]
    rfl
  exact readRange_layout hfmt h.sealedOk hsealed hread hwal hindex (.inl rfl)

variable {w : World} {offset : Nat} {item : Item}

/-- **Opening a stored directory** serves its records, whatever its roll count says. -/
theorem World.open_serves (config : PartitionLogConfig) (requested : UInt16) (now : Nat)
    (hlog : w.log = none) (hstored : Stored fmt shard strict L w.disk)
    (hhistory : L.items <+: w.history) (hfew : w.disk.Few) :
    ∃ w' log mt, w.step env shard (.run (.openLog config requested now)) = some w' ∧
      w'.log = some log ∧ w.disk.savedMeta = some mt ∧
      log.purgedOffsets = mt.purgedOffsets ∧ log.highWatermark = L.items.length ∧
      w'.history = L.items ∧ Serves env w'.disk log L.items := by
  obtain ⟨m, tail, hdisk, rfl, hroll⟩ := hstored
  obtain ⟨mt, hmeta⟩ := isSome_iff_exists.mp hdisk.logMeta
  obtain ⟨log, hopen, hopened⟩ := openForShard_onDisk env config requested now [] hdisk
    (by rw [← hdisk.segments_length]; exact hfew) hmeta
  have hnext : log.nextOffset = L.items.length := by
    rw [hopened.logMeta, L.length_items]
  have htake : w.history.take log.nextOffset = L.items := by
    rw [hnext]
    exact (prefix_iff_eq_take.mp hhistory).symm
  have hstep : w.step env m.shardId (.run (.openLog config requested now)) 
      = some ⟨recoveredDisk fmt m L tail w.disk mt, some log, w.history.take log.nextOffset⟩ := by
    simp only [World.step, World.exec, hlog, hopen, map_some]
  exact ⟨_, log, mt, hstep, rfl, hmeta, by rw [hopened.logMeta], hnext, htake, hopened.serves hdisk⟩

theorem Serves.read_one {items : List Item} (h : Serves env d log items)
    (hget : items[offset]? = some item) (hlive : offset ∉ log.purgedOffsets)
    (partition : UInt32) :
    readRange env d log partition offset 1
      = .ok [storedMessage item.1 item.2 partition offset] := by
  have hbefore : visible offset log.purgedOffsets
      (messagesFrom partition 0 (items.take offset)) = [] :=
    visible_messagesFrom_eq_nil (by rw [length_take]; omega)
  rw [h, messagesFrom_split partition hget, visible_append, hbefore, visible_cons,
    if_pos ⟨le_rfl, hlive⟩]
  rfl

/-- Every open of the closed world `w` recovers `item` at `offset`, and serves it there unless its
purge is on disk. -/
def RecoveredAt (env : Env) (shard : UInt32) (w : World) (offset : Nat) (item : Item) : Prop :=
  ∀ (config : PartitionLogConfig) (requested : UInt16) (now : Nat),
    ∃ w' log, w.step env shard (.run (.openLog config requested now)) = some w' ∧
      w'.log = some log ∧ offset < log.highWatermark ∧
      (offset ∉ log.purgedOffsets → ∀ partition : UInt32,
        readRange env w'.disk log partition offset 1
          = .ok [storedMessage item.1 item.2 partition offset])

theorem World.recoveredAt (hlog : w.log = none) (hstored : Stored fmt shard strict L w.disk)
    (hhistory : L.items <+: w.history) (hfew : w.disk.Few)
    (hget : L.items[offset]? = some item) : RecoveredAt env shard w offset item := by
  intro config requested now
  obtain ⟨w', log, mt, hstep, hlog', -, -, hnext, -, hserves⟩ :=
    open_serves config requested now hlog hstored hhistory hfew
  obtain ⟨hlt, -⟩ := List.getElem?_eq_some_iff.mp hget
  exact ⟨w', log, hstep, hlog', hnext ▸ hlt, hserves.read_one hget⟩

/-! ## Torn tails -/

/-- A crash takes the process and adds at most the records of the operation it struck. -/
theorem World.crash_down {w w₁ : World} {crash : Event} (hlog : w.log = some log)
    (hcrash : ∀ action, crash ≠ .run action) (hdown : w.step env shard crash = some w₁) :
    w₁.log = none ∧ w.history <+: w₁.history := by
  cases crash with
  | run action => exact absurd rfl (hcrash action)
  | crash keep =>
    cases hdown
    exact ⟨rfl, prefix_rfl⟩
  | crashDuring action count keep =>
    obtain ⟨⟨trace, w'⟩, hexec, hpoint⟩ := bind_eq_some_iff.mp hdown
    obtain ⟨d, -, rfl⟩ := map_eq_some_iff.mp hpoint
    refine ⟨rfl, ?_⟩
    cases action with
    | openLog config requested now => simp [World.exec, hlog] at hexec
    | call op =>
      obtain ⟨log', -, hresult⟩ := map_eq_some_iff.mp hexec
      cases hresult
      exact prefix_append _ _
    | close =>
      obtain ⟨log', -, hresult⟩ := map_eq_some_iff.mp hexec
      cases hresult
      exact prefix_rfl

theorem World.Holds.stored (hlog : w.log = none) (h : w.Holds (some fmt) shard strict L) :
    Stored fmt shard strict L w.disk ∧ L.items <+: w.history := by
  unfold World.Holds at h
  rw [hlog] at h
  exact ⟨h.1.stored, h.2⟩

/-- **A crash of an open log loses no committed record.** Whatever the run before it, and wherever
in an operation the crash strikes, the next open succeeds, recovers at least the committed records
and at most the appended ones, and serves exactly what it recovered. -/
theorem reopen_after_crash (henv : env.InPlace) {events : List Event} {w w₁ : World}
    {log : PartitionLog} {crash : Event}
    (hrun : Run (World.step env shard) (EventOk env shard true) .fresh events w)
    (hlog : w.log = some log) (hcrash : ∀ action, crash ≠ .run action)
    (hok : EventOk env shard true w crash) (hdown : w.step env shard crash = some w₁)
    (hfew : w₁.disk.Few) (config : PartitionLogConfig) (requested : UInt16)
    (now : Nat) :
    log.highWatermark = w.history.length ∧ w.history <+: w₁.history ∧
    ∃ w₂ log₂ mt, w₁.step env shard (.run (.openLog config requested now)) = some w₂ ∧
      w₂.log = some log₂ ∧ w₁.disk.savedMeta = some mt ∧
      log.committedHwm ≤ log₂.highWatermark ∧ log₂.highWatermark ≤ w₁.history.length ∧
      ∀ (partition : UInt32) (start max : Nat), readRange env w₂.disk log₂ partition start max
          = .ok ((visible start mt.purgedOffsets
              (messagesFrom partition 0 (w₁.history.take log₂.highWatermark))).take max) := by
  obtain ⟨L, hholds, -⟩ := run_holds henv (fresh_holds env.codec shard true) hrun
  obtain ⟨fmt, hopen, hlive, hitems⟩ := hholds.of_open hlog
  obtain ⟨hnone, hhistory⟩ := crash_down hlog hcrash hdown
  obtain ⟨L₁, hholds₁, hgrows⟩ := step_holds henv hopen hok hdown
  obtain ⟨hstored, hstarts⟩ := hholds₁.stored hnone
  obtain ⟨w₂, log₂, mt, hstep, hlog₂, hmeta, hpurged, hnext, -, hserves⟩ :=
    open_serves config requested now hnone hstored hstarts hfew
  refine ⟨?_, hhistory, w₂, log₂, mt, hstep, hlog₂, hmeta, ?_, ?_, ?_⟩
  · rw [← hitems, L.length_items]
    exact hlive.nextOffset
  · -- committed records are fsynced, and fsynced records survive the crash
    calc log.committedHwm ≤ L.durableFrames.length := hlive.committed rfl
      _ ≤ L₁.durableFrames.length := hgrows.durable.length_le
      _ ≤ L₁.items.length := by
        rw [L₁.length_items]
        exact L₁.durableFrames_prefix.length_le
      _ = log₂.highWatermark := hnext.symm
  · rw [hnext]
    exact hstarts.length_le
  · intro partition start max
    rw [hserves, hpurged, hnext, ← prefix_iff_eq_take.mp hstarts]

/-! ### Concrete logs -/

/-- A record with nothing optional in it. -/
def plainRecord (id : Nat) : LogRecord where
  id := BitVec.ofNat 128 id
  tenantId := "t"
  topic := "orders"
  routingKey := "k"
  idempotencyKey := none
  publishedAtMs := 0
  priority := defaultPriority
  flowParallelism := none
  flowKey := none
  flowRate := none
  flowPeriodSecs := none
  queueId := none
  groupId := none
  groupMemberId := none
  flowProfileId := none
  destinationUrl := none
  destinationSecret := none
  maxRetries := defaultMaxRetries
  retryBackoff := none
  httpMethod := none
  httpHeadersJson := none
  httpSign := none
  payloadRefJson := none

/-- The program as it is linked, with segments under a relative path. -/
def linkedEnv (archive : Bool) : Env where
  codec := Bincode.codec
  archive := archive
  displayPath name := name.map fun ch => UInt8.ofNat ch.toNat
  allowEmptyMetadataRecovery := false

/-- The same, with its segments kept in place. -/
abbrev localEnv : Env := linkedEnv false

/-- Its runs on one shard. -/
abbrev LocalRun (strict : Bool) : World → List Event → World → Prop :=
  Run (World.step localEnv 0) (EventOk localEnv 0 strict)

theorem localEnv_inPlace : localEnv.InPlace := ⟨Bincode.codec_lawful, rfl⟩

/-- Append the record `id` with a one-byte payload. -/
def appendPlain (id : Nat) : LogOp := .append 0 (plainRecord id) [UInt8.ofNat id] none

/-- A new log is opened, and the records from 1 to `n` are appended. -/
def appends (config : PartitionLogConfig) (n : Nat) : List Event :=
  .run (.openLog config 2 0) :: (range n).map fun i => .run (.call (appendPlain (i + 1)))

/-- A log that rolls only when a gigabyte is reached. -/
def unrolled (fsync : FsyncMode) : PartitionLogConfig := ⟨2 ^ 30, fsync⟩

/-- A log that rolls after every append. -/
def rolling (fsync : FsyncMode) : PartitionLogConfig := ⟨1, fsync⟩

/-- A synced record and an unsynced one whose epoch is cut in its header: the open recovers the
first. -/
theorem reopen_after_torn_append :
    ∃ w log w₁, LocalRun true .fresh
        (appends (unrolled .group) 1 ++ [.run (.call .sync), .run (.call (appendPlain 2))]) w ∧
      w.log = some log ∧ log.committedHwm = 1 ∧
      w.step localEnv 0 (.crash fun _ => 180) = some w₁ ∧
      log.highWatermark = w.history.length ∧ w.history <+: w₁.history ∧
      ∃ w₂ log₂ mt, w₁.step localEnv 0 (.run (.openLog (unrolled .always) 2 1)) = some w₂ ∧
        w₂.log = some log₂ ∧ w₁.disk.savedMeta = some mt ∧
        log.committedHwm ≤ log₂.highWatermark ∧ log₂.highWatermark ≤ w₁.history.length ∧
        ∀ (partition : UInt32) (start max : Nat),
          readRange localEnv w₂.disk log₂ partition start max = .ok ((visible start mt.purgedOffsets
                (messagesFrom partition 0 (w₁.history.take log₂.highWatermark))).take max) := by
  obtain ⟨w, log, hrun, hlog, hcommitted, hfew⟩ : ∃ w log,
      LocalRun true .fresh
        (appends (unrolled .group) 1 ++ [.run (.call .sync), .run (.call (appendPlain 2))]) w ∧
      w.log = some log ∧ log.committedHwm = 1 ∧ w.disk.Few := by
    decide +kernel
  have hcrash : w.step localEnv 0 (.crash fun _ => 180)
      = some ⟨w.disk.crash fun _ => 180, none, w.history⟩ := rfl
  have hsegments : (w.disk.crash fun _ => 180).Few := by
    rw [Disk.Few, Disk.crash, length_map]
    exact hfew
  have hok : EventOk localEnv 0 true w (.crash fun _ => 180) := fun h => by cases h
  have hnot : ∀ action, Event.crash (fun _ => 180) ≠ .run action := by
    intro action h
    cases h
  exact ⟨w, log, _, hrun, hlog, hcommitted, hcrash,
    reopen_after_crash localEnv_inPlace hrun hlog hnot hok hcrash hsegments (unrolled .always) 2 1⟩

/-- With an archive backend, one rolled segment is enough for the next open to fail: the marker
written beside the segment is scanned as if it were one. -/
theorem archive_marker_blocks_reopen :
    ∃ w w₁ w₂, AnyRun (World.step (linkedEnv true) 0) .fresh (appends (rolling .always) 1) w ∧
      w.log.isSome = true ∧ w.step (linkedEnv true) 0 (.crash fun _ => 0) = some w₁ ∧
      w₁.step (linkedEnv true) 0 (.run (.openLog (rolling .always) 2 1)) = some w₂ ∧
      w₂.log = none := by
  decide +kernel

/-! ## Sealed segments -/

/-- The records of the sealed files, as the recovery scan counts them. -/
def Disk.sealedCount (env : Env) (d : Disk) : Nat :=
  match d.manifest with
  | .valid m =>
    match scanSegments env m [] d with
    | .ok (count, _) => count
    | .error _ => 0
  | _ => 0

theorem OnDisk.sealedCount_eq (h : OnDisk fmt m strict L tail d)
    (hfew : d.Few) : d.sealedCount env = L.base := by
  obtain ⟨gs, hloop, -⟩ := h.scanned (h.segments_length ▸ hfew) []
  simp only [Disk.sealedCount, h.manifest, hloop]

theorem OnDisk.read_kept {c : Codec} {m' : WalManifest} {L L' : Layout c} {tail' : Bytes}
    {d' : Disk} (h : OnDisk fmt m strict L tail d) (h' : OnDisk fmt m' strict L' tail' d')
    (hshard : m'.shardId = m.shardId) (hgrows : L.Grows L') :
    ∀ f ∈ d.segments, d'.read (.segment f.1) = some f.2.bytes := by
  intro f hf
  have hmem : (f.1, f.2.bytes) ∈ segmentFiles fmt m.shardId 0 L.sealed := by
    rw [← h.segments]
    exact mem_map_of_mem (f := fun f => (f.1, f.2.bytes)) hf
  obtain ⟨more, hmore⟩ := hgrows.sealed
  refine h'.read_segment (f.1, f.2.bytes) ?_
  rw [← hmore, segmentFiles_append, hshard]
  exact mem_append_left _ hmem

/-- A world that a run from the beginning reaches is untouched, or its format is known. -/
theorem World.Holds.cases_format (h : w.Holds none shard strict L) :
    w.disk = .fresh ∨ ∃ fmt, w.Holds (some fmt) shard strict L := by
  cases hlog : w.log with
  | some log =>
    obtain ⟨fmt, hopen, -⟩ := h.of_open hlog
    exact .inr ⟨fmt, hopen⟩
  | none =>
    unfold World.Holds at h ⊢
    rw [hlog] at h ⊢
    obtain ⟨⟨-, hfresh, -⟩ | ⟨fmt, -, hstored⟩, hhistory⟩ := h
    · exact .inl hfresh
    · exact .inr ⟨fmt, .inr ⟨fmt, by simp, hstored⟩, hhistory⟩

/-- **Sealed segments are never lost.** No step of a run that meets the conditions overwrites or
cuts a sealed file, and every later open serves the records it held. -/
theorem sealed_readable_after_reopen (henv : env.InPlace) {before after : List Event} {w w' : World}
    (hbefore : Run (World.step env shard) (EventOk env shard false) .fresh before w)
    (hafter : Run (World.step env shard) (EventOk env shard false) w after w') :
    (∀ f ∈ w.disk.segments, w'.disk.read (.segment f.1) = some f.2.bytes) ∧
    (w'.log = none → w'.disk.Few → ∀ offset < w.disk.sealedCount env,
      ∃ item, w.history[offset]? = some item ∧ RecoveredAt env shard w' offset item) := by
  obtain ⟨L, hholds, -⟩ := run_holds henv (fresh_holds env.codec shard false) hbefore
  rcases hholds.cases_format with hfresh | ⟨fmt, hknown⟩
  · rw [hfresh]
    exact ⟨by simp [Disk.fresh], fun _ _ offset hoffset => absurd hoffset (Nat.not_lt_zero _)⟩
  obtain ⟨L', hholds', hgrows⟩ := run_holds henv hknown hafter
  obtain ⟨hidle, hhistory⟩ := hknown.idle
  obtain ⟨hidle', hhistory'⟩ := hholds'.idle
  obtain ⟨m, tail, hdisk, hshard, -⟩ := hidle.stored
  have hstored' := hidle'.stored
  obtain ⟨m', tail', hdisk', hshard', -⟩ := hstored'
  refine ⟨hdisk.read_kept hdisk' (hshard'.trans hshard.symm) hgrows, ?_⟩
  intro hdown hfew offset hoffset
  have hcount : w.disk.sealedCount env = L.base := by
    refine hdisk.sealedCount_eq ?_
    rw [Disk.Few, hdisk.segments_length]
    rw [Disk.Few, hdisk'.segments_length] at hfew
    exact hgrows.sealed.length_le.trans hfew
  rw [hcount] at hoffset
  have hlt : offset < L.items.length := by
    rw [L.length_items, L.length_frames]
    omega
  -- the sealed records are the first ones of both layouts
  have hkept : L'.items[offset]? = some L.items[offset] := by
    have hsealed : ((sealedRecords L.sealed).map Frame.item)[offset]? = some L.items[offset] := by
      rw [← getElem?_eq_getElem hlt, Layout.items, Layout.frames, map_append,
        getElem?_append_left (by rw [length_map]; exact hoffset)]
    obtain ⟨more, hmore⟩ := hgrows.sealed
    refine getElem?_of_isPrefix ?_ hsealed
    rw [Layout.items, Layout.frames, ← hmore, sealedRecords_append, append_assoc, map_append]
    exact prefix_append _ _
  exact ⟨L.items[offset], getElem?_of_isPrefix hhistory (getElem?_eq_getElem hlt),
    World.recoveredAt hdown hidle'.stored hhistory' hfew hkept⟩

/-- A record sealed by a roll is still there after another roll and a clean close. -/
theorem sealed_record_recovered :
    ∃ w w' item, LocalRun false .fresh (appends (rolling .always) 1) w ∧
      LocalRun false w [.run (.call (appendPlain 2)), .run .close] w' ∧
      (∀ f ∈ w.disk.segments, w'.disk.read (.segment f.1) = some f.2.bytes) ∧
      w.history[0]? = some item ∧ RecoveredAt localEnv 0 w' 0 item := by
  obtain ⟨w, w', hbefore, hsealed, hafter, hdown, hfew⟩ : ∃ w w',
      LocalRun false .fresh (appends (rolling .always) 1) w ∧
      0 < w.disk.sealedCount localEnv ∧
      LocalRun false w [.run (.call (appendPlain 2)), .run .close] w' ∧
      w'.log = none ∧ w'.disk.Few := by decide +kernel
  obtain ⟨hfiles, hrecords⟩ :=
    sealed_readable_after_reopen localEnv_inPlace hbefore hafter
  obtain ⟨item, hitem, hrecovered⟩ := hrecords hdown hfew 0 hsealed
  exact ⟨w, w', item, hbefore, hafter, hfiles, hitem, hrecovered⟩

/-- A crash between the rename of a roll and the save of `meta.json`: the next roll renames the WAL
onto the sealed segment, and the record it held is gone. -/
theorem interrupted_roll_overwrites_segment :
    ∃ w w' f, AnyRun (World.step localEnv 0) .fresh [.run (.openLog (rolling .always) 2 0),
          .crashDuring (.call (appendPlain 1)) 5 fun _ => 1000] w ∧
      AnyRun (World.step localEnv 0) w
        [.run (.openLog (rolling .always) 2 1), .run (.call (appendPlain 2))] w' ∧
      f ∈ w.disk.segments ∧ w.disk.sealedCount localEnv = 1 ∧
      w'.disk.read (.segment f.1) ≠ some f.2.bytes := by
  decide +kernel

/-! ## Committed records -/

/-- **A clean shutdown loses nothing**, in any fsync mode and whatever crashes came before: the next
open has every record of the closed log, fsynced or not, and serves them. -/
theorem close_keeps_all_records (henv : env.InPlace) (events : List Event)
    (hrun : Run (World.step env shard) (EventOk env shard false)
      .fresh (events ++ [.run .close]) w) (hfew : w.disk.Few)
    (config : PartitionLogConfig) (requested : UInt16) (now : Nat) :
    ∃ w' log, w.step env shard (.run (.openLog config requested now)) = some w' ∧
      w'.log = some log ∧ w'.history = w.history ∧ Serves env w'.disk log w.history := by
  obtain ⟨w₀, hbefore, hlast⟩ := hrun.split
  obtain _ | ⟨-, hclose, ⟨⟩⟩ := hlast
  obtain ⟨L, hholds, -⟩ := run_holds henv (fresh_holds env.codec shard false) hbefore
  obtain ⟨r, hexec, rfl⟩ := map_eq_some_iff.mp hclose
  obtain ⟨log, hlog, rfl⟩ := map_eq_some_iff.mp hexec
  simp only [World.Holds, hlog] at hholds
  obtain ⟨fmt, -, hlive, rfl, hitems⟩ := hholds
  -- the drop flushes and checkpoints, and neither takes a record away
  obtain ⟨L', hstep, hframes⟩ := dropLog_step hlive
  have hsame : L'.items = w₀.history := by rw [← hitems, Layout.items, hframes, Layout.items]
  obtain ⟨w', log', -, hopen, hlog', -, -, -, hhistory, hserves⟩ := open_serves config requested now
    rfl ⟨_, [], hstep.live.onDisk, congrArg _ hstep.manifest, .inl hstep.live.rollSaved⟩
    (hsame ▸ prefix_rfl) hfew
  exact ⟨w', log', hopen, hlog', hhistory.trans hsame, hsame ▸ hserves⟩

theorem unsynced_record_survives_close : ∃ w,
    LocalRun false .fresh (appends (unrolled .os) 1 ++ [.run .close]) w ∧
    w.disk.Few ∧ ∃ w' log,
      w.step localEnv 0 (.run (.openLog (unrolled .os) 2 1)) = some w' ∧
      w'.log = some log ∧ w'.history = w.history ∧
      Serves localEnv w'.disk log w.history := by
  exact Exists.imp (fun _ => and_imp_of fun hrun => and_of fun hfew =>
    close_keeps_all_records localEnv_inPlace _ hrun hfew (unrolled .os) 2 1)
    (by decide +kernel)

end BetterMQ
