import BetterMQ.Proto.Epoch
import BetterMQ.Storage.Disk

/-!
# The partition log (`broker-storage/src/log.rs`)

The log of one partition: the append paths, the roll of `active.wal` into a sealed segment,
fsync, reads, garbage collection, and the recovery scan that `open_for_shard` runs. Methods are
programs over `Sys` (the directory with its trace, and the in-memory log); loops of the source
that read a file run on the bytes left in it, with the file's length as fuel.
-/

namespace BetterMQ

/-! ## State -/

inductive FsyncMode where
  /-- Sync and persist `meta.json` after every record. -/
  | always
  /-- Write without fsync; flush on a timer, at request end, roll, or drop. -/
  | group
  /-- No explicit fsync. -/
  | os
  deriving DecidableEq

structure PartitionLogConfig where
  /-- Roll the WAL into a segment when it exceeds this many bytes. -/
  segmentMaxBytes : Nat
  fsync : FsyncMode
  deriving DecidableEq

structure LogPosition where
  path : LogPath
  byteOffset : Nat
  deriving DecidableEq

abbrev Index := KeyMap LogPosition

structure SparsePoint where
  offset : Nat
  byteOffset : Nat
  deriving DecidableEq

structure SegmentIndex where
  path : LogPath
  firstOffset : Nat
  lastOffset : Nat
  points : List SparsePoint
  deriving DecidableEq

inductive LogError where
  | record (error : RecordError)
  | epoch (error : EpochError)
  | io (error : IoError)
  | offsetMismatch (held want : Nat)
  | staleFence (ours stored : Nat)
  | corruptSegment (path : LogPath) (offset : Nat) (source : RecordError)
  /-- Only the SlateDB log answers with it. -/
  | offsetNotFound (offset : Nat)
  deriving DecidableEq

structure PartitionLog extends logMeta : LogMeta, manifest : WalManifest where
  config : PartitionLogConfig
  walSize : Nat
  /-- Full index, bounded to the active WAL. -/
  index : Index
  sealedIndexes : List SegmentIndex
  activeBaseOffset : Nat
  dirty : Bool
  /-- Last offset exclusive that has been fsynced. -/
  committedHwm : Nat
  flushCount : Nat
  failNextSync : Bool
  deriving DecidableEq

/-- What the code takes from its environment. -/
structure Env where
  codec : Codec
  /-- An archive backend is configured, so sealed segments get a pending marker. -/
  archive : Bool
  /-- `path.display()` of a file under `segments/`. -/
  displayPath : FileName → Bytes
  allowEmptyMetadataRecovery : Bool

/-- What results about runs assume: the codec reads what it writes, and sealed segments stay where
they are. -/
structure Env.InPlace (env : Env) : Prop where
  lawful : env.codec.Lawful
  archive : env.archive = false

/-- A log and its directory. -/
structure Sys extends Store, log : PartitionLog
  deriving DecidableEq

/-- The log at the start of a call. -/
abbrev Disk.sys (d : Disk) (log : PartitionLog) : Sys := ⟨⟨d, []⟩, log⟩

abbrev LogM := Prog Sys LogError

def Sys.put (s : Sys) (d : Disk) : Sys := { s with toStore := s.toStore.put d }

def Sys.withLog (s : Sys) (f : PartitionLog → PartitionLog) : Sys := { s with log := f s.log }

/-- Run a change of the in-memory log. -/
def modifyLog (f : PartitionLog → PartitionLog) : LogM Unit := Prog.modify fun s => s.withLog f

/-- Run one file operation. -/
def modifyDisk (f : Disk → Disk) : LogM Unit := Prog.modify fun s => s.put (f s.disk)

def getLog : LogM PartitionLog := fun s => (.ok s.log, s)

/-- `meta.save_with`. The document is replaced atomically in either mode. -/
def saveMeta : LogM Unit := Prog.modify fun s => s.put (s.disk.saveMeta s.logMeta)

section Steps

variable {α : Type} (s : Sys)

@[simp] theorem getLog_bind (k : PartitionLog → LogM α) : (getLog >>= k) s = k s.log s := rfl

@[simp] theorem modifyLog_apply (f : PartitionLog → PartitionLog) :
    modifyLog f s = (.ok (), s.withLog f) := rfl

@[simp] theorem modifyLog_bind (f : PartitionLog → PartitionLog) (k : Unit → LogM α) :
    (modifyLog f >>= k) s = k () (s.withLog f) := rfl

@[simp] theorem modifyDisk_bind (f : Disk → Disk) (k : Unit → LogM α) :
    (modifyDisk f >>= k) s = k () (s.put (f s.disk)) := rfl

@[simp] theorem saveMeta_bind (k : Unit → LogM α) :
    (saveMeta >>= k) s = k () (s.put (s.disk.saveMeta s.logMeta)) := rfl

end Steps

def isV2 (manifest : WalManifest) : Bool := manifest.walFormatVersion = walFormatV2

def PartitionLog.highWatermark (log : PartitionLog) : Nat := log.nextOffset

/-! ## The recovery scan -/

inductive FileEffect where
  | keep
  | truncate (len : Nat)
  | quarantine
  deriving DecidableEq

/-- What scanning a file gives: the index, what to do to the file, the next offset. -/
structure ScanOutcome where
  index : Index
  effect : FileEffect
  result : Except LogError Nat

section Scan

variable (c : Codec) (purged : List Nat) (path : LogPath) (truncateTornTail : Bool)

/-- Index one scanned record unless its offset is tombstoned. -/
def indexScanned (index : Index) (offset byteOffset : Nat) : Index :=
  if offset ∈ purged then index else index.insert offset ⟨path, byteOffset⟩

/-- The loop of `scan_v1_file`; `rest` is what the reader has left of `len` bytes. -/
def scanV1Loop (len : Nat) : Nat → Index → Nat → Bytes → ScanOutcome
  | 0, index, next, _ => ⟨index, .keep, .ok next⟩
  | fuel + 1, index, next, rest =>
    if rest = [] then ⟨index, .keep, .ok next⟩
    else
      let frameStart := len - rest.length
      match decodeFrame c rest with
      | (.ok _, rest') =>
        scanV1Loop len fuel (indexScanned purged path index next frameStart) (next + 1) rest'
      | (.error (.io .unexpectedEof), _) =>
        ⟨index, if truncateTornTail then .truncate frameStart else .keep, .ok next⟩
      | (.error e, rest') =>
        if rest' ≠ [] then ⟨index, .quarantine, .error (.corruptSegment path next e)⟩
        else ⟨index, .keep, .ok next⟩

/-- The frames of one epoch body; `base` is where the body starts in the file. -/
def scanFrames (base bodyLen : Nat) :
    Nat → Index → Nat → Bytes → Except LogError (Index × Nat × Bytes)
  | 0, index, next, rest => .ok (index, next, rest)
  | n + 1, index, next, rest =>
    match decodeFrame c rest with
    | (.error e, _) => .error (.corruptSegment path next e)
    | (.ok _, rest') =>
      scanFrames base bodyLen n
        (indexScanned purged path index next (base + (bodyLen - rest.length))) (next + 1) rest'

/-- The loop of `scan_v2_file`. -/
def scanV2Loop (shardId : UInt32) (len : Nat) : Nat → Index → Nat → Bytes → ScanOutcome
  | 0, index, next, _ => ⟨index, .keep, .ok next⟩
  | fuel + 1, index, next, rest =>
    if rest = [] then ⟨index, .keep, .ok next⟩
    else
      let epochStart := len - rest.length
      match decodeEpoch c rest with
      | (.error e, _) =>
        if e = .io .unexpectedEof then
          if truncateTornTail then ⟨index, .truncate epochStart, .ok next⟩
          else ⟨index, .keep, .error (.epoch e)⟩
        else if truncateTornTail ∧ len - epochStart < epochHeaderBytes then
          ⟨index, .truncate epochStart, .ok next⟩
        else ⟨index, .quarantine, .error (.epoch e)⟩
      | (.ok (epoch, body), rest') =>
        let shard := epoch.shardId
        let first := epoch.firstOffset
        let count := epoch.recordCount
        let hwm := epoch.committedHwm
        if shard ≠ shardId.toNat ∨ first ≠ next ∨ hwm ≠ satAdd64 first count then
          ⟨index, .quarantine, .error (.io (.invalidData
            s!"invalid epoch: shard={shard} first={first} count={count} hwm={hwm}"))⟩
        else
          match scanFrames c purged path (epochStart + epochHeaderBytes) body.length count index
              next body with
          | .error e => ⟨index, .keep, .error e⟩
          | .ok (index', next', left) =>
            if left ≠ [] ∨ next' ≠ hwm then
              ⟨index', .quarantine, .error (.io (.invalidData
                "epoch record count/length mismatch"))⟩
            else scanV2Loop shardId len fuel index' next' rest'

def scanFile (manifest : WalManifest) (index : Index) (next : Nat) (bytes : Bytes) :
    ScanOutcome :=
  let version := manifest.walFormatVersion
  if version = walFormatV1 then
    scanV1Loop c purged path truncateTornTail bytes.length bytes.length index next bytes
  else if version = walFormatV2 then
    scanV2Loop c purged path truncateTornTail manifest.shardId bytes.length bytes.length index
      next bytes
  else ⟨index, .keep, .error (.io (.invalidData s!"unsupported WAL format {version}"))⟩

end Scan

/-! ## Sparse indexes of sealed segments -/

def defaultSparseIndexStride : Nat := 128

/-- The V1 walk of `build_sparse_index` over `n` frames. -/
def sparsePointsV1 (c : Codec) (first len : Nat) :
    Nat → Nat → Bytes → Except LogError (List SparsePoint)
  | 0, _, _ => .ok []
  | n + 1, offset, rest =>
    match decodeFrame c rest with
    | (.error e, _) => .error (.record e)
    | (.ok _, rest') => do
      let points ← sparsePointsV1 c first len n (offset + 1) rest'
      .ok (if (offset - first) % defaultSparseIndexStride = 0 then
        ⟨offset, len - rest.length⟩ :: points else points)

/-- The V2 walk of `build_sparse_index`. -/
def sparsePointsV2 (c : Codec) (first len : Nat) :
    Nat → Bytes → Except LogError (List SparsePoint)
  | 0, _ => .ok []
  | fuel + 1, rest =>
    if rest = [] then .ok []
    else
      match decodeEpoch c rest with
      | (.error e, _) => .error (.epoch e)
      | (.ok (epoch, _), rest') => do
        let points ← sparsePointsV2 c first len fuel rest'
        let here := (List.range' epoch.firstOffset (epoch.committedHwm - epoch.firstOffset)).filter
          fun offset => (offset - first) % defaultSparseIndexStride = 0
        .ok (here.map (fun offset => ⟨offset, len - rest.length⟩) ++ points)

def buildSparseIndex (c : Codec) (manifest : WalManifest) (path : LogPath)
    (firstOffset lastOffset : Nat) (bytes : Bytes) : Except LogError SegmentIndex := do
  let version := manifest.walFormatVersion
  let points ←
    if version = walFormatV1 then
      sparsePointsV1 c firstOffset bytes.length (lastOffset - firstOffset) firstOffset bytes
    else if version = walFormatV2 then
      sparsePointsV2 c firstOffset bytes.length bytes.length bytes
    else .error (.io (.invalidData s!"unsupported WAL format {version}"))
  .ok ⟨path, firstOffset, lastOffset, if points = [] then [⟨firstOffset, 0⟩] else points⟩

/-! ## Reads -/

section Reads

variable (c : Codec) (purged : List Nat) (partition : UInt32) (startOffset maxMessages : Nat)

/-- The V1 loop of `read_sparse_segment` over the `n` offsets up to the segment's end. -/
def readSparseV1 :
    Nat → Nat → Bytes → List StoredMessage → Except LogError (List StoredMessage)
  | 0, _, _, out => .ok out
  | n + 1, offset, rest, out =>
    if out.length < maxMessages then
      match decodeFrame c rest with
      | (.error e, _) => .error (.record e)
      | (.ok (header, payload), rest') =>
        readSparseV1 n (offset + 1) rest' (if startOffset ≤ offset ∧ offset ∉ purged then
            out ++ [storedMessage header payload partition offset] else out)
    else .ok out

/-- The records of one epoch body, `n` of them from `offset` on. -/
def readEpochFrames (lastOffset : Nat) :
    Nat → Nat → Bytes → List StoredMessage → Except LogError (List StoredMessage)
  | 0, _, _, out => .ok out
  | n + 1, offset, rest, out =>
    match decodeFrame c rest with
    | (.error e, _) => .error (.record e)
    | (.ok (header, payload), rest') =>
      if startOffset ≤ offset ∧ offset < lastOffset ∧ offset ∉ purged then
        let out' := out ++ [storedMessage header payload partition offset]
        if out'.length ≥ maxMessages then .ok out'
        else readEpochFrames lastOffset n (offset + 1) rest' out'
      else readEpochFrames lastOffset n (offset + 1) rest' out

/-- The V2 loop of `read_sparse_segment`. -/
def readSparseV2 (lastOffset : Nat) :
    Nat → Bytes → List StoredMessage → Except LogError (List StoredMessage)
  | 0, _, out => .ok out
  | fuel + 1, rest, out =>
    if out.length < maxMessages then
      if rest = [] then .ok out
      else
        match decodeEpoch c rest with
        | (.error e, _) => .error (.epoch e)
        | (.ok (epoch, body), rest') =>
          if epoch.firstOffset ≥ lastOffset then .ok out
          else do
            let out' ← readEpochFrames c purged partition startOffset maxMessages lastOffset
              (epoch.committedHwm - epoch.firstOffset) epoch.firstOffset body out
            readSparseV2 lastOffset fuel rest' out'
    else .ok out

/-- The sparse point a read starts from: the last one at or before the start offset. -/
def startPoint (points : List SparsePoint) : SparsePoint :=
  (points.reverse.find? fun point => point.offset ≤ startOffset).getD (points.headD ⟨0, 0⟩)

def readSparseSegment (manifest : WalManifest) (segment : SegmentIndex) (d : Disk)
    (out : List StoredMessage) : Except LogError (List StoredMessage) :=
  let point := startPoint startOffset segment.points
  match d.read segment.path with
  | none => .error (.io .notFound)
  | some bytes =>
    let rest := bytes.drop point.byteOffset
    if isV2 manifest then
      readSparseV2 c purged partition startOffset maxMessages segment.lastOffset rest.length rest
        out
    else
      readSparseV1 c purged partition startOffset maxMessages (segment.lastOffset - point.offset)
        point.offset rest out

/-- The sealed segments of `read_range`, stopping once enough messages are read. -/
def readSealed (manifest : WalManifest) (d : Disk) :
    List SegmentIndex → List StoredMessage → Except LogError (List StoredMessage)
  | [], out => .ok out
  | segment :: segments, out => do
    let out' ← readSparseSegment c purged partition startOffset maxMessages manifest segment d out
    if out'.length ≥ maxMessages then .ok out' else readSealed manifest d segments out'

end Reads

def readAt (c : Codec) (d : Disk) (pos : LogPosition) : Except LogError Item :=
  match d.read pos.path with
  | none => .error (.io .notFound)
  | some bytes => (decodeFrame c (bytes.drop pos.byteOffset)).1.mapError .record

/-- The entries of the active index, up to `maxMessages` in all. -/
def readActive (c : Codec) (d : Disk) (partition : UInt32) (maxMessages : Nat) :
    Index → List StoredMessage → Except LogError (List StoredMessage)
  | [], out => .ok out
  | (offset, pos) :: entries, out =>
    if out.length ≥ maxMessages then .ok out
    else do
      let (header, payload) ← readAt c d pos
      readActive c d partition maxMessages entries
        (out ++ [storedMessage header payload partition offset])

def readRange (env : Env) (d : Disk) (log : PartitionLog) (partition : UInt32)
    (startOffset maxMessages : Nat) : Except LogError (List StoredMessage) := do
  let out ← readSealed env.codec log.purgedOffsets partition startOffset maxMessages
    log.manifest d (log.sealedIndexes.filter fun segment => segment.lastOffset > startOffset) []
  -- with enough messages read already, the loop below stops before its first entry
  readActive env.codec d partition maxMessages (log.index.range startOffset) out

/-! ## Durability -/

def flushDurable : LogM Unit := do
  let log ← getLog
  if log.dirty = false then pure ()
  else if log.failNextSync then do
    modifyLog fun log => { log with failNextSync := false }
    Prog.fail (.io (.other "injected fsync failure"))
  else do
    if log.config.fsync ≠ .os then modifyDisk Disk.syncWal
    modifyLog fun log =>
      { log with
        committedHwm := log.nextOffset
        flushCount := satAdd64 log.flushCount 1 }
    let log ← getLog
    if log.config.fsync = .always ∨ log.flushCount % 32 = 0 then saveMeta
    modifyLog fun log => { log with dirty := false }

def afterWrite : LogM Unit := do
  modifyLog fun log => { log with dirty := true }
  let log ← getLog
  match log.config.fsync with
  | .always => flushDurable
  | .group | .os => pure ()

def sync : LogM Unit := flushDurable

/-- `flush_if_due`; `due` says whether the group interval has elapsed. -/
def flushIfDue (due : Bool) : LogM Unit := do
  let log ← getLog
  if log.config.fsync ≠ .group ∨ log.dirty = false then pure ()
  else if due then flushDurable
  else pure ()

def injectFsyncFailure : LogM Unit := modifyLog fun log => { log with failNextSync := true }

/-! ## Rolling -/

/-- `enqueue_sealed_segment`: with an archive backend, a marker is written beside the segment. -/
def enqueueSealedSegment (env : Env) (name : FileName) : LogM Unit := fun s =>
  if env.archive = true ∧ s.disk.segments.all (fun f => f.1 ≠ pendingMarker name) then
    let bytes := env.displayPath name ++ [10]
    (.ok (), s.put (s.disk.putSegment (pendingMarker name) ⟨bytes, bytes.length⟩))
  else (.ok (), s)

/-- The in-memory part of a roll, once the segment is renamed and `meta.json` is saved. -/
def sealActive (env : Env) (name : FileName) : LogM Unit := fun s =>
  let log := s.log
  let sealed : Except LogError (List SegmentIndex) :=
    if log.nextOffset > log.activeBaseOffset then
      match s.disk.read (.segment name) with
      | none => .error (.io .notFound)
      | some bytes => do
        let segment ← buildSparseIndex env.codec log.manifest (.segment name)
          log.activeBaseOffset log.nextOffset bytes
        .ok (log.sealedIndexes ++ [segment])
    else .ok log.sealedIndexes
  match sealed with
  | .error e => (.error e, s)
  | .ok sealedIndexes =>
    (.ok (), s.withLog fun log =>
      { log with
        sealedIndexes := sealedIndexes
        index := log.index.filter fun e => e.2.path ≠ .wal
        activeBaseOffset := log.nextOffset })

def renameWal (name : FileName) : LogM Unit := fun s =>
  match s.disk.wal with
  | none => (.error (.io .notFound), s)
  | some file => (.ok (), s.put (s.disk.sealWal name file))

def rollSegment (env : Env) : LogM Unit := do
  let log ← getLog
  if log.walSize = 0 then pure ()
  else do
    let name := segmentName log.segmentRollCount
    if log.config.fsync ≠ .os then modifyDisk Disk.syncWal
    renameWal name
    modifyLog fun log =>
      { log with segmentRollCount := log.segmentRollCount + 1 }
    saveMeta
    modifyLog fun log => { log with dirty := false, committedHwm := log.nextOffset }
    sealActive env name
    modifyDisk Disk.createWal
    modifyLog fun log => { log with walSize := 0 }
    enqueueSealedSegment env name

def rollIfFull (env : Env) : LogM Unit := do
  let log ← getLog
  if log.walSize ≥ log.config.segmentMaxBytes then rollSegment env else pure ()

/-! ## Appends -/

def applyFence (fenceGeneration : Option Nat) : LogM Unit := do
  match fenceGeneration with
  | none => pure ()
  | some gen =>
    let log ← getLog
    let stored := log.leaderGeneration
    if gen < stored then Prog.fail (.staleFence gen stored)
    else if gen > stored then
      modifyLog fun log => { log with leaderGeneration := gen, dirty := true }
    else pure ()

/-- Encode the items of a batch, indexing each as it goes: an item that fails to encode leaves
the entries of those before it behind. -/
def encodeItems (env : Env) (partition : UInt32) :
    List Item → Nat → Nat → LogM (List (StoredMessage × Bytes))
  | [], _, _ => pure []
  | (header, payload) :: items, byteOffset, offset => do
    let frame ← Prog.lift ((encodeFrame env.codec header payload).mapError .record)
    modifyLog fun log => { log with index := log.index.insert offset ⟨.wal, byteOffset⟩ }
    let out ← encodeItems env partition items (byteOffset + frame.length) (offset + 1)
    pure ((storedMessage header payload partition offset, frame) :: out)

/-- Write encoded bytes to the WAL and account for `count` new records. -/
def writeRecords (bytes : Bytes) (count : Nat) : LogM Unit := do
  modifyDisk fun d => d.writeWal bytes
  modifyLog fun log =>
    { log with
      walSize := log.walSize + bytes.length
      nextOffset := log.nextOffset + count }

/-- The body of `append_batch`, with `write` for what writes its bytes. -/
def appendBatchBy (write : Bytes → Nat → LogM Unit) (env : Env) (partition : UInt32)
    (items : List Item) (fenceGeneration : Option Nat) : LogM (List (StoredMessage × Bytes)) :=
  if items = [] then pure []
  else do
    applyFence fenceGeneration
    let log ← getLog
    let firstOffset := log.nextOffset
    let epochHead := if isV2 log.manifest then epochHeaderBytes else 0
    let out ← encodeItems env partition items (log.walSize + epochHead) firstOffset
    let buf := out.flatMap fun e => e.2
    let log ← getLog
    if isV2 log.manifest then do
      let epoch := EpochHeader.v2 env.codec log.shardId.toNat
        log.leaderGeneration firstOffset (out.length % 2 ^ 32) buf
      let encoded ← Prog.lift ((encodeEpoch epoch buf).mapError .epoch)
      write encoded out.length
    else write buf out.length
    afterWrite
    rollIfFull env
    pure out

def appendBatch := appendBatchBy writeRecords

/-- The result of a single-record batch. -/
def popSingle {α : Type} (out : List α) : LogM α :=
  match out.getLast? with
  | some e => pure e
  | none => Prog.fail (.io (.other "empty result from single-record epoch append"))

section

variable (env : Env) (partition : UInt32)

/-- The V1 tail of `append_fenced` and `append_raw_frame`: write one frame as it is. -/
def appendFrame (item : Item) (frame : Bytes) : LogM StoredMessage := do
  let log ← getLog
  let offset := log.nextOffset
  let byteOffset := log.walSize
  modifyDisk fun d => d.writeWal frame
  modifyLog fun log =>
    { log with
      index := log.index.insert offset ⟨.wal, byteOffset⟩
      walSize := log.walSize + frame.length
      nextOffset := offset + 1 }
  afterWrite
  rollIfFull env
  pure (storedMessage item.1 item.2 partition offset)

def appendFenced (header : LogRecord) (payload : Bytes)
    (fenceGeneration : Option Nat) : LogM (StoredMessage × Bytes) := do
  applyFence fenceGeneration
  let log ← getLog
  if isV2 log.manifest then do
    let out ← appendBatch env partition [(header, payload)] fenceGeneration
    popSingle out
  else do
    let frame ← Prog.lift ((encodeFrame env.codec header payload).mapError .record)
    let stored ← appendFrame env partition (header, payload) frame
    pure (stored, frame)

def append (header : LogRecord) (payload : Bytes) : LogM (StoredMessage × Bytes) :=
  appendFenced env partition header payload none

/-- The offset check of `append_raw_frame`: the record already stored there on a retry, nothing
when the append may go ahead. -/
def checkExpected (header : LogRecord) :
    Option Nat → LogM (Option StoredMessage)
  | none => pure none
  | some want => fun s =>
    let held := s.nextOffset
    if held > want then
      match readRange env s.disk s.log partition want 1 with
      | .error e => (.error e, s)
      | .ok [] => (.error (.offsetMismatch held want), s)
      | .ok (existing :: _) =>
        if existing.offset = want ∧ existing.id = header.id then (.ok (some existing), s)
        else (.error (.offsetMismatch held want), s)
    else if held < want then (.error (.offsetMismatch held want), s)
    else (.ok none, s)

/-- `append_raw_frame`: a follower appends a frame encoded elsewhere. -/
def appendRawFrame (frame : Bytes) (expectedOffset : Option Nat) : LogM StoredMessage := do
  let (header, payload) ← Prog.lift ((decodeFrame env.codec frame).1.mapError .record)
  let existing ← checkExpected env partition header expectedOffset
  match existing with
  | some stored => pure stored
  | none =>
    let log ← getLog
    if isV2 log.manifest then do
      let out ← appendBatch env partition [(header, payload)] none
      let (stored, _) ← popSingle out
      pure stored
    else appendFrame env partition (header, payload) frame

end

/-! ## Purge and garbage collection -/

def purgeOffset (offset : Nat) : LogM Bool := do
  let log ← getLog
  if offset ∈ log.purgedOffsets ∨ log.nextOffset ≤ offset then pure false
  else do
    let removed := log.index.contains offset ||
      log.sealedIndexes.any fun g => g.firstOffset ≤ offset ∧ offset < g.lastOffset
    modifyLog fun log => { log with index := log.index.erase offset }
    if removed then do
      modifyLog fun log =>
        { log with purgedOffsets := offset :: log.purgedOffsets, dirty := true }
      -- a failed flush is only logged
      if log.config.fsync = .always then fun s => (.ok (), (flushDurable s).2)
    pure removed

/-- A sealed segment is at or below the collection watermark. -/
def collectable (watermark : Nat) (segment : SegmentIndex) : Bool :=
  segment.lastOffset ≤ watermark ∧ segment.lastOffset > 0

def removeFile : LogPath → LogM Unit
  | .segment name => modifyDisk fun d => d.removeSegment name
  | .wal => pure ()

def removeSegments : List SegmentIndex → LogM Unit
  | [] => pure ()
  | segment :: segments => do
    removeFile segment.path
    removeSegments segments

/-- `gc_sealed_below`: the number of deleted segments. -/
def gcSealedBelow (watermark : Nat) : LogM Nat := do
  let log ← getLog
  let current := log.gcWatermark
  if watermark < current then
    Prog.fail (.io (.invalidInput s!"gc watermark {watermark} is below durable {current}"))
  else do
    let victims := log.sealedIndexes.filter (collectable watermark)
    removeSegments victims
    modifyLog fun log =>
      { log with
        sealedIndexes := log.sealedIndexes.filter fun g => !collectable watermark g
        gcWatermark := watermark }
    saveMeta
    pure victims.length

/-! ## Opening and closing -/

/-- The segment loop of `rebuild_from_disk`: the next offset and the sparse indexes. A failed
scan names the file it stopped at and what became of it. -/
def rebuildSegments (env : Env) (manifest : WalManifest) (purged : List Nat) :
    List NamedFile → Nat → List SegmentIndex → Index →
      Except (LogError × LogPath × FileEffect) (Nat × List SegmentIndex × Index)
  | [], next, sealed, index => .ok (next, sealed, index)
  | (name, file) :: files, next, sealed, index =>
    let path := LogPath.segment name
    let scan := scanFile env.codec purged path false manifest index next file.bytes
    match scan.result with
    | .error e => .error (e, path, scan.effect)
    | .ok next' =>
      if next' > next then
        match buildSparseIndex env.codec manifest path next next' file.bytes with
        | .error e => .error (e, path, .keep)
        | .ok segment =>
          rebuildSegments env manifest purged files next' (sealed ++ [segment])
            (scan.index.filter fun e => e.1 < next ∨ next' ≤ e.1)
      else rebuildSegments env manifest purged files next' sealed scan.index

/-- What an open learns from the sealed segments. -/
def scanSegments (env : Env) (manifest : WalManifest) (purged : List Nat) (d : Disk) :
    Except (LogError × LogPath × FileEffect) (Nat × List SegmentIndex × Index) :=
  rebuildSegments env manifest purged d.sortedSegments 0 [] []

/-- What it learns from `active.wal` then. -/
def scanWal (env : Env) (manifest : WalManifest) (purged : List Nat) (d : Disk) (index : Index)
    (base : Nat) : ScanOutcome :=
  scanFile env.codec purged .wal true manifest index base (d.wal.getD .empty).bytes

def Env.loadMeta (env : Env) (d : Disk) : Except IoError LogMeta :=
  LogMeta.loadOrDefault env.allowEmptyMetadataRecovery d

/-- Apply what a scan decided about a file. -/
def Store.applyEffect (st : Store) (now : Nat) (path : LogPath) : FileEffect → Store
  | .keep => st
  | .truncate len => st.put (st.disk.truncateWal len)
  | .quarantine => st.put (st.disk.quarantine now path)

/-- The log `open_for_shard` builds before it reads the directory. -/
def PartitionLog.initial (config : PartitionLogConfig) (logMeta : LogMeta)
    (manifest : WalManifest) : PartitionLog where
  config := config
  logMeta := logMeta
  manifest := manifest
  walSize := 0
  index := []
  sealedIndexes := []
  activeBaseOffset := 0
  dirty := false
  committedHwm := 0
  flushCount := 0
  failNextSync := false

def rebuildFromDisk (env : Env) (now : Nat) (log : PartitionLog) :
    Prog Store LogError PartitionLog := fun st =>
  let purged := log.purgedOffsets
  match scanSegments env log.manifest purged st.disk with
  | .error (e, path, effect) => (.error e, st.applyEffect now path effect)
  | .ok (base, sealed, index) =>
    let scan := scanWal env log.manifest purged st.disk index base
    let st := st.applyEffect now .wal scan.effect
    match scan.result with
    | .error e => (.error e, st)
    | .ok next =>
      let log :=
        { log with
          index := scan.index
          sealedIndexes := sealed
          activeBaseOffset := base
          walSize := (st.disk.wal.getD .empty).bytes.length
          nextOffset := next }
      (.ok log, st.put (st.disk.saveMeta log.logMeta))

/-- `open_for_shard`; `now` dates a quarantined file. When recovery fails the half-built log is
dropped, which saves the `meta.json` it had loaded. -/
def openForShard (env : Env) (config : PartitionLogConfig) (shardId : UInt32)
    (requestedFormat : UInt16) (now : Nat) : Prog Store LogError PartitionLog := fun st =>
  match WalManifest.loadOrCreate requestedFormat shardId st with
  | (.error e, st) => (.error (.io e), st)
  | (.ok manifest, st) =>
    match env.loadMeta st.disk with
    | .error e => (.error (.io e), st)
    | .ok logMeta =>
      let st := st.put st.disk.createWal
      match rebuildFromDisk env now (.initial config logMeta manifest) st with
      | (.error e, st) => (.error e, st.put (st.disk.saveMeta logMeta))
      | (.ok log, st) => (.ok { log with committedHwm := log.nextOffset }, st)

/-- `Drop`: a last flush, whose failure is only logged, and a checkpoint of `meta.json`. -/
def dropLog : LogM Unit := fun s =>
  let s := (flushDurable s).2
  saveMeta s

end BetterMQ
