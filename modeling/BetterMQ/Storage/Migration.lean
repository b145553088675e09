import BetterMQ.Storage.AppendFailure

/-!
# Migrating a V1 log to V2 (`broker-storage/src/migration.rs`)

`migrate_v1_to_v2` reads every frame under a V1 directory, appends them in batches to a fresh V2
log in a staging directory, compares a digest of the two and renames the staging directory to the
destination. What it copies are the frames: the tombstones and the leadership fence of the source
stand in its `meta.json`, which is never read.

* **`scanRecords_v1`** — on a V1 directory without a torn tail, the scan visits its records in
  order;
* **`migrateV1ToV2_ok`** — a migration that succeeds leaves a V2 directory at rest with exactly
  those records, no tombstone and no fence;
* **`migration_replaces_iff`** — so the V2 log stands in for the V1 log just when the V1 log hides
  none of its records and has no fence.
-/

namespace BetterMQ

open List Prog

/-! ## Directories -/

/-- The path of a directory, by components. -/
abbrev DirPath := List FileName

/-- `path.display()` of an absolute path. -/
def displayDir (path : DirPath) : String :=
  path.foldl (fun s part => s ++ "/" ++ String.ofList part) ""

/-- `path.display()` of a file of the directory `dir`. -/
def displayFile (dir : DirPath) : LogPath → String
  | .wal => displayDir dir ++ "/active.wal"
  | .segment name => displayDir dir ++ "/segments/" ++ String.ofList name

/-- `Path::extension`: what follows the last dot, unless that dot leads the name. -/
def extension (name : FileName) : Option (List Char) :=
  match name.reverse.dropWhile (· ≠ '.') with
  | [] => none
  | _ :: stem => if stem = [] then none else some (name.reverse.takeWhile (· ≠ '.')).reverse

inductive MigrationError where
  | json (message : String)
  | record (error : RecordError)
  | epoch (error : EpochError)
  | log (error : LogError)
  | invalid (message : String)
  | insufficientSpace (available required : Nat)
  | sourceChanged
  | validationFailed
  deriving DecidableEq

structure WalInspection where
  formatVersion : UInt16
  recordCount : Nat
  totalBytes : Nat
  digestHex : String
  files : List LogPath
  deriving DecidableEq

structure MigrationReport where
  source : DirPath
  destination : DirPath
  shardId : UInt32
  sourceInspection : WalInspection
  destinationInspection : WalInspection
  requiredFreeBytes : Nat
  deriving DecidableEq

structure RollbackMetadata where
  version : UInt16
  source : DirPath
  destination : DirPath
  sourceInspection : WalInspection
  destinationInspection : WalInspection
  sourceManifest : JsonFile WalManifest
  deriving DecidableEq

/-- A partition directory with the two files a migration leaves beside the log. -/
structure WalDir where
  disk : Disk
  /-- `migration-rollback.json`. -/
  rollback : Option RollbackMetadata
  /-- `migration-report.json`. -/
  report : Option MigrationReport
  deriving DecidableEq

/-- The volume a migration runs on. -/
structure Volume where
  dirs : DirPath → Option WalDir
  /-- `fs2::available_space`. -/
  available : Nat

namespace Volume

section

variable (v : Volume)

/-- The log files under a path. A directory that is not there reads like an empty one. -/
def disk (path : DirPath) : Disk := (v.dirs path).elim .fresh WalDir.disk

def setDir (path : DirPath) (dir : Option WalDir) : Volume :=
  { v with dirs := Function.update v.dirs path dir }

/-- The directory at `path` with its log files as in `d`, and nothing beside them. -/
def putDisk (path : DirPath) (d : Disk) : Volume := v.setDir path (some ⟨d, none, none⟩)

def removeDir (path : DirPath) : Volume := v.setDir path none

/-- `rename` of a directory: to its own path it does nothing. -/
def rename (source destination : DirPath) : Volume :=
  if source = destination then v else (v.setDir destination (v.dirs source)).removeDir source

end

end Volume

/-- What a migration takes from its environment besides the log's own. -/
structure MigrationEnv extends Env where
  /-- SHA-256 in hexadecimal. -/
  sha256Hex : Bytes → String
  processId : Nat
  nowMillis : Nat

/-! ## Reading a directory -/

def readFormatVersion (d : Disk) : Except MigrationError UInt16 :=
  match d.manifest with
  | .missing => .ok walFormatV1
  | .invalid message => .error (.json message)
  | .valid manifest =>
    let version := manifest.walFormatVersion
    if unsupportedFormat version then .error (.invalid s!"unsupported WAL format {version}")
    else .ok version

/-- `wal_files`: the sealed segments by name, then the active WAL, each with its bytes. -/
def walFiles (dir : DirPath) (d : Disk) : Except MigrationError (List (LogPath × Bytes)) :=
  let sealed := (d.sortedSegments.filter fun f => extension f.1 = some ['l', 'o', 'g']).map
    fun f => (LogPath.segment f.1, f.2.bytes)
  let files := sealed ++ d.wal.toList.map fun f => (LogPath.wal, f.bytes)
  let path := displayDir dir
  if files = [] then .error (.invalid s!"no WAL files found in {path}") else .ok files

section ScanRecords

variable {σ : Type} (c : Codec) (visit : Item → Prog σ MigrationError Unit)

/-- The frames of one epoch body. -/
def visitFrames : Nat → Nat → Bytes → Prog σ MigrationError (Nat × Bytes)
  | 0, expectedOffset, rest => pure (expectedOffset, rest)
  | n + 1, expectedOffset, rest =>
    match decodeFrame c rest with
    | (.error e, _) => Prog.fail (.record e)
    | (.ok item, rest') => do
      visit item
      visitFrames n (satAdd64 expectedOffset 1) rest'

/-- The loop of `scan_records` over one file. -/
def scanFileRecords (file : String) (version : UInt16) :
    Nat → Nat → Bytes → Prog σ MigrationError Nat
  | 0, expectedOffset, _ => pure expectedOffset
  | fuel + 1, expectedOffset, rest =>
    if rest = [] then pure expectedOffset
    else if version = walFormatV1 then
      match decodeFrame c rest with
      | (.error e, _) => Prog.fail (.record e)
      | (.ok item, rest') => do
        visit item
        scanFileRecords file version fuel (satAdd64 expectedOffset 1) rest'
    else if version = walFormatV2 then
      match decodeEpoch c rest with
      | (.error e, _) => Prog.fail (.epoch e)
      | (.ok (epoch, body), rest') =>
        let found := epoch.firstOffset
        if found ≠ expectedOffset then
          Prog.fail (.invalid
            s!"non-contiguous V2 epoch in {file}: expected {expectedOffset}, found {found}")
        else do
          let (reached, left) ← visitFrames c visit epoch.recordCount expectedOffset body
          if left ≠ [] ∨ reached ≠ epoch.committedHwm then
            Prog.fail (.invalid "V2 epoch record count/length mismatch")
          else scanFileRecords file version fuel reached rest'
    else Prog.fail (.invalid s!"unsupported WAL format {version}")

def scanFilesRecords (dir : DirPath) (version : UInt16) :
    List (LogPath × Bytes) → Nat → Prog σ MigrationError Unit
  | [], _ => pure ()
  | (path, bytes) :: files, expectedOffset => do
    let reached ← scanFileRecords c visit (displayFile dir path) version bytes.length expectedOffset
      bytes
    scanFilesRecords dir version files reached

def scanRecords (dir : DirPath) (d : Disk) (version : UInt16) : Prog σ MigrationError Unit := do
  let files ← Prog.lift (walFiles dir d)
  scanFilesRecords c visit dir version files 0

end ScanRecords

/-- Feed one record to the digest: the length of its frame and the frame. -/
def digestRecord (c : Codec) (item : Item) : Prog (Bytes × Nat) MigrationError Unit := do
  let frame ← Prog.lift ((encodeFrame c item.1 item.2).mapError .record)
  Prog.modify fun (hashed, count) => (hashed ++ beBytes 8 frame.length ++ frame, satAdd64 count 1)

def inspectWal (env : MigrationEnv) (dir : DirPath) (d : Disk) :
    Except MigrationError WalInspection := do
  let version ← readFormatVersion d
  let files ← walFiles dir d
  match scanRecords env.codec (digestRecord env.codec) dir d version ([], 0) with
  | (.error e, _) => .error e
  | (.ok _, (hashed, count)) =>
    .ok {
      formatVersion := version
      recordCount := count
      totalBytes := files.foldl (fun total file => satAdd64 total file.2.length) 0
      digestHex := env.sha256Hex hashed
      files := files.map Prod.fst }

/-! ## Copying -/

def copyBatchRecords : Nat := 1000

/-- The records not yet written, and the log they go to. -/
structure Copying where
  batch : List Item
  target : Sys

/-- Run a method of the target log. -/
def onTarget {α : Type} (p : LogM α) : Prog Copying MigrationError α := fun st =>
  ((p st.target).1.mapError .log, { st with target := (p st.target).2 })

section

variable (env : Env) (shardId : UInt32)

/-- `append_batch` of the records collected so far. -/
def copyBatch : Prog Copying MigrationError Unit := do
  let st ← Prog.get
  Prog.modify fun st => { st with batch := [] }
  let _ ← onTarget (appendBatch env shardId st.batch none)
  pure ()

/-- The visitor of the copying scan. -/
def copyRecord (item : Item) : Prog Copying MigrationError Unit := do
  Prog.modify fun st => { st with batch := st.batch ++ [item] }
  let st ← Prog.get
  if st.batch.length ≥ copyBatchRecords then copyBatch env shardId else pure ()

/-- The records left over behind the last whole batch. -/
def copyRest : Prog Copying MigrationError Unit := do
  let st ← Prog.get
  if st.batch ≠ [] then copyBatch env shardId else pure ()

def copyRecords (source : DirPath) (d : Disk) : Prog Copying MigrationError Unit := do
  scanRecords env.codec (copyRecord env shardId) source d walFormatV1
  copyRest env shardId
  onTarget sync

end

/-- `PartitionLogConfig::default()`. -/
def PartitionLogConfig.standard : PartitionLogConfig := ⟨8 * 1024 * 1024, .group⟩

section

variable (env : MigrationEnv)

/-- `open_for_shard` of the staging directory. -/
def openTarget (staging : DirPath) (shardId : UInt32) :
    Prog Volume MigrationError Sys := fun v =>
  match openForShard env.toEnv .standard shardId walFormatV2 env.nowMillis ⟨v.disk staging, []⟩ with
  | (.error e, st) => (.error (.log e), v.putDisk staging st.disk)
  | (.ok log, st) => (.ok ⟨st, log⟩, v.putDisk staging st.disk)

/-- The copy, and the drop of the target log that ends it either way. -/
def copyInto (source staging : DirPath) (shardId : UInt32) (target : Sys) :
    Prog Volume MigrationError Unit := fun v =>
  let r := copyRecords env.toEnv shardId source (v.disk source) ⟨[], target⟩
  (r.1, v.putDisk staging (dropLog r.2.target).2.disk)

def migrateIntoStaging (source destination staging : DirPath)
    (shardId : UInt32) (sourceInspection : WalInspection) (requiredFreeBytes : Nat) :
    Prog Volume MigrationError MigrationReport := do
  Prog.modify fun v => v.putDisk staging .fresh
  let target ← openTarget env staging shardId
  copyInto env source staging shardId target
  let v ← Prog.get
  let again ← Prog.lift (inspectWal env source (v.disk source))
  Prog.check (again = sourceInspection) .sourceChanged
  let destinationInspection ← Prog.lift (inspectWal env staging (v.disk staging))
  Prog.check (destinationInspection.formatVersion = walFormatV2 ∧
    destinationInspection.recordCount = sourceInspection.recordCount ∧
    destinationInspection.digestHex = sourceInspection.digestHex) .validationFailed
  let rollback : RollbackMetadata :=
    ⟨1, source, destination, sourceInspection, destinationInspection, (v.disk source).manifest⟩
  let report : MigrationReport :=
    ⟨source, destination, shardId, sourceInspection, destinationInspection, requiredFreeBytes⟩
  Prog.modify fun v => v.setDir staging (some ⟨v.disk staging, some rollback, some report⟩)
  Prog.modify fun v => v.rename staging destination
  pure report

/-- `destination.with_extension("migrating-{pid}")`. -/
def stagingPath (destination : DirPath) : DirPath :=
  match destination.getLast? with
  | none => destination
  | some name => destination.dropLast ++ [withExtension name
      (['m', 'i', 'g', 'r', 'a', 't', 'i', 'n', 'g', '-'] ++ Nat.toDigits 10 env.processId)]

end

/-- Clear the staging directory away when the migration into it fails. -/
def cleaningUp {α : Type} (staging : DirPath) (p : Prog Volume MigrationError α) :
    Prog Volume MigrationError α := fun v =>
  match p v with
  | (.ok a, v') => (.ok a, v')
  | (.error e, v') => (.error e, v'.removeDir staging)

def migrateV1ToV2 (env : MigrationEnv) (source destination : DirPath) (shardId : UInt32) :
    Prog Volume MigrationError MigrationReport := do
  Prog.check (source ≠ destination) (.invalid "source and destination must differ")
  let v ← Prog.get
  let path := displayDir destination
  Prog.check ((v.dirs destination).isNone = true) (.invalid s!"destination already exists: {path}")
  let sourceInspection ← Prog.lift (inspectWal env source (v.disk source))
  let version := sourceInspection.formatVersion
  Prog.check (version = walFormatV1) (.invalid s!"source WAL format is {version}, expected V1")
  Prog.check (destination ≠ []) (.invalid "destination must have a parent directory")
  let total := sourceInspection.totalBytes
  let requiredFreeBytes := satAdd64 (satAdd64 total (total / 10)) (1024 * 1024)
  Prog.check (requiredFreeBytes ≤ v.available) (.insufficientSpace v.available requiredFreeBytes)
  let staging := stagingPath env destination
  Prog.modify fun v => v.removeDir staging
  cleaningUp staging
    (migrateIntoStaging env source destination staging shardId sourceInspection requiredFreeBytes)

/-! ## The fence -/

/-- The append is refused because its fence is older than the log's. -/
def LogOp.Stale (env : Env) (s : Sys) : LogOp → Prop
  | .append partition header payload fence => ∃ ours stored,
    (appendFenced env partition header payload fence s).1 = .error (.staleFence ours stored)
  | .appendBatch partition items fence => ∃ ours stored,
    (BetterMQ.appendBatch env partition items fence s).1 = .error (.staleFence ours stored)
  | _ => False

variable {op : LogOp}

section Stale

variable {env : Env} {s s' : Sys}

/-- The fence that is compared with the log's: an empty batch looks at none. -/
def LogOp.fence : LogOp → Option Nat
  | .append _ _ _ fence => fence
  | .appendBatch _ items fence => if items = [] then none else fence
  | _ => none

/-- **Appends are refused as stale just below the log's generation.** -/
theorem stale_iff : op.Stale env s ↔ ∃ gen ∈ op.fence, gen < s.leaderGeneration := by
  cases op with
  | append partition header payload fence =>
    exact (appendFenced_run env partition header payload fence s).stale_iff Unencodable.not_stale
  | appendBatch partition items fence =>
    by_cases hne : items = []
    · subst hne
      simp [LogOp.Stale, LogOp.fence, BetterMQ.appendBatch, appendBatchBy]
    rw [LogOp.fence, if_neg hne]
    exact (appendBatch_run env partition hne fence s).stale_iff Unencodable.not_stale
  | _ => simp [LogOp.Stale, LogOp.fence]

/-- A log refuses what another one refuses just when its generation is no lower. -/
theorem stale_imp_iff :
    (∀ op : LogOp, op.Stale env s → op.Stale env s') ↔
      s.leaderGeneration ≤ s'.leaderGeneration := by
  simp only [stale_iff]
  constructor
  · intro h
    by_contra hlt
    obtain ⟨gen, hgen, hless⟩ := h (.append 0 (plainRecord 0) [] (some s'.leaderGeneration))
      ⟨_, rfl, Nat.not_le.mp hlt⟩
    cases hgen
    exact Nat.lt_irrefl _ hless
  · rintro hle op ⟨gen, hgen, hlt⟩
    exact ⟨gen, hgen, hlt.trans_le hle⟩

end Stale

/-! ## What the scan visits -/

theorem extension_segmentName (roll : Nat) : extension (segmentName roll)
    = some ['l', 'o', 'g'] := by
  simp [extension, segmentName, reverse_append]

variable {m : WalManifest} {d : Disk} {tail : Bytes} {strict : Bool}
  {dir source path path' : DirPath} {s : Sys} {fmt : WalFormat} {shard : UInt32}

section Scan

variable {c : Codec} {σ : Type} {visit : Item → Prog σ MigrationError Unit} {s s' : σ}

theorem scanFileRecords_nil (file : String) (version : UInt16) (fuel expected : Nat) (s : σ) :
    scanFileRecords c visit file version fuel expected [] s = (.ok expected, s) := by
  cases fuel <;> rfl

/-- A V1 file: every frame is visited, and a torn tail ends the scan in an error. -/
theorem scanFileRecords_v1_ok {file : String} {fuel expected reached first : Nat}
    {bs : List (Batch c)} (hok : FileOk .v1 first bs) (htorn : Torn c .v1 tail)
    (hfuel : (fileBytes .v1 shard first bs ++ tail).length ≤ fuel)
    (h : scanFileRecords c visit file walFormatV1 fuel expected
      (fileBytes .v1 shard first bs ++ tail) s = (.ok reached, s')) :
    tail = [] ∧ ((records bs).map Frame.item).forM visit s = (.ok (), s') := by
  induction bs generalizing first fuel expected s with
  | nil =>
    rw [fileBytes, nil_append] at h hfuel
    by_cases htail : tail = []
    · subst htail
      rw [scanFileRecords_nil] at h
      cases h
      exact ⟨rfl, rfl⟩
    · have hpos : 0 < tail.length := length_pos_iff.mpr htail
      obtain _ | fuel := fuel
      · omega
      have heof : decodeFrame c tail = (.error (.io .unexpectedEof), (decodeFrame c tail).2) :=
        Prod.ext htorn rfl
      rw [scanFileRecords, if_neg htail, heof] at h
      cases h
  | cons b bs ih =>
    obtain ⟨f, hf, hbody⟩ := exists_frame_of_ok_v1 hok.1
    have hbytes : b.bytes .v1 shard first = f.bytes := hbody
    have hpos : 0 < f.bytes.length := length_pos_iff.mpr f.bytes_ne_nil
    rw [fileBytes, hbytes, append_assoc] at h hfuel
    rw [length_append] at hfuel
    obtain _ | fuel := fuel
    · omega
    have hne : f.bytes ++ (fileBytes .v1 shard (first + b.frames.length) bs ++ tail) ≠ [] := by
      simp [f.bytes_ne_nil]
    rw [scanFileRecords, if_neg hne, f.exact.ok] at h
    obtain ⟨_, s₁, hvisit, hrest⟩ := bind_eq_ok h
    obtain ⟨htail, hmore⟩ := ih hok.2 (by omega) hrest
    refine ⟨htail, ?_⟩
    rw [records_cons, hf]
    exact (bind_ok hvisit).trans hmore

theorem scanFilesRecords_sealed_ok {expected first : Nat} {ss : List (Sealed c)}
    {files : List (LogPath × Bytes)} (hok : SealedFilesOk .v1 first ss)
    (h : scanFilesRecords c visit dir walFormatV1
      ((segmentFiles .v1 shard first ss).map (fun f => (LogPath.segment f.1, f.2)) ++ files)
      expected s = (.ok (), s')) :
    ∃ s₁ reached, ((sealedRecords ss).map Frame.item).forM visit s = (.ok (), s₁) ∧
      scanFilesRecords c visit dir walFormatV1 files reached s₁ = (.ok (), s') := by
  induction ss generalizing first expected s with
  | nil => exact ⟨s, expected, rfl, h⟩
  | cons segment ss ih =>
    obtain ⟨name, bs⟩ := segment
    obtain ⟨⟨hfile, -⟩, hrest⟩ := hok
    obtain ⟨reached, s₁, hscan, hmore⟩ := bind_eq_ok h
    have hbytes := append_nil (fileBytes .v1 shard first bs)
    rw [← hbytes] at hscan
    obtain ⟨-, hvisited⟩ := scanFileRecords_v1_ok hfile (.nil .v1) (by rw [hbytes]) hscan
    obtain ⟨s₂, reached', hvisited', htail⟩ := ih hrest hmore
    refine ⟨s₂, reached', ?_, htail⟩
    rw [sealedRecords_cons, map_append]
    exact forM_append_ok hvisited hvisited'

/-- **A scan of a V1 directory that goes through visits its records in order**, and the directory
has no torn tail. -/
theorem scanRecords_v1_ok {L : Layout c} (hdisk : OnDisk .v1 m strict L tail d) (hfew : d.Few)
    (h : scanRecords c visit dir d walFormatV1 s = (.ok (), s')) :
    tail = [] ∧ L.items.forM visit s = (.ok (), s') := by
  have hnames : ∀ f ∈ d.segments, extension f.1 = some ['l', 'o', 'g'] := by
    intro f hf
    have hmem : f.1 ∈ d.segments.map Prod.fst := mem_map_of_mem hf
    rw [hdisk.segment_names] at hmem
    obtain ⟨roll, -, hroll⟩ := mem_map.mp hmem
    rw [← hroll]
    exact extension_segmentName roll
  have hsealed : (d.sortedSegments.filter fun f => extension f.1 = some ['l', 'o', 'g']).map
        (fun f => (LogPath.segment f.1, f.2.bytes))
      = (segmentFiles .v1 m.shardId 0 L.sealed).map fun f => (LogPath.segment f.1, f.2) := by
    rw [hdisk.sortedSegments (by rw [← hdisk.segments_length]; exact hfew),
      filter_eq_self.mpr fun f hf => decide_eq_true (hnames f hf), ← hdisk.segments,
      map_map]
    rfl
  obtain ⟨files, s₀, hfiles, hscan⟩ := bind_eq_ok h
  obtain ⟨hwalFiles, rfl⟩ := Prod.mk.inj hfiles
  unfold walFiles at hwalFiles
  dsimp only at hwalFiles
  rw [hsealed] at hwalFiles
  split at hwalFiles
  · cases hwalFiles
  · cases hwalFiles
    obtain ⟨s₁, reached, hvisited, hactive⟩ := scanFilesRecords_sealed_ok hdisk.sealedOk hscan
    have hwal : tail = [] ∧ ((records L.active).map Frame.item).forM visit s₁ = (.ok (), s') := by
      rcases hdisk.wal with hsome | ⟨hnone, hempty, htail⟩
      · rw [hsome] at hactive
        obtain ⟨n, s₂, hfile, hend⟩ := bind_eq_ok hactive
        cases hend
        exact scanFileRecords_v1_ok hdisk.activeOk hdisk.torn (Nat.le_refl _) hfile
      · rw [hnone] at hactive
        cases hactive
        rw [hempty]
        exact ⟨htail, rfl⟩
    refine ⟨hwal.1, ?_⟩
    rw [Layout.items, Layout.frames, map_append]
    exact forM_append_ok hvisited hwal.2

end Scan

/-! ## What the copy leaves -/

section Copy

variable {env : Env} {shard : UInt32} {st st' : Copying} {done : List Item} {L : Layout env.codec}

/-- The records `done` are in the V2 log or in the batch that goes to it next; the log has no
tombstone and no fence. -/
def Copied (env : Env) (shard : UInt32) (done : List Item) (st : Copying) : Prop :=
  ∃ (written : List Item) (L : Layout env.codec), written ++ st.batch = done ∧
    Steady .v2 shard ⟨written, []⟩ L st.target ∧ st.target.leaderGeneration = 0

section

variable (henv : env.InPlace)

include henv

theorem copyBatch_ok
    (h : Copied env shard done st) (hbound : done.length < 2 ^ 64) (hbatch : st.batch ≠ [])
    (hrun : copyBatch env shard st = (.ok (), st')) :
    Copied env shard done st' ∧ st'.batch = [] := by
  obtain ⟨written, L, hdone, hsteady, hgeneration⟩ := h
  obtain ⟨out, st₁, happend, hend⟩ := bind_eq_ok
    (show (onTarget (appendBatch env shard st.batch none) >>= fun _ => pure ())
      { st with batch := [] } = (.ok (), st') from hrun)
  cases hend
  obtain ⟨hresult, rfl⟩ := Prod.mk.inj happend
  have hsuccess : (LogOp.appendBatch shard st.batch none).succeeds env st.target = true := by
    show (appendBatch env shard st.batch none st.target).1.toBool = true
    cases hfirst : (appendBatch env shard st.batch none st.target).1 with
    | error e =>
      rw [hfirst] at hresult
      cases hresult
    | ok _ => rfl
  have hok : OpOk env st.target.log (.appendBatch shard st.batch none) := by
    refine ⟨?_, fun hv1 => ?_⟩
    · rw [hsteady.nextOffset, ← length_append, hdone]
      exact hbound
    · rw [hsteady.live.isV2_eq] at hv1
      cases hv1
  obtain ⟨L', hsteady'⟩ := hsteady.call henv _ hok hsuccess
  refine ⟨⟨done, L', append_nil done, ?_, ?_⟩, rfl⟩
  · rw [← hdone]
    exact hsteady'
  · rcases (appendBatch_run env shard hbatch none st.target).fenced_cases with
      ⟨_, hgen, -⟩ | ⟨gen, dirty, haccepted, hfenced⟩
    · cases hgen
    · rw [hfenced.past.fence]
      exact (haccepted.dirty.resolve_right fun hsome => hsome.1 rfl).1.trans hgeneration

theorem copyRecord_ok {item : Item}
    (h : Copied env shard done st) (hbound : (done ++ [item]).length < 2 ^ 64)
    (hrun : copyRecord env shard item st = (.ok (), st')) :
    Copied env shard (done ++ [item]) st' := by
  obtain ⟨written, L, hdone, hsteady, hgeneration⟩ := h
  have hcollected : Copied env shard (done ++ [item]) { st with batch := st.batch ++ [item] } :=
    ⟨written, L, by rw [← append_assoc, hdone], hsteady, hgeneration⟩
  replace hrun : (if (st.batch ++ [item]).length ≥ copyBatchRecords then copyBatch env shard
      else pure ()) { st with batch := st.batch ++ [item] } = (.ok (), st') := hrun
  split at hrun
  · exact (copyBatch_ok henv hcollected hbound (by simp) hrun).1
  · cases hrun
    exact hcollected

/-- **A copy that goes through** has every record of the source in the V2 log. -/
theorem copyRecords_ok (hdisk : OnDisk .v1 m strict L tail d) (hfew : d.Few)
    (hbound : L.items.length < 2 ^ 64) (hstart : Copied env shard [] st)
    (hrun : copyRecords env shard source d st = (.ok (), st')) :
    ∃ L' : Layout env.codec, Steady .v2 shard ⟨L.items, []⟩ L' st'.target ∧
      st'.target.leaderGeneration = 0 := by
  obtain ⟨_, st₁, hscan, hrest⟩ := bind_eq_ok hrun
  obtain ⟨-, hvisited⟩ := scanRecords_v1_ok hdisk hfew hscan
  have hcopied : Copied env shard L.items st₁ := by
    refine forM_invariant (Copied env shard) ?_ hvisited hstart
    intro done item st st' hpre h hvisit
    exact copyRecord_ok henv h (hpre.length_le.trans_lt hbound) hvisit
  -- the last batch, if there is one
  obtain ⟨_, st₂, hlast, hsync⟩ := bind_eq_ok hrest
  replace hlast : (if st₁.batch ≠ [] then copyBatch env shard else pure ()) st₁ = (.ok (), st₂) :=
    hlast
  have hall : Copied env shard L.items st₂ ∧ st₂.batch = [] := by
    split at hlast
    · next hbatch => exact copyBatch_ok henv hcopied hbound hbatch hlast
    · next hbatch =>
      cases hlast
      exact ⟨hcopied, not_not.mp hbatch⟩
  obtain ⟨⟨written, L₂, hdone, hsteady, hgeneration⟩, hbatch⟩ := hall
  rw [hbatch, append_nil] at hdone
  subst hdone
  obtain ⟨L', hsteady'⟩ := hsteady.quiet (flushDurable_quiet _).keeps
    (flushDurable_step hsteady.live)
  obtain ⟨-, rfl⟩ := Prod.mk.inj hsync
  exact ⟨L', hsteady', (flushDurable_quiet _).keeps.fence.trans hgeneration⟩

end

theorem openForShard_staging (env : Env) (config : PartitionLogConfig) (shard : UInt32)
    (now : Nat) :
    ∃ log st, openForShard env config shard walFormatV2 now ⟨.fresh, []⟩ = (.ok log, st) ∧
      Copied env shard [] ⟨[], ⟨st, log⟩⟩ ∧ st.disk.segments = [] ∧ st.disk.wal = some .empty := by
  obtain ⟨log, st, hopen, hsteady⟩ := openForShard_steady env config shard .v2 now
  have hlog : log.leaderGeneration = 0 ∧ st.disk.segments = [] ∧
      st.disk.wal = some .empty := by
    cases hopen
    exact ⟨rfl, rfl, rfl⟩
  exact ⟨log, st, hopen,
    ⟨[], .empty, rfl, { hsteady with live := hsteady.live.retrace st.trace }, hlog.1⟩, hlog.2⟩

theorem Steady.dropped {account : Account} (h : Steady .v2 shard account L s) :
    ∃ (L' : Layout env.codec) (m : WalManifest) (mt : LogMeta),
      AtRest .v2 shard account L' m mt (dropLog s).2.disk ∧
        mt.leaderGeneration = s.leaderGeneration := by
  obtain ⟨L', m, mt, hrest⟩ := h.closed
  refine ⟨L', m, mt, hrest, ?_⟩
  have hsaved : (dropLog s).2.disk.savedMeta = some (flushDurable s).2.logMeta := rfl
  rw [hrest.logMeta] at hsaved
  cases hsaved
  exact (flushDurable_quiet s).keeps.fence

end Copy

/-! ## Migrations that succeed -/

namespace Volume

@[simp] theorem disk_setDir_self (v : Volume) (path : DirPath) (dir : WalDir) :
    (v.setDir path (some dir)).disk path = dir.disk := by
  simp [disk, setDir]

theorem disk_setDir_of_ne (v : Volume) (dir : Option WalDir) (h : path' ≠ path) :
    (v.setDir path dir).disk path' = v.disk path' := by
  simp [disk, setDir, h]

@[simp] theorem disk_putDisk_self (v : Volume) (path : DirPath) (d : Disk) :
    (v.putDisk path d).disk path = d := disk_setDir_self v path _

theorem disk_putDisk_of_ne (v : Volume) (d : Disk) (h : path' ≠ path) :
    (v.putDisk path d).disk path' = v.disk path' := disk_setDir_of_ne v _ h

@[simp] theorem disk_rename_self (v : Volume) (source destination : DirPath) :
    (v.rename source destination).disk destination = v.disk source := by
  unfold rename
  split
  · next heq => rw [heq]
  · next hne =>
    rw [removeDir, disk_setDir_of_ne _ _ (Ne.symm hne)]
    simp [disk, setDir]

theorem disk_rename_of_ne (v : Volume) {destination : DirPath} (hsource : path ≠ source)
    (hdestination : path ≠ destination) :
    (v.rename source destination).disk path = v.disk path := by
  unfold rename
  split
  · rfl
  · rw [removeDir, disk_setDir_of_ne _ _ hsource, disk_setDir_of_ne _ _ hdestination]

end Volume

section Migrate

variable {env : MigrationEnv} {source destination staging : DirPath} {shard : UInt32}
  {v v' : Volume} {report : MigrationReport} {inspection : WalInspection}

theorem inspectWal_version (hm : d.manifest = .valid m)
    (h : inspectWal env dir d = .ok inspection) :
    inspection.formatVersion = m.walFormatVersion := by
  obtain ⟨version, hversion, hrest⟩ := exists_of_bind_eq_ok h
  have hsame : version = m.walFormatVersion := by
    unfold readFormatVersion at hversion
    rw [hm] at hversion
    dsimp only at hversion
    split at hversion
    · cases hversion
    · cases hversion
      rfl
  obtain ⟨files, -, hscan⟩ := exists_of_bind_eq_ok hrest
  split at hscan
  · cases hscan
  · cases hscan
    exact hsame

theorem copyRecords_empty {env : Env} {target : Sys} (hsegments : d.segments = [])
    (hwal : d.wal = some .empty) :
    copyRecords env shard source d ⟨[], target⟩ = onTarget sync ⟨[], target⟩ := by
  have hfiles : walFiles source d = .ok [(.wal, [])] := by
    simp [walFiles, Disk.sortedSegments, hsegments, hwal, FileData.empty]
  have hscan : scanRecords env.codec (copyRecord env shard) source d walFormatV1 ⟨[], target⟩
      = (.ok (), ⟨[], target⟩) := by
    unfold scanRecords
    rw [hfiles]
    rfl
  exact bind_ok hscan

/-- What a migration into the staging directory did before it renamed it. -/
theorem migrateIntoStaging_inv {required : Nat}
    (h : migrateIntoStaging env source destination staging shard inspection required v
      = (.ok report, v')) :
    ∃ target v₁ v₂, openTarget env staging shard (v.putDisk staging .fresh) = (.ok target, v₁) ∧
      copyInto env source staging shard target v₁ = (.ok (), v₂) ∧
      inspectWal env source (v₂.disk source) = .ok inspection ∧
      v'.disk destination = v₂.disk staging ∧
      (source ≠ staging → source ≠ destination → v'.disk source = v₂.disk source) := by
  obtain ⟨_, v₀, hcreate, h⟩ := bind_eq_ok h
  cases hcreate
  obtain ⟨target, v₁, hopen, h⟩ := bind_eq_ok h
  obtain ⟨_, v₂, hcopy, h⟩ := bind_eq_ok h
  obtain ⟨_, _, hget, h⟩ := bind_eq_ok h
  cases hget
  obtain ⟨again, v₃, hagain, h⟩ := bind_eq_ok h
  obtain ⟨hinspect, rfl⟩ := Prod.mk.inj hagain
  obtain ⟨rfl, h⟩ := check_bind_eq_ok h
  obtain ⟨validated, v₅, hvalidated, h⟩ := bind_eq_ok h
  obtain ⟨-, rfl⟩ := Prod.mk.inj hvalidated
  obtain ⟨-, h⟩ := check_bind_eq_ok h
  cases h
  refine ⟨target, v₁, _, hopen, hcopy, hinspect, ?_, fun hstaging hdestination => ?_⟩
  · rw [Volume.disk_rename_self, Volume.disk_setDir_self]
  · rw [Volume.disk_rename_of_ne _ hstaging hdestination, Volume.disk_setDir_of_ne _ _ hstaging]

/-- The checks a migration passes before it starts to copy. -/
theorem migrateV1ToV2_inv (h : migrateV1ToV2 env source destination shard v = (.ok report, v')) :
    ∃ inspection required, source ≠ destination ∧
      inspectWal env source (v.disk source) = .ok inspection ∧
      inspection.formatVersion = walFormatV1 ∧
      migrateIntoStaging env source destination (stagingPath env destination) shard inspection
        required (v.removeDir (stagingPath env destination)) = (.ok report, v') := by
  obtain ⟨hdiffer, h⟩ := check_bind_eq_ok h
  obtain ⟨_, _, hget, h⟩ := bind_eq_ok h
  cases hget
  obtain ⟨-, h⟩ := check_bind_eq_ok h
  obtain ⟨inspection, _, hlift, h⟩ := bind_eq_ok h
  obtain ⟨hinspect, rfl⟩ := Prod.mk.inj hlift
  obtain ⟨hversion, h⟩ := check_bind_eq_ok h
  obtain ⟨-, h⟩ := check_bind_eq_ok h
  obtain ⟨-, h⟩ := check_bind_eq_ok h
  obtain ⟨_, _, hremove, h⟩ := bind_eq_ok h
  cases hremove
  unfold cleaningUp at h
  split at h
  · next hstaged =>
    cases h
    exact ⟨inspection, _, hdiffer, hinspect, hversion, hstaged⟩
  · cases h

/-- The directory that the copy of the records `items` leaves behind. -/
def FreshlyMigrated (env : Env) (shard : UInt32) (items : List Item) (d : Disk) : Prop :=
  ∃ (L : Layout env.codec) (m : WalManifest) (mt : LogMeta),
    AtRest .v2 shard ⟨items, []⟩ L m mt d ∧ mt.leaderGeneration = 0

/-- **A migration that succeeds** leaves a V2 directory with the records of the V1 directory, and
the V1 directory as it was. -/
theorem migrateV1ToV2_ok (henv : env.InPlace) {L : Layout env.codec}
    (hdisk : OnDisk fmt m strict L tail (v.disk source))
    (hfew : (v.disk source).Few) (hbound : L.items.length < 2 ^ 64)
    (h : migrateV1ToV2 env source destination shard v = (.ok report, v')) :
    FreshlyMigrated env.toEnv shard L.items (v'.disk destination) ∧
      v'.disk source = v.disk source := by
  obtain ⟨inspection, required, hdiffer, hinspect, hversion, hstaged⟩ := migrateV1ToV2_inv h
  -- the source is in the V1 format
  have hv1 : fmt = .v1 := by
    have hformat := (inspectWal_version hdisk.manifest hinspect).symm.trans hversion
    rw [hdisk.format] at hformat
    cases fmt with
    | v1 => rfl
    | v2 => exact absurd hformat (by decide)
  subst hv1
  set staging := stagingPath env destination
  obtain ⟨target, v₁, v₂, hopen, hcopy, hagain, hdestination, hkept⟩ :=
    migrateIntoStaging_inv hstaged
  obtain ⟨log, st, hlog, hcopied, hsegments, hwal⟩ :=
    openForShard_staging env.toEnv .standard shard env.nowMillis
  unfold openTarget at hopen
  rw [Volume.disk_putDisk_self, hlog] at hopen
  cases hopen
  obtain ⟨hall, rfl⟩ := Prod.mk.inj hcopy
  rw [Volume.disk_putDisk_self] at hdestination
  by_cases hself : source = staging
  · -- the staging directory is no source: its format has changed since the first inspection
    exfalso
    rw [hself, Volume.disk_putDisk_self, Volume.disk_putDisk_self,
      copyRecords_empty hsegments hwal] at hagain
    obtain ⟨written, L₀, -, hsteady, -⟩ := hcopied
    obtain ⟨L₁, hsteady₁⟩ := hsteady.quiet (flushDurable_quiet _).keeps
      (flushDurable_step hsteady.live)
    obtain ⟨L₂, m₂, mt₂, hrest, -⟩ := hsteady₁.dropped
    have hformat := inspectWal_version hrest.onDisk.manifest hagain
    rw [hversion, hrest.onDisk.format] at hformat
    exact absurd hformat (by decide)
  · have hsource : (((v.removeDir staging).putDisk staging .fresh).putDisk staging st.disk).disk
        source = v.disk source := by
      rw [Volume.disk_putDisk_of_ne _ _ hself, Volume.disk_putDisk_of_ne _ _ hself,
        Volume.removeDir, Volume.disk_setDir_of_ne _ _ hself]
    rw [hsource] at hall
    obtain ⟨L', hsteady, hgeneration⟩ :=
      copyRecords_ok henv hdisk hfew hbound hcopied (Prod.ext hall rfl)
    refine ⟨?_, ?_⟩
    · rw [hdestination, hsource]
      obtain ⟨L₂, m₂, mt₂, hrest, hsaved⟩ := hsteady.dropped
      exact ⟨L₂, m₂, mt₂, hrest, hsaved.trans hgeneration⟩
    · rw [hkept hself hdiffer, Volume.disk_putDisk_of_ne _ _ hself, hsource]

end Migrate

/-! ## Standing in for the V1 log -/

section Replace

variable {env : Env} {shard : UInt32} {strict : Bool} {L : Layout env.codec}

theorem LogOp.items_bounded {log : PartitionLog} (hok : OpOk env log op)
    (hnext : log.nextOffset < 2 ^ 64) :
    log.nextOffset + (op.items env).length < 2 ^ 64 := by
  cases op with
  | append partition header payload fence => exact hok.1
  | appendBatch partition items fence => exact hok.1
  | appendRaw partition frame expected =>
    have hone : (rawItems env frame).length ≤ 1 := by
      unfold rawItems
      split <;> simp
    exact (Nat.add_le_add_left hone _).trans_lt hok.1
  | _ => exact hnext

theorem World.exec_bounded {w w' : World} {action : Action} {trace : List Disk}
    (h : w.Holds none shard strict L) (hbound : w.history.length < 2 ^ 64)
    (hok : ActionOk env strict w action) (hexec : w.exec env shard action = some (trace, w')) :
    w'.history.length < 2 ^ 64 := by
  cases action with
  | openLog config requested now =>
    simp only [World.exec] at hexec
    split at hexec
    · cases hexec
    · split at hexec
      · cases hexec
        exact hbound
      · cases hexec
        exact (length_take_le' _ _).trans_lt hbound
  | call op =>
    obtain ⟨log, hlog, hresult⟩ := Option.map_eq_some_iff.mp hexec
    cases hresult
    obtain ⟨fmt, -, hlive, hitems⟩ := h.of_open hlog
    have hnext : log.nextOffset = w.history.length := by
      rw [← hitems, L.length_items]
      exact hlive.nextOffset
    have hadded := LogOp.items_bounded (hok log hlog) (hnext ▸ hbound)
    rw [hnext] at hadded
    refine lt_of_le_of_lt ?_ hadded
    rw [length_append]
    exact Nat.add_le_add_left (length_take_le' _ _) _
  | close =>
    obtain ⟨log, -, hresult⟩ := Option.map_eq_some_iff.mp hexec
    cases hresult
    exact hbound

/-- **Along every run, the history has fewer than `2^64` records.** -/
theorem World.run_bounded (henv : env.InPlace) {w : World} {events : List Event}
    (hrun : Run (World.step env shard) (EventOk env shard strict) .fresh events w) :
    (∃ L : Layout env.codec, w.Holds none shard strict L) ∧ w.history.length < 2 ^ 64 := by
  refine hrun.invariant (fun w => (∃ L : Layout env.codec, w.Holds none shard strict L) ∧
    w.history.length < 2 ^ 64) ?_ ⟨⟨.empty, World.fresh_holds _ _ _⟩, by decide⟩
  rintro w event w' ⟨⟨L, hholds⟩, hbound⟩ hok hstep
  obtain ⟨L', hholds', -⟩ := World.step_holds henv hholds hok hstep
  refine ⟨⟨L', hholds'⟩, ?_⟩
  cases event with
  | run action =>
    obtain ⟨⟨trace, w₁⟩, hexec, rfl⟩ := Option.map_eq_some_iff.mp hstep
    exact World.exec_bounded hholds hbound hok hexec
  | crash keep =>
    cases hstep
    exact hbound
  | crashDuring action count keep =>
    obtain ⟨⟨trace, w₁⟩, hexec, hpoint⟩ := Option.bind_eq_some_iff.mp hstep
    obtain ⟨d, -, rfl⟩ := Option.map_eq_some_iff.mp hpoint
    have hhistory := World.exec_bounded hholds hbound hok.1 hexec
    exact hhistory

/-- `s` is what an open of the directory `d` gives. -/
def OpensTo (env : Env) (shard : UInt32) (d : Disk) (s : Sys) : Prop :=
  d.Few ∧ ∃ config requested now,
    openForShard env config shard requested now ⟨d, []⟩ = (.ok s.log, s.toStore)

/-- An open of a stored directory serves its records, with the metadata saved in it. -/
theorem OpensTo.serves {mt : LogMeta} (h : OpensTo env shard d s)
    (hdisk : OnDisk fmt m strict L tail d) (hshard : m.shardId = shard)
    (hmeta : d.savedMeta = some mt) :
    Serves env s.disk s.log L.items ∧ s.logMeta
      = { mt with nextOffset := L.frames.length } := by
  obtain ⟨hfew, config, requested, now, hopen⟩ := h
  obtain ⟨log, hlog, hopened⟩ := openForShard_onDisk env config requested now [] hdisk
    (by rw [← hdisk.segments_length]; exact hfew) hmeta
  rw [hshard, hopen] at hlog
  obtain ⟨hsame, hstore⟩ := Prod.mk.inj hlog
  cases hsame
  rw [show s.disk = recoveredDisk fmt m L tail d mt from congrArg Store.disk hstore]
  exact ⟨hopened.serves hdisk, hopened.logMeta⟩

/-- What the log `s'` owes to the readers and writers of the log `s` it stands in for. -/
structure Replaces (env : Env) (s s' : Sys) : Prop where
  reads : ∀ (partition : UInt32) (start max : Nat), readRange env s'.disk s'.log partition start max
      = readRange env s.disk s.log partition start max
  fences : ∀ op : LogOp, op.Stale env s → op.Stale env s'

/-- Two logs that serve the same records, the second one hiding none, read alike just when the
first one hides none either. -/
theorem serves_alike_iff {s' : Sys} {items : List Item} (h : Serves env s.disk s.log items)
    (h' : Serves env s'.disk s'.log items) (hnone : s'.purgedOffsets = []) :
    (∀ (partition : UInt32) (start max : Nat), readRange env s'.disk s'.log partition start max
        = readRange env s.disk s.log partition start max) ↔
      ∀ o ∈ s.purgedOffsets, items.length ≤ o := by
  constructor
  · intro hreads o hpurged
    by_contra hlt
    have hlt := Nat.not_le.mp hlt
    -- the record at a hidden offset below the end is read from the second log only
    have hread := hreads 0 o 1
    rw [h'.read_one (getElem?_eq_getElem hlt) (by rw [hnone]; exact not_mem_nil) 0, h 0 o 1]
      at hread
    have hmem : storedMessage items[o].1 items[o].2 0 o ∈
        (visible o s.purgedOffsets (messagesFrom 0 0 items)).take 1 := by
      rw [← Except.ok.inj hread]
      exact mem_singleton.mpr rfl
    have hshown := of_decide_eq_true (mem_filter.mp (mem_of_mem_take hmem)).2
    exact hshown.2 hpurged
  · intro hbeyond partition start max
    have hsame : visible start s.purgedOffsets (messagesFrom partition 0 items)
        = visible start s'.purgedOffsets (messagesFrom partition 0 items) := by
      refine filter_congr fun message hmessage => ?_
      have hbound := messagesFrom_bounds hmessage
      have hshown : message.offset ∉ s.purgedOffsets := by
        intro hpurged
        have hle := hbeyond _ hpurged
        omega
      rw [hnone]
      simp [hshown]
    rw [h, h', hsame]

end Replace

/-- **A migrated log stands in for the V1 log just when that hides none of its records and has no
fence.** The V1 directory comes from any run of opens, calls, closes and crashes. -/
theorem migration_replaces_iff {env : MigrationEnv} (henv : env.InPlace) {shard : UInt32}
    {events : List Event} {w : World}
    (hrun : Run (World.step env.toEnv shard) (EventOk env.toEnv shard false) .fresh events w)
    {source destination : DirPath} {shard' : UInt32} {v v' : Volume} {report : MigrationReport}
    (hsource : v.disk source = w.disk)
    (hmigrate : migrateV1ToV2 env source destination shard' v = (.ok report, v')) {s s' : Sys}
    (hopen : OpensTo env.toEnv shard w.disk s)
    (hopen' : OpensTo env.toEnv shard' (v'.disk destination) s') :
    Replaces env.toEnv s s' ↔
      (∀ o ∈ s.purgedOffsets, s.log.highWatermark ≤ o) ∧
        s.leaderGeneration = 0 := by
  obtain ⟨⟨L, hholds⟩, hbound⟩ := World.run_bounded henv hrun
  obtain ⟨hidle, hhistory⟩ := hholds.idle
  rcases hidle with ⟨-, hfresh, -⟩ | ⟨fmt, -, m, tail, hdisk, hshard, -⟩
  · -- a directory nothing was written to has no files to migrate
    obtain ⟨inspection, -, -, hinspect, -⟩ := migrateV1ToV2_inv hmigrate
    rw [hsource, hfresh] at hinspect
    cases hinspect
  · obtain ⟨mt, hmeta⟩ := Option.isSome_iff_exists.mp hdisk.logMeta
    obtain ⟨hserves, hlogMeta⟩ := hopen.serves hdisk hshard hmeta
    rw [← hsource] at hdisk
    obtain ⟨⟨L', m', mt', hrest, hgeneration⟩, -⟩ := migrateV1ToV2_ok henv hdisk
      (by rw [hsource]; exact hopen.1) (hhistory.length_le.trans_lt hbound) hmigrate
    obtain ⟨hserves', hlogMeta'⟩ := hopen'.serves hrest.onDisk hrest.shard hrest.logMeta
    have hitems : L'.items = L.items := hrest.items
    rw [hitems] at hserves'
    have hnone : s'.purgedOffsets = [] := by
      rw [hlogMeta']
      exact eq_nil_iff_forall_not_mem.mpr fun o ho =>
        not_mem_nil ((hrest.purged o).mp ho)
    have hgeneration' : s'.leaderGeneration = 0 := by
      rw [hlogMeta']
      exact hgeneration
    have hwatermark : s.log.highWatermark = L.items.length := by
      rw [PartitionLog.highWatermark, hlogMeta, L.length_items]
    have hreads := serves_alike_iff hserves hserves' hnone
    have hfences : (∀ op : LogOp, op.Stale env.toEnv s → op.Stale env.toEnv s') ↔
        s.leaderGeneration = 0 := by
      rw [stale_imp_iff, hgeneration', Nat.le_zero]
    rw [hwatermark]
    exact ⟨fun h => ⟨hreads.mp h.reads, hfences.mp h.fences⟩,
      fun h => ⟨hreads.mpr h.1, hfences.mpr h.2⟩⟩

/-! ## Two migrations -/

/-- The program as it is linked, with the length of the hashed bytes for their digest. -/
def linkedMigration : MigrationEnv where
  toEnv := linkedEnv false
  sha256Hex := fun bytes => toString bytes.length
  processId := 7
  nowMillis := 0

theorem linkedMigration_inPlace : linkedMigration.InPlace := localEnv_inPlace

def oldDir : DirPath := [['o', 'l', 'd']]

def newDir : DirPath := [['n', 'e', 'w']]

/-- A volume with room that holds the directory `d`. -/
def volumeWith (d : Disk) : Volume :=
  ⟨Function.update (fun _ => none) oldDir (some ⟨d, none, none⟩), 2 ^ 40⟩

theorem disk_volumeWith (d : Disk) : (volumeWith d).disk oldDir = d :=
  Volume.disk_putDisk_self ⟨fun _ => none, 2 ^ 40⟩ oldDir d

/-- The log an open of `d` gives. -/
def openedLog (d : Disk) : Option Sys :=
  match openForShard localEnv (unrolled .group) 0 1 0 ⟨d, []⟩ with
  | (.ok log, st) => if d.Few then some ⟨st, log⟩ else none
  | (.error _, _) => none

theorem opensTo_of_openedLog (h : openedLog d = some s) : OpensTo localEnv 0 d s := by
  unfold openedLog at h
  split at h
  · next log st hopen =>
    split at h
    · next hfew =>
      cases h
      exact ⟨hfew, _, _, _, hopen⟩
    · cases h
  · cases h

/-- The volume after a migration of `d`. -/
def migratedVolume (d : Disk) : Option Volume :=
  match migrateV1ToV2 linkedMigration oldDir newDir 0 (volumeWith d) with
  | (.ok _, v) => some v
  | (.error _, _) => none

theorem migrate_of_migratedVolume {v : Volume} (h : migratedVolume d = some v) :
    ∃ report, migrateV1ToV2 linkedMigration oldDir newDir 0 (volumeWith d) = (.ok report, v) := by
  unfold migratedVolume at h
  split at h
  · next report v' hmigrate =>
    cases h
    exact ⟨report, hmigrate⟩
  · cases h

/-- A sealed record and one in the active WAL. -/
def twoPlainRecords : List Event :=
  [.run (.openLog (rolling .group) 1 0), .run (.call (appendPlain 1)), .run .close,
    .run (.openLog (unrolled .group) 1 0), .run (.call (appendPlain 2)), .run .close]

/-- Without tombstones and fences, the migrated log stands in for the V1 log. -/
theorem plain_migration_replaces :
    ∃ w v report s s', LocalRun false .fresh twoPlainRecords w ∧
      migrateV1ToV2 linkedMigration oldDir newDir 0 (volumeWith w.disk) = (.ok report, v) ∧
      OpensTo localEnv 0 w.disk s ∧ OpensTo localEnv 0 (v.disk newDir) s' ∧
      s.log.highWatermark = 2 ∧ Replaces localEnv s s' := by
  obtain ⟨w, s, v, s', hrun, hs, htwo, hcondition, hv, hs', -⟩ : ∃ w s v s',
      Run (World.step linkedMigration.toEnv 0) (EventOk linkedMigration.toEnv 0 false) .fresh
        twoPlainRecords w ∧ openedLog w.disk = some s ∧ s.log.highWatermark = 2 ∧
      ((∀ o ∈ s.purgedOffsets, s.log.highWatermark ≤ o) ∧
        s.leaderGeneration = 0) ∧
      migratedVolume w.disk = some v ∧ openedLog (v.disk newDir) = some s' ∧ True := by
    decide +kernel
  obtain ⟨report, hmigrate⟩ := migrate_of_migratedVolume hv
  have hopen : OpensTo linkedMigration.toEnv 0 w.disk s := opensTo_of_openedLog hs
  have hopen' : OpensTo linkedMigration.toEnv 0 (v.disk newDir) s' := opensTo_of_openedLog hs'
  have hreplaces : Replaces linkedMigration.toEnv s s' :=
    (migration_replaces_iff linkedMigration_inPlace hrun (disk_volumeWith w.disk) hmigrate hopen
      hopen').mpr hcondition
  exact ⟨w, v, report, s, s', hrun, hmigrate, hopen, hopen', htwo, hreplaces⟩

/-- Two records under generation 5, the first of them purged. -/
def fencedAndPurged : List Event :=
  [.run (.openLog (unrolled .group) 1 0),
    .run (.call (.append 0 (plainRecord 1) [1] (some 5))), .run (.call (appendPlain 2)),
    .run (.call (.purge 0)), .run .close]

set_option synthInstance.maxSize 2000 in
/-- **A migration brings a purged record back and lets a deposed leader append.** -/
theorem migration_forgets_purges_and_fence :
    ∃ w v report s s', LocalRun false .fresh fencedAndPurged w ∧
      migrateV1ToV2 linkedMigration oldDir newDir 0 (volumeWith w.disk) = (.ok report, v) ∧
      OpensTo localEnv 0 w.disk s ∧ OpensTo localEnv 0 (v.disk newDir) s' ∧
      (readRange localEnv s.disk s.log 0 0 10).map (·.map StoredMessage.offset) = .ok [1] ∧
      (readRange localEnv s'.disk s'.log 0 0 10).map (·.map StoredMessage.offset) = .ok [0, 1] ∧
      (appendFenced localEnv 0 (plainRecord 3) [3] (some 3) s).1 = .error (.staleFence 3 5) ∧
      (appendFenced localEnv 0 (plainRecord 3) [3] (some 3) s').1.toBool = true := by
  obtain ⟨w, s, v, s', hrun, hs, hv, hs', hread, hread', hstale, hfive, haccepted⟩ : ∃ w s v s',
      LocalRun false .fresh
        fencedAndPurged w ∧ openedLog w.disk = some s ∧ migratedVolume w.disk = some v ∧
      openedLog (v.disk newDir) = some s' ∧
      (readRange localEnv s.disk s.log 0 0 10).map (·.map StoredMessage.offset) = .ok [1] ∧
      (readRange localEnv s'.disk s'.log 0 0 10).map (·.map StoredMessage.offset) = .ok [0, 1] ∧
      3 < s.leaderGeneration ∧ s.leaderGeneration = 5 ∧
      (appendFenced localEnv 0 (plainRecord 3) [3] (some 3) s').1.toBool = true := by
    decide +kernel
  obtain ⟨report, hmigrate⟩ := migrate_of_migratedVolume hv
  refine ⟨w, v, report, s, s', hrun, hmigrate, opensTo_of_openedLog hs, opensTo_of_openedLog hs',
    hread, hread', ?_, haccepted⟩
  rw [appendFenced_stale hstale, hfive]

end BetterMQ
