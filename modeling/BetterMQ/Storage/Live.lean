import BetterMQ.Lib.Slots
import BetterMQ.Storage.Recovery

/-!
# The invariant of an open log: flush and roll

`Live fmt strict L s` relates a running log to the layout of its directory. An operation is
described by `OpStep`: it ends in a live log again, its layout extends the one before, and every
disk it passed through (where a crash may strike) holds a layout in between.

* **`flushDurable_step`**, **`rollSegment_step`** — the two operations that move records towards
  durability.
-/

namespace BetterMQ

open List Prog

variable {c : Codec} {fmt : WalFormat} {strict : Bool}

/-! ## Live logs -/

/-- The number of rolls recorded in `meta.json` is the number of sealed segments. -/
def RollSaved (L : Layout c) (d : Disk) : Prop :=
  ∃ mt, d.savedMeta = some mt ∧ mt.segmentRollCount = L.sealed.length

/-- A roll has renamed the WAL but not yet saved the new roll count. -/
def RollStale (L : Layout c) (d : Disk) : Prop :=
  ∃ mt, d.savedMeta = some mt ∧ mt.segmentRollCount + 1 = L.sealed.length

/-- An index of the records `xs`, all below the offset `next`. Some of the purged ones are hidden: a
record appended at an offset that was purged before is not. A batch that failed to encode leaves
entries behind, all from `next` on. -/
def Indexes (purged : List Nat) (xs : List (Placed c)) (next : Nat) (index : Index) : Prop :=
  ∃ hidden junk, (∀ o ∈ hidden, o ∈ purged) ∧ index = scannedIndex hidden .wal xs ++ junk ∧
    ∀ e ∈ junk, next ≤ e.1

/-- The in-memory index of the active WAL. -/
structure IndexOk (fmt : WalFormat) (L : Layout c) (log : PartitionLog) : Prop where
  wal : ∀ e ∈ log.index, e.2.path = .wal
  entries : Indexes log.purgedOffsets (placed fmt L.base 0 L.active) L.frames.length log.index

structure Live (fmt : WalFormat) (strict : Bool) (L : Layout c) (s : Sys) : Prop where
  onDisk : OnDisk fmt s.manifest strict L [] s.disk
  wal : s.disk.wal.isSome = true
  rollSaved : RollSaved L s.disk
  rollCount : s.segmentRollCount = L.sealed.length
  nextOffset : s.nextOffset = L.frames.length
  walSize : s.walSize = (fileBytes fmt s.shardId L.base L.active).length
  activeBaseOffset : s.activeBaseOffset = L.base
  sealedIndexes : SealedOk fmt s.shardId 0 L.sealed s.sealedIndexes
  index : IndexOk fmt L s.log
  mode : strict = true → s.config.fsync ≠ .os
  committed : strict = true → s.committedHwm ≤ L.durableFrames.length

variable {L : Layout c} {s : Sys} {env : Env} {m : WalManifest} {name : FileName} {d : Disk}

theorem Live.wal_eq (h : Live fmt strict L s) :
    s.disk.wal = some ⟨fileBytes fmt s.shardId L.base L.active,
      (fileBytes fmt s.shardId L.base L.durable).length⟩ := by
  rcases h.onDisk.wal with hsome | ⟨hnone, -⟩
  · rwa [append_nil] at hsome
  · have := h.wal
    rw [hnone] at this
    cases this

/-- A disk on which a crash may strike during an operation that leads from `L` to `L'`. -/
def CrashPoint (fmt : WalFormat) (m : WalManifest) (strict : Bool) (L L' : Layout c) (d : Disk) :
    Prop :=
  ∃ L'', OnDisk fmt m strict L'' [] d ∧ (RollSaved L'' d ∨ RollStale L'' d) ∧ L.Grows L'' ∧
    L''.frames <+: L'.frames

/-- One step of a live log, from the layout `L` to `L'`. -/
structure OpStep (fmt : WalFormat) (strict : Bool) (L : Layout c) (s : Sys) (L' : Layout c)
    (s' : Sys) : Prop where
  live : Live fmt strict L' s'
  grows : L.Grows L'
  frames : L.frames <+: L'.frames
  manifest : s'.manifest = s.manifest
  config : s'.config = s.config
  trace : ∃ ds, s'.trace = s.trace ++ ds ∧
    ∀ d ∈ ds, CrashPoint fmt s.manifest strict L L' d

theorem OpStep.refl (h : Live fmt strict L s) : OpStep fmt strict L s L s :=
  ⟨h, .refl L, prefix_rfl, rfl, rfl, [], by simp, by simp⟩

theorem OpStep.trans {L₁ L₂ : Layout c} {s₁ s₂ : Sys} (h₁ : OpStep fmt strict L s L₁ s₁)
    (h₂ : OpStep fmt strict L₁ s₁ L₂ s₂) : OpStep fmt strict L s L₂ s₂ := by
  obtain ⟨ds₁, htrace₁, hds₁⟩ := h₁.trace
  obtain ⟨ds₂, htrace₂, hds₂⟩ := h₂.trace
  refine ⟨h₂.live, h₁.grows.trans h₂.grows, h₁.frames.trans h₂.frames,
    h₂.manifest.trans h₁.manifest, h₂.config.trans h₁.config, ds₁ ++ ds₂, ?_, ?_⟩
  · rw [htrace₂, htrace₁, append_assoc]
  · intro d hd
    rcases mem_append.mp hd with hd₁ | hd₂
    · obtain ⟨L'', hdisk, hroll, hgrows, hframes⟩ := hds₁ d hd₁
      exact ⟨L'', hdisk, hroll, hgrows, hframes.trans h₂.frames⟩
    · obtain ⟨L'', hdisk, hroll, hgrows, hframes⟩ := hds₂ d hd₂
      rw [h₁.manifest] at hdisk
      exact ⟨L'', hdisk, hroll, h₁.grows.trans hgrows, hframes⟩

theorem Live.withLog (h : Live fmt strict L s) (f : PartitionLog → PartitionLog)
    (hmanifest : (f s.log).manifest = s.manifest) (hconfig : (f s.log).config = s.config)
    (hroll : (f s.log).segmentRollCount = s.segmentRollCount)
    (hnext : (f s.log).nextOffset = s.nextOffset)
    (hsize : (f s.log).walSize = s.walSize)
    (hbase : (f s.log).activeBaseOffset = s.activeBaseOffset)
    (hsealed : (f s.log).sealedIndexes = s.sealedIndexes) (hindex : IndexOk fmt L (f s.log))
    (hcommitted : strict = true → (f s.log).committedHwm ≤ L.durableFrames.length) :
    OpStep fmt strict L s L (s.withLog f) := by
  refine ⟨⟨?_, h.wal, h.rollSaved, hroll.trans h.rollCount, hnext.trans h.nextOffset, ?_,
    hbase.trans h.activeBaseOffset, ?_, hindex, ?_, hcommitted⟩, .refl L, prefix_rfl,
    hmanifest, hconfig, [], by simp [Sys.withLog], by simp⟩
  · rw [show (s.withLog f).log = f s.log from rfl, hmanifest]
    exact h.onDisk
  · show (f s.log).walSize = (fileBytes fmt (f s.log).manifest.shardId L.base L.active).length
    rw [hsize, hmanifest]
    exact h.walSize
  · show SealedOk fmt (f s.log).manifest.shardId 0 L.sealed (f s.log).sealedIndexes
    rw [hsealed, hmanifest]
    exact h.sealedIndexes
  · intro hstrict
    show (f s.log).config.fsync ≠ .os
    rw [hconfig]
    exact h.mode hstrict

/-! ## Flush -/

theorem Live.syncWal (h : Live fmt strict L s) :
    OnDisk fmt s.manifest strict L.flushed [] s.disk.syncWal := by
  have hset := h.onDisk.setWal L.flushed [] rfl (by simpa using h.onDisk.activeOk) (.nil fmt)
  rw [Layout.flushed_active, Layout.flushed_durable, append_nil] at hset
  simpa only [Disk.syncWal, h.wal_eq, Option.map_some, FileData.sync] using hset

theorem durableFrames_flushed (L : Layout c) : L.flushed.durableFrames = L.frames := rfl

theorem Live.sync_step (h : Live fmt strict L s) :
    OpStep fmt strict L s L.flushed (s.put s.disk.syncWal) := by
  refine ⟨⟨h.syncWal, ?_, h.rollSaved, h.rollCount, ?_, ?_, h.activeBaseOffset, h.sealedIndexes,
    ?_, h.mode, ?_⟩, L.grows_flushed, ?_, rfl, rfl, [s.disk.syncWal], rfl, ?_⟩
  · show s.disk.syncWal.wal.isSome = true
    simp [Disk.syncWal, h.wal_eq]
  · rw [Layout.flushed_frames]
    exact h.nextOffset
  · rw [Layout.flushed_active]
    exact h.walSize
  · refine ⟨h.index.wal, ?_⟩
    rw [Layout.flushed_active, Layout.flushed_frames]
    exact h.index.entries
  · intro hstrict
    exact (h.committed hstrict).trans L.durableFrames_prefix.length_le
  · exact ⟨[], (append_nil _).trans L.flushed_frames.symm⟩
  · intro d hd
    rw [mem_singleton] at hd
    subst hd
    exact ⟨L.flushed, h.syncWal, .inl h.rollSaved, L.grows_flushed, prefix_rfl⟩

theorem Live.saveMeta_step (h : Live fmt strict L s) :
    OpStep fmt strict L s L (s.put (s.disk.saveMeta s.logMeta)) := by
  have hdisk := h.onDisk.saveMeta s.logMeta
  have hroll : RollSaved L (s.disk.saveMeta s.logMeta) := ⟨_, rfl, h.rollCount⟩
  refine ⟨⟨hdisk, h.wal, hroll, h.rollCount, h.nextOffset, h.walSize, h.activeBaseOffset,
    h.sealedIndexes, h.index, h.mode, h.committed⟩, .refl L, prefix_rfl, rfl, rfl,
    [s.disk.saveMeta s.logMeta], rfl, ?_⟩
  intro d hd
  rw [mem_singleton] at hd
  subst hd
  exact ⟨L, hdisk, .inl hroll, .refl L, prefix_rfl⟩

/-- The log after the fsync that its mode asks for. -/
def Sys.synced (s : Sys) : Sys := if s.config.fsync ≠ .os then s.put s.disk.syncWal else s

theorem Sys.synced_same (s : Sys) :
    s.synced.log = s.log ∧ s.synced.disk.savedMeta = s.disk.savedMeta := by
  unfold Sys.synced
  split <;> exact ⟨rfl, rfl⟩

/-- `flush_durable` with its branches laid out. -/
theorem flushDurable_eq (s : Sys) :
    flushDurable s =
      if s.dirty = false then (.ok (), s)
      else if s.failNextSync then
        (.error (.io (.other "injected fsync failure")),
          s.withLog fun log => { log with failNextSync := false })
      else
        let s₂ := s.synced.withLog fun log =>
          { log with
            committedHwm := log.nextOffset
            flushCount := satAdd64 log.flushCount 1 }
        let s₃ := if s₂.config.fsync = .always ∨ s₂.flushCount % 32 = 0 then
          s₂.put (s₂.disk.saveMeta s₂.logMeta) else s₂
        (.ok (), s₃.withLog fun log => { log with dirty := false }) := by
  unfold flushDurable Sys.synced
  simp only [getLog_bind]
  by_cases hdirty : s.dirty = false
  · rw [if_pos hdirty, if_pos hdirty, pure_apply]
  · rw [if_neg hdirty, if_neg hdirty]
    by_cases hfail : s.failNextSync = true
    · rw [if_pos hfail, if_pos hfail, modifyLog_bind, fail_apply]
    · rw [if_neg hfail]
      by_cases hsync : s.config.fsync ≠ .os
      · simp only [if_pos hsync, modifyDisk_bind, modifyLog_bind, getLog_bind]
        split
        · rw [saveMeta_bind, modifyLog_apply]
        · rw [modifyLog_apply]
      · simp only [if_neg hsync, modifyLog_bind, getLog_bind]
        split
        · rw [saveMeta_bind, modifyLog_apply]
        · rw [modifyLog_apply]

theorem Live.covered_step (h : Live fmt strict L s) :
    ∃ L₁, OpStep fmt strict L s L₁ s.synced ∧ L₁.sealed = L.sealed ∧ L₁.active = L.active ∧
      (strict = true → L₁.durable = L₁.active) := by
  unfold Sys.synced
  by_cases hmode : s.config.fsync ≠ .os
  · rw [if_pos hmode]
    exact ⟨L.flushed, h.sync_step, rfl, L.flushed_active, fun _ => L.flushed_active.symm⟩
  · rw [if_neg hmode]
    exact ⟨L, .refl h, rfl, rfl, fun hstrict => absurd (h.mode hstrict) hmode⟩

/-- **A flush keeps the log live.** Its records are those before; outside `Os` mode a flush that
went through has fsynced all of them. -/
theorem flushDurable_step (h : Live fmt strict L s) :
    ∃ L', OpStep fmt strict L s L' (flushDurable s).2 ∧ L'.frames = L.frames := by
  rw [flushDurable_eq]
  split
  · exact ⟨L, .refl h, rfl⟩
  · split
    · have hstep := h.withLog (fun log => { log with failNextSync := false })
        rfl rfl rfl rfl rfl rfl rfl ⟨h.index.wal, h.index.entries⟩ h.committed
      exact ⟨L, hstep, rfl⟩
    · -- the WAL is fsynced, then the watermark moves, then `meta.json` may be saved
      obtain ⟨L₁, hsync, hsealed, hact, hcovered⟩ := h.covered_step
      refine ⟨L₁, ?_, by rw [Layout.frames, hsealed, hact, Layout.frames]⟩
      have hmark := hsync.live.withLog (fun log => { log with
          committedHwm := log.nextOffset
          flushCount := satAdd64 log.flushCount 1 })
        rfl rfl rfl rfl rfl rfl rfl ⟨hsync.live.index.wal, hsync.live.index.entries⟩
        (fun hstrict => by
          rw [Layout.durableFrames, hcovered hstrict]
          exact hsync.live.nextOffset.le)
      set s₂ := s.synced.withLog fun log => { log with
        committedHwm := log.nextOffset
        flushCount := satAdd64 log.flushCount 1 }
      have hsave : OpStep fmt strict L₁ s₂ L₁
          (if s₂.config.fsync = .always ∨ s₂.flushCount % 32 = 0 then
            s₂.put (s₂.disk.saveMeta s₂.logMeta) else s₂) := by
        split
        · exact hmark.live.saveMeta_step
        · exact .refl hmark.live
      have hclean := hsave.live.withLog (fun log => { log with dirty := false })
        rfl rfl rfl rfl rfl rfl rfl ⟨hsave.live.index.wal, hsave.live.index.entries⟩
        hsave.live.committed
      exact ((hsync.trans hmark).trans hsave).trans hclean

/-! ## Roll -/

/-- The layout after a roll: the WAL is the next sealed segment. -/
def Layout.rolled (L : Layout c) : Layout c :=
  ⟨L.sealed ++ [(segmentName L.sealed.length, L.active)], [], []⟩

theorem rolled_frames (L : Layout c) : L.rolled.frames = L.frames := by
  simp [Layout.rolled, Layout.frames, Layout.active]

theorem rolled_durableFrames (L : Layout c) : L.rolled.durableFrames = L.frames := by
  simp [Layout.rolled, Layout.durableFrames, Layout.frames]

theorem rolled_base (L : Layout c) : L.rolled.base = L.frames.length := by
  simp [Layout.rolled, Layout.base, Layout.frames]

theorem grows_rolled (L : Layout c) : L.Grows L.rolled :=
  ⟨List.prefix_append _ _, by rw [rolled_durableFrames]; exact L.durableFrames_prefix⟩

theorem OnDisk.fresh_name {tail : Bytes} (h : OnDisk fmt m strict L tail d) :
    ∀ f ∈ d.segments, f.1 ≠ segmentName L.sealed.length := by
  intro f hf heq
  have hmem : f.1 ∈ d.segments.map Prod.fst := mem_map_of_mem hf
  rw [h.segment_names, heq] at hmem
  obtain ⟨i, hi, hname⟩ := mem_map.mp hmem
  have hi' := mem_range.mp hi
  have := segmentName_injective hname
  omega

theorem OnDisk.rename {synced : Nat} (h : OnDisk fmt m strict L [] d) (hne : records L.active ≠ [])
    (hsynced : strict = true → synced = (fileBytes fmt m.shardId L.base L.active).length) :
    OnDisk fmt m strict L.rolled [] (d.sealWal (segmentName L.sealed.length)
        ⟨fileBytes fmt m.shardId L.base L.active, synced⟩) := by
  have hfilter : d.segments.filter (fun f => f.1 ≠ segmentName L.sealed.length) = d.segments := by
    rw [filter_eq_self]
    intro f hf
    simpa using h.fresh_name f hf
  refine ⟨h.manifest, h.format, ?_, ?_, ?_, ?_, trivial, .nil fmt, .inr ⟨rfl, rfl, rfl⟩, h.logMeta⟩
  · rw [Layout.rolled, map_append, h.names, length_append, length_singleton, range_succ, map_append]
    rfl
  · simp only [Disk.sealWal, Disk.putSegment, hfilter, map_append, h.segments, Layout.rolled,
      segmentFiles_append, Nat.zero_add]
    rfl
  · intro hstrict f hf
    simp only [Disk.sealWal, Disk.putSegment, hfilter] at hf
    rcases mem_snoc.mp hf with hold | rfl
    · exact h.synced hstrict f hold
    · exact hsynced hstrict
  · rw [Layout.rolled, sealedFilesOk_append, Nat.zero_add]
    exact ⟨h.sealedOk, ⟨h.activeOk, hne⟩, trivial⟩

theorem sealActive_eq (bytes : Bytes) (g : SegmentIndex) (hnext : s.nextOffset > s.activeBaseOffset)
    (hread : s.disk.read (.segment name) = some bytes)
    (hbuild : buildSparseIndex env.codec s.manifest (.segment name) s.activeBaseOffset
      s.nextOffset bytes = .ok g) :
    sealActive env name s = (.ok (), s.withLog fun log =>
      { log with
        sealedIndexes := s.sealedIndexes ++ [g]
        index := log.index.filter fun e => e.2.path ≠ .wal
        activeBaseOffset := log.nextOffset }) := by
  simp only [sealActive, hnext, if_true, hread, hbuild]
  rfl

/-- A roll, once the WAL is fsynced: rename, checkpoint, and the new WAL. -/
def rollTail (env : Env) (name : FileName) : LogM Unit := do
  renameWal name
  modifyLog fun log =>
    { log with segmentRollCount := log.segmentRollCount + 1 }
  saveMeta
  modifyLog fun log => { log with dirty := false, committedHwm := log.nextOffset }
  sealActive env name
  modifyDisk Disk.createWal
  modifyLog fun log => { log with walSize := 0 }
  enqueueSealedSegment env name

theorem rollSegment_eq (env : Env) (s : Sys) :
    rollSegment env s =
      if s.walSize = 0 then (.ok (), s)
      else rollTail env (segmentName s.segmentRollCount) s.synced := by
  unfold rollSegment Sys.synced
  simp only [getLog_bind]
  by_cases hsize : s.walSize = 0
  · rw [if_pos hsize, if_pos hsize, pure_apply]
  · rw [if_neg hsize, if_neg hsize]
    by_cases hmode : s.config.fsync ≠ .os
    · simp only [if_pos hmode, modifyDisk_bind]
      rfl
    · simp only [if_neg hmode]
      rfl

/-- The log a roll leaves: the WAL is sealed under the name, with the sparse index `g`. -/
def Sys.rolled (s : Sys) (name : FileName) (file : FileData) (g : SegmentIndex) : Sys :=
  let logMeta := { s.logMeta with segmentRollCount := s.segmentRollCount + 1 }
  let renamed := s.disk.sealWal name file
  let saved := renamed.saveMeta logMeta
  ⟨⟨saved.createWal, s.trace ++ [renamed, saved, saved.createWal]⟩,
    { s.log with
      logMeta := logMeta
      dirty := false
      committedHwm := s.nextOffset
      sealedIndexes := s.sealedIndexes ++ [g]
      index := s.index.filter fun e => e.2.path ≠ .wal
      activeBaseOffset := s.nextOffset
      walSize := 0 }⟩

theorem rollTail_eq {file : FileData} {bytes : Bytes} {g : SegmentIndex}
    (harchive : env.archive = false) (hwal : s.disk.wal = some file)
    (hnext : s.nextOffset > s.activeBaseOffset)
    (hread : (s.disk.sealWal name file).read (.segment name) = some bytes)
    (hbuild : buildSparseIndex env.codec s.manifest (.segment name) s.activeBaseOffset
      s.nextOffset bytes = .ok g) :
    rollTail env name s = (.ok (), s.rolled name file g) := by
  have hrename : renameWal name s = (.ok (), s.put (s.disk.sealWal name file)) := by
    simp [renameWal, hwal]
  unfold rollTail
  rw [bind_ok hrename]
  refine (bind_ok (sealActive_eq bytes g ?_ ?_ ?_)).trans ?_
  · exact hnext
  · exact hread
  · exact hbuild
  · rw [modifyDisk_bind, modifyLog_bind]
    simp only [enqueueSealedSegment, harchive, Bool.false_eq_true, false_and, if_false,
      Sys.withLog, Sys.put, Store.put, append_assoc, cons_append, nil_append,
      Sys.rolled]

/-- The WAL of a live log, as the roll renames it. -/
def Layout.walFile (fmt : WalFormat) (shard : UInt32) (L : Layout c) : FileData :=
  ⟨fileBytes fmt shard L.base L.active, (fileBytes fmt shard L.base L.durable).length⟩

theorem Live.renamed (h : Live fmt strict L s) (hactive : records L.active ≠ [])
    (hcovered : strict = true → L.durable = L.active) :
    OnDisk fmt s.manifest strict L.rolled []
      (s.disk.sealWal (segmentName L.sealed.length) (L.walFile fmt s.shardId)) :=
  h.onDisk.rename hactive fun hstrict => by rw [hcovered hstrict]

theorem Live.active_ne_nil (h : Live fmt strict L s)
    (hnew : s.activeBaseOffset < s.nextOffset) : records L.active ≠ [] := by
  intro hnil
  rw [h.nextOffset, L.length_frames, hnil, h.activeBaseOffset] at hnew
  exact Nat.lt_irrefl _ hnew

section

variable {L : Layout env.codec} (h : Live fmt strict L s) (harchive : env.archive = false)

include h harchive

/-- On a live log with a record in its WAL the roll goes through, and the sparse index it builds is
that of the records sealed. -/
theorem Live.rollTail_run (hactive : records L.active ≠ [])
    (hcovered : strict = true → L.durable = L.active) :
    ∃ g, SegmentOk fmt s.shardId L.base L.active (.segment (segmentName L.sealed.length)) g ∧
      rollTail env (segmentName L.sealed.length) s = (.ok (), s.rolled
        (segmentName L.sealed.length) (L.walFile fmt s.shardId) g) := by
  have hread := (h.renamed hactive hcovered).read_segment
    (segmentName L.sealed.length, (L.walFile fmt s.shardId).bytes)
    (by
      rw [Layout.rolled, segmentFiles_append]
      simp [segmentFiles, Layout.walFile, Layout.base])
  have hnext : s.nextOffset = L.base + (records L.active).length := by
    rw [h.nextOffset, L.length_frames]
  obtain ⟨g, hbuild, hg⟩ := buildSparseIndex_layout (.segment (segmentName L.sealed.length))
    h.onDisk.format h.onDisk.activeOk hactive
  have hgt : s.nextOffset > s.activeBaseOffset := by
    have hpos : 0 < (records L.active).length := length_pos_iff.mpr hactive
    rw [h.activeBaseOffset]
    omega
  exact ⟨g, hg, rollTail_eq harchive h.wal_eq hgt hread
    (by rw [h.activeBaseOffset, hnext]; exact hbuild)⟩

theorem rollTail_step (hactive : records L.active ≠ [])
    (hcovered : strict = true → L.durable = L.active) :
    ∃ s', rollTail env (segmentName L.sealed.length) s = (.ok (), s') ∧
      OpStep fmt strict L s L.rolled s' ∧ s'.failNextSync = s.failNextSync := by
  obtain ⟨g, hg, hrun⟩ := h.rollTail_run harchive hactive hcovered
  have hrenamed := h.renamed hactive hcovered
  refine ⟨_, hrun, ?_, rfl⟩
  set m := s.manifest
  set file := L.walFile fmt m.shardId
  set logMeta := { s.logMeta with
    segmentRollCount := s.segmentRollCount + 1 } with hlogMeta
  have hcount : logMeta.segmentRollCount = L.rolled.sealed.length := by
    simp [hlogMeta, h.rollCount, Layout.rolled]
  have hsaved := hrenamed.saveMeta logMeta
  have hcreated := hsaved.created
  have hroll : RollSaved L.rolled ((s.disk.sealWal (segmentName L.sealed.length) file).saveMeta
    logMeta) := ⟨logMeta, rfl, hcount⟩
  have hstale : RollStale L.rolled (s.disk.sealWal (segmentName L.sealed.length) file) := by
    obtain ⟨mt, hmt, hmtcount⟩ := h.rollSaved
    refine ⟨mt, hmt, ?_⟩
    simp [hmtcount, Layout.rolled]
  have hindex : s.index.filter (fun e => e.2.path ≠ .wal) = [] := by
    rw [filter_eq_nil_iff]
    intro e he
    simp [h.index.wal e he]
  refine ⟨⟨hcreated, ?_, hroll, hcount, ?_, ?_, ?_, ?_, ?_, h.mode, ?_⟩, grows_rolled L, ?_, rfl,
    rfl, _, rfl, ?_⟩
  · rfl
  · rw [rolled_frames]
    exact h.nextOffset
  · rfl
  · rw [rolled_base]
    exact h.nextOffset
  · exact h.sealedIndexes.snoc (by rw [Nat.zero_add]; exact hg)
  · refine ⟨?_, [], [], by simp, ?_, by simp⟩
    · show ∀ e ∈ s.index.filter _, _
      rw [hindex]
      simp
    · show s.index.filter _ = _
      rw [hindex]
      rfl
  · intro _
    rw [rolled_durableFrames]
    exact h.nextOffset.le
  · exact ⟨[], (append_nil _).trans (rolled_frames L).symm⟩
  · -- the three crash points: renamed, saved, WAL created
    intro d hd
    have hframes : L.rolled.frames <+: L.rolled.frames := prefix_rfl
    simp only [mem_cons, not_mem_nil, or_false] at hd
    rcases hd with rfl | rfl | rfl
    · exact ⟨L.rolled, hrenamed, .inr hstale, grows_rolled L, hframes⟩
    · exact ⟨L.rolled, hsaved, .inl hroll, grows_rolled L, hframes⟩
    · exact ⟨L.rolled, hcreated, .inl hroll, grows_rolled L, hframes⟩

/-- **A roll goes through, keeps the log live** and seals every record of the WAL, of which there is
one. -/
theorem rollSegment_step (hnew : s.activeBaseOffset < s.nextOffset) :
    ∃ L' s', rollSegment env s = (.ok (), s') ∧ OpStep fmt strict L s L' s' ∧
      L'.frames = L.frames ∧ s'.failNextSync = s.failNextSync := by
  rw [rollSegment_eq]
  by_cases hsize : s.walSize = 0
  · rw [if_pos hsize]
    exact ⟨L, s, rfl, .refl h, rfl, rfl⟩
  · rw [if_neg hsize]
    obtain ⟨L₁, hsync, hsealed, hact, hcovered⟩ := h.covered_step
    obtain ⟨s', hrun, htail, hfault⟩ := rollTail_step hsync.live harchive
      (by rw [hact]; exact h.active_ne_nil hnew) hcovered
    rw [hsealed, ← h.rollCount] at hrun
    refine ⟨L₁.rolled, s', hrun, hsync.trans htail, ?_, s.synced_same.1 ▸ hfault⟩
    rw [rolled_frames, Layout.frames, hsealed, hact, Layout.frames]

theorem rollIfFull_step (hnew : s.activeBaseOffset < s.nextOffset) :
    ∃ L' s', rollIfFull env s = (.ok (), s') ∧ OpStep fmt strict L s L' s' ∧
      L'.frames = L.frames ∧ s'.failNextSync = s.failNextSync := by
  unfold rollIfFull
  rw [getLog_bind]
  split
  · exact rollSegment_step h harchive hnew
  · exact ⟨L, s, rfl, .refl h, rfl, rfl⟩

end

theorem afterWrite_eq (s : Sys) :
    afterWrite s = if s.config.fsync = .always then
      flushDurable (s.withLog fun log => { log with dirty := true })
      else (.ok (), s.withLog fun log => { log with dirty := true }) := by
  simp only [afterWrite, modifyLog_bind, getLog_bind, Sys.withLog]
  cases s.config.fsync <;> rfl

theorem afterWrite_step (h : Live fmt strict L s) :
    ∃ L', OpStep fmt strict L s L' (afterWrite s).2 ∧ L'.frames = L.frames := by
  have hdirty := h.withLog (fun log => { log with dirty := true })
    rfl rfl rfl rfl rfl rfl rfl ⟨h.index.wal, h.index.entries⟩ h.committed
  rw [afterWrite_eq]
  split
  · obtain ⟨L', hflush, hframes⟩ := flushDurable_step hdirty.live
    exact ⟨L', hdirty.trans hflush, hframes⟩
  · exact ⟨L, hdirty, rfl⟩

theorem afterWrite_offsets (s : Sys) :
    (afterWrite s).2.nextOffset = s.nextOffset ∧
      (afterWrite s).2.activeBaseOffset = s.activeBaseOffset := by
  rw [afterWrite_eq, flushDurable_eq, Sys.synced]
  split
  · split
    · exact ⟨rfl, rfl⟩
    · split
      · exact ⟨rfl, rfl⟩
      · dsimp only
        split <;> split <;> exact ⟨rfl, rfl⟩
  · exact ⟨rfl, rfl⟩

/-! ## Calls that go through -/

/-- Run from `s`, `p` returns `a` and leaves no fsync failure injected. -/
def GoesThrough {α : Type} (p : LogM α) (s : Sys) (a : α) : Prop :=
  ∃ s', p s = (.ok a, s') ∧ s'.failNextSync = false

theorem flushDurable_ok (hsync : s.failNextSync = false) : GoesThrough flushDurable s () := by
  unfold GoesThrough
  rw [flushDurable_eq, Sys.synced]
  split
  · exact ⟨s, rfl, hsync⟩
  · rw [if_neg (by rw [hsync]; exact Bool.false_ne_true)]
    refine ⟨_, rfl, ?_⟩
    split <;> split <;> exact hsync

theorem afterWrite_ok (hsync : s.failNextSync = false) : GoesThrough afterWrite s () := by
  unfold GoesThrough
  rw [afterWrite_eq]
  split
  · exact flushDurable_ok hsync
  · exact ⟨_, rfl, hsync⟩

end BetterMQ
