import BetterMQ.Storage.Durability

/-!
# Garbage collection of sealed segments

Recovery counts offsets from zero over the files it finds, so a collection that deletes a segment
is not forgotten by a reopen: a V1 log renumbers the records that are left, and a V2 log, whose
epochs carry their first offset, does not open at all unless nothing is left.

* **`collection_invisible_iff`** — a collection is invisible to a close and reopen exactly when it
  deletes nothing.
-/

namespace BetterMQ

open List Option

variable {env : Env} {c : Codec} {shard : UInt32} {strict : Bool} {fmt : WalFormat}

/-! ## What invisible means -/

/-- `gc_sealed_below`, then a clean close. -/
def collectAndClose (watermark : Nat) (s : Sys) : Sys := (dropLog (gcSealedBelow watermark s).2).2

/-- The offset is in a segment that a collection at `watermark` deletes. -/
def Deleted (log : PartitionLog) (watermark offset : Nat) : Prop :=
  ∃ g ∈ log.sealedIndexes, collectable watermark g = true ∧ g.firstOffset ≤ offset ∧
    offset < g.lastOffset

/-- The reopened log `log'` differs from `log` by the deleted records only. -/
structure KeptAcross (env : Env) (log : PartitionLog) (items : List Item) (watermark : Nat)
    (log' : PartitionLog) (st : Store) : Prop where
  highWatermark : log'.highWatermark = log.highWatermark
  record : ∀ (offset : Nat) (item : Item), items[offset]? = some item →
    ¬ Deleted log watermark offset → offset ∉ log'.purgedOffsets → ∀ partition : UInt32,
      readRange env st.disk log' partition offset 1
        = .ok [storedMessage item.1 item.2 partition offset]
  append : ∀ (partition : UInt32) (header : LogRecord) (payload : Bytes) (fence : Option Nat)
    (out : StoredMessage × Bytes),
    (appendFenced env partition header payload fence ⟨st, log'⟩).1 = .ok out →
      out.1.offset = log.highWatermark

/-- A collection on the live log `s` with the records `items` is invisible to every reopen. -/
def CollectionInvisible (env : Env) (s : Sys) (items : List Item) (watermark : Nat) : Prop :=
  ∀ (config : PartitionLogConfig) (requested : UInt16) (now : Nat), ∃ log' st,
    openForShard env config s.shardId requested now
        ⟨(collectAndClose watermark s).disk, []⟩ = (.ok log', st) ∧
      KeptAcross env s.log items watermark log' st

/-! ## Offsets of appends -/

variable {s : Sys} {fence : Option Nat} {partition : UInt32}

theorem appendBatch_offsets {items : List Item} {out : List (StoredMessage × Bytes)}
    (hne : items ≠ []) (h : (appendBatch env partition items fence s).1 = .ok out) :
    out.map Prod.fst = messagesFrom partition s.log.highWatermark items := by
  obtain ⟨_, _, -, rfl⟩ := (appendBatch_run env partition hne fence s).result h
  exact stampedFrames_fst ..

theorem appendFenced_offset {header : LogRecord} {payload : Bytes} {out : StoredMessage × Bytes}
    (h : (appendFenced env partition header payload fence s).1 = .ok out) :
    out.1.offset = s.log.highWatermark := by
  obtain ⟨_, _, -, rfl⟩ := (appendFenced_run env partition header payload fence s).result h
  rfl

/-! ## The directory after a collection and a close -/

/-- The same manifest, segments and WAL bytes; fsyncs and `meta.json` may differ. -/
structure SameFiles (d d' : Disk) : Prop where
  manifest : d'.manifest = d.manifest
  segments : d'.segments = d.segments
  wal : d'.wal.map FileData.bytes = d.wal.map FileData.bytes

theorem SameFiles.refl (d : Disk) : SameFiles d d := ⟨rfl, rfl, rfl⟩

theorem SameFiles.trans {d₁ d₂ d₃ : Disk} (h₁ : SameFiles d₁ d₂) (h₂ : SameFiles d₂ d₃) :
    SameFiles d₁ d₃ :=
  ⟨h₂.manifest.trans h₁.manifest, h₂.segments.trans h₁.segments, h₂.wal.trans h₁.wal⟩

theorem sameFiles_saveMeta (d : Disk) (mt : LogMeta) :
    SameFiles d (d.saveMeta mt) := ⟨rfl, rfl, rfl⟩

theorem sameFiles_syncWal (d : Disk) : SameFiles d d.syncWal := by
  refine ⟨rfl, rfl, ?_⟩
  rw [Disk.syncWal, Option.map_map]
  rfl

theorem dropLog_sameFiles (s : Sys) : SameFiles s.disk (dropLog s).2.disk := by
  refine SameFiles.trans ?_ (sameFiles_saveMeta _ _)
  rw [flushDurable_eq]
  split
  · exact .refl _
  · split
    · exact .refl _
    · dsimp only
      have hsync : SameFiles s.disk s.synced.disk := by
        unfold Sys.synced
        split
        · exact sameFiles_syncWal _
        · exact .refl _
      refine hsync.trans ?_
      split
      · exact sameFiles_saveMeta _ _
      · exact .refl _

theorem removeSegments_eq (gs : List SegmentIndex) (s : Sys) :
    ∃ s', removeSegments gs s = (.ok (), s') ∧ s'.log = s.log ∧
      s'.disk.manifest = s.disk.manifest ∧ s'.disk.wal = s.disk.wal ∧
      s'.disk.segments = s.disk.segments.filter fun f => ∀ g ∈ gs, g.path ≠ .segment f.1 := by
  induction gs generalizing s with
  | nil => exact ⟨s, rfl, rfl, rfl, rfl, by simp⟩
  | cons g gs ih =>
    rw [removeSegments]
    cases hpath : g.path with
    | wal =>
      obtain ⟨s', hrun, hlog, hmanifest, hwal, hsegments⟩ := ih s
      refine ⟨s', hrun, hlog, hmanifest, hwal, hsegments.trans ?_⟩
      simp [hpath]
    | segment name =>
      obtain ⟨s', hrun, hlog, hmanifest, hwal, hsegments⟩ :=
        ih (s.put (s.disk.removeSegment name))
      refine ⟨s', hrun, hlog, hmanifest, hwal, hsegments.trans ?_⟩
      show (s.disk.segments.filter _).filter _ = _
      rw [List.filter_filter]
      apply filter_congr
      intro f _
      have hname : g.path ≠ .segment f.1 ↔ f.1 ≠ name := by
        rw [hpath]
        simp [eq_comm]
      rw [Bool.eq_iff_iff, Bool.and_eq_true, decide_eq_true_iff, decide_eq_true_iff,
        decide_eq_true_iff, forall_mem_cons, hname, and_comm]

variable {first : Nat} {ss : List (Sealed c)} {gs : List SegmentIndex}

section

variable (h : SealedOk fmt shard first ss gs)

include h

theorem SealedOk.paths : gs.map SegmentIndex.path = ss.map fun s => .segment s.1 := by
  induction ss generalizing first gs with
  | nil =>
    cases gs with
    | nil => rfl
    | cons g gs => exact h.elim
  | cons s ss ih =>
    obtain ⟨name, bs⟩ := s
    cases gs with
    | nil => exact h.elim
    | cons g gs => rw [map_cons, map_cons, ih h.2, h.1.path_eq]

theorem SealedOk.lt_lastOffset (hok : SealedFilesOk fmt first ss) :
    ∀ g ∈ gs, first < g.lastOffset := by
  induction ss generalizing first gs with
  | nil =>
    cases gs with
    | nil => simp
    | cons g gs => exact h.elim
  | cons s ss ih =>
    obtain ⟨name, bs⟩ := s
    cases gs with
    | nil => exact h.elim
    | cons g gs =>
      have hpos : 0 < (records bs).length := length_pos_iff.mpr hok.1.2
      intro g' hg'
      rcases mem_cons.mp hg' with rfl | hmem
      · rw [h.1.lastOffset]
        omega
      · have := ih h.2 hok.2 g' hmem
        omega

/-- Segments are collected from the front. -/
theorem SealedOk.split (hok : SealedFilesOk fmt first ss) (watermark : Nat) :
    ∃ dead rest, ss = dead ++ rest ∧
      SealedOk fmt shard first dead (gs.filter (collectable watermark)) := by
  induction ss generalizing first gs with
  | nil =>
    cases gs with
    | nil => exact ⟨[], [], rfl, trivial⟩
    | cons g gs => exact h.elim
  | cons s ss ih =>
    obtain ⟨name, bs⟩ := s
    cases gs with
    | nil => exact h.elim
    | cons g gs =>
      obtain ⟨hg, hgs⟩ := h
      by_cases hdead : collectable watermark g = true
      · obtain ⟨dead, rest, rfl, hdeadOk⟩ := ih hgs hok.2
        refine ⟨(name, bs) :: dead, rest, rfl, ?_⟩
        rw [filter_cons_of_pos hdead]
        exact ⟨hg, hdeadOk⟩
      · -- a segment that stays ends above the watermark, and so do all after it
        have hlater := hgs.lt_lastOffset hok.2
        have hpos : 0 < (records bs).length := length_pos_iff.mpr hok.1.2
        have hlast := hg.lastOffset
        have hstays : watermark < g.lastOffset := by
          unfold collectable at hdead
          rw [decide_eq_true_iff] at hdead
          omega
        have hnone : (g :: gs).filter (collectable watermark) = [] := by
          rw [filter_eq_nil_iff]
          intro g' hg'
          unfold collectable
          rw [decide_eq_true_iff]
          rcases mem_cons.mp hg' with rfl | hmem
          · omega
          · have := hlater g' hmem
            omega
        rw [hnone]
        exact ⟨[], (name, bs) :: ss, rfl, trivial⟩

end

/-- The directory a collection and a close leave: the files of `rest`, as they were. -/
structure Collected (fmt : WalFormat) (m : WalManifest) (L : Layout c) (dead rest : List (Sealed c))
    (d : Disk) : Prop where
  sealed : L.sealed = dead ++ rest
  manifest : d.manifest = .valid m
  segments : d.segments.map (fun f => (f.1, f.2.bytes))
    = segmentFiles fmt m.shardId (sealedRecords dead).length rest
  sorted : d.sortedSegments = d.segments
  wal : (d.wal.getD .empty).bytes = fileBytes fmt m.shardId L.base L.active
  savedMeta : d.savedMeta.isSome = true

variable {m : WalManifest} {watermark n : Nat} {L : Layout c} {d : Disk}

theorem OnDisk.filter_segments {tail : Bytes} {dead rest : List (Sealed c)}
    (h : OnDisk fmt m strict L tail d) (hsealed : L.sealed = dead ++ rest) :
    ((d.segments.filter fun f => f.1 ∉ dead.map Prod.fst).map fun f => (f.1, f.2.bytes))
      = segmentFiles fmt m.shardId (sealedRecords dead).length rest := by
  have hsplit := h.segments
  rw [hsealed, segmentFiles_append, Nat.zero_add] at hsplit
  obtain ⟨gone, kept, hd, hgone, hkept⟩ := map_eq_append_iff.mp hsplit
  have hnames : ∀ first (ss : List (Sealed c)) (fs : List NamedFile),
      fs.map (fun f => (f.1, f.2.bytes)) = segmentFiles fmt m.shardId first ss →
        fs.map Prod.fst = ss.map Prod.fst := by
    intro first ss fs hfs
    rw [← segmentFiles_names fmt m.shardId first ss, ← hfs, List.map_map]
    rfl
  have hnodup : (gone.map Prod.fst ++ kept.map Prod.fst).Nodup := by
    rw [← map_append, ← hd, h.segment_names]
    exact segmentNames_nodup _
  rw [hd, filter_append, ← hnames _ _ _ hgone]
  have hnil : (gone.filter fun f => f.1 ∉ gone.map Prod.fst) = [] := by
    rw [filter_eq_nil_iff]
    intro f hf
    rw [decide_eq_true_iff, not_not]
    exact mem_map_of_mem hf
  have hall : (kept.filter fun f => f.1 ∉ gone.map Prod.fst) = kept := by
    rw [filter_eq_self]
    intro f hf
    rw [decide_eq_true_iff]
    intro hmem
    exact (nodup_append.mp hnodup).2.2 _ hmem _ (mem_map_of_mem hf) rfl
  rw [hnil, hall, nil_append, hkept]

theorem gcSealedBelow_files (hgc : (gcSealedBelow watermark s).1 = .ok n) :
    (gcSealedBelow watermark s).2.disk.manifest = s.disk.manifest ∧
      (gcSealedBelow watermark s).2.disk.wal = s.disk.wal ∧
      (gcSealedBelow watermark s).2.disk.segments = s.disk.segments.filter fun f =>
        ∀ g ∈ s.sealedIndexes.filter (collectable watermark), g.path ≠ .segment f.1 := by
  unfold gcSealedBelow at hgc ⊢
  simp only [getLog_bind] at hgc ⊢
  split at hgc
  · cases hgc
  · next hmove =>
    obtain ⟨s', hrun, -, hmanifest, hwal, hsegments⟩ :=
      removeSegments_eq (s.sealedIndexes.filter (collectable watermark)) s
    rw [if_neg hmove, Prog.bind_ok hrun]
    exact ⟨hmanifest, hwal, hsegments⟩

/-- **A collection and a close** leave the files of the segments that were not deleted. -/
theorem collectAndClose_collected (h : Live fmt strict L s)
    (hfew : s.disk.Few) (hgc : (gcSealedBelow watermark s).1 = .ok n) :
    ∃ dead rest, Collected fmt s.manifest L dead rest (collectAndClose watermark s).disk ∧
      SealedOk fmt s.shardId 0 dead (s.sealedIndexes.filter (collectable watermark)) := by
  obtain ⟨dead, rest, hsealed, hdead⟩ := h.sealedIndexes.split h.onDisk.sealedOk watermark
  obtain ⟨hmanifest, hwal, hsegments⟩ := gcSealedBelow_files hgc
  have hsame := dropLog_sameFiles (gcSealedBelow watermark s).2
  -- the deleted files are those named by the deleted segments
  have hfilter : (collectAndClose watermark s).disk.segments
      = s.disk.segments.filter fun f => f.1 ∉ dead.map Prod.fst := by
    rw [collectAndClose, hsame.segments, hsegments]
    apply filter_congr
    intro f _
    have hpaths : (∀ g ∈ s.sealedIndexes.filter (collectable watermark),
        g.path ≠ .segment f.1) ↔ f.1 ∉ dead.map Prod.fst := by
      have hmap := hdead.paths
      rw [← not_iff_not, not_not]
      constructor
      · intro hexists
        push Not at hexists
        obtain ⟨g, hg, hpath⟩ := hexists
        have hmem : g.path ∈ dead.map fun s => .segment s.1 := hmap ▸ mem_map_of_mem hg
        obtain ⟨x, hx, hname⟩ := List.mem_map.mp hmem
        rw [hpath] at hname
        exact List.mem_map.mpr ⟨x, hx, LogPath.segment.inj hname⟩
      · intro hmem hnone
        obtain ⟨x, hx, hname⟩ := List.mem_map.mp hmem
        have hpath : LogPath.segment x.1
            ∈ (s.sealedIndexes.filter (collectable watermark)).map SegmentIndex.path :=
          hmap ▸ mem_map_of_mem hx
        obtain ⟨g, hg, hg'⟩ := List.mem_map.mp hpath
        exact hnone g hg (hg'.trans (congrArg _ hname))
    simp only [hpaths]
  refine ⟨dead, rest, ⟨hsealed, ?_, ?_, ?_, ?_, ?_⟩, hdead⟩
  · exact (hsame.manifest.trans hmanifest).trans h.onDisk.manifest
  · rw [hfilter]
    exact h.onDisk.filter_segments hsealed
  · have hpairwise := h.onDisk.segments_pairwise (by rw [← h.onDisk.segments_length]; exact hfew)
    rw [Disk.sortedSegments, hfilter]
    exact (hpairwise.filter _).insertionSort_eq
  · have hbytes := hsame.wal
    rw [hwal, h.wal_eq] at hbytes
    obtain ⟨f, hf, hfbytes⟩ := map_eq_some_iff.mp hbytes
    rw [collectAndClose, hf]
    exact hfbytes
  · rfl

/-! ## Reopening without the first segments -/

variable {bs : List (Batch c)} {L : Layout env.codec} {next : Nat}

theorem fileOk_v1 (first' : Nat) (h : FileOk .v1 first bs) : FileOk .v1 first' bs := by
  induction bs generalizing first first' with
  | nil => trivial
  | cons b bs ih => exact ⟨h.1, ih _ h.2⟩

theorem sealedFilesOk_v1 (first' : Nat) (h : SealedFilesOk .v1 first ss) :
    SealedFilesOk .v1 first' ss := by
  induction ss generalizing first first' with
  | nil => trivial
  | cons s ss ih => exact ⟨⟨fileOk_v1 first' h.1.1, h.1.2⟩, ih _ h.2⟩

/-- V1 files do not carry their offsets. -/
theorem segmentFiles_v1 (first first' : Nat) (ss : List (Sealed c)) :
    segmentFiles .v1 shard first ss = segmentFiles .v1 shard first' ss := by
  induction ss generalizing first first' with
  | nil => rfl
  | cons s ss ih =>
    rw [segmentFiles, segmentFiles, fileBytes_v1, fileBytes_v1, ih]

/-- A V2 file that does not start at the offset the scan has reached is refused. -/
theorem scanV2Loop_shifted {b : Batch c} (purged : List Nat) (path : LogPath) (trunc : Bool)
    (index : Index) (shard : UInt32) (len fuel : Nat) (hok : FileOk .v2 first (b :: bs))
    (hshift : first ≠ next) :
    ∃ index' effect e, scanV2Loop c purged path trunc shard len (fuel + 1) index next
      (fileBytes .v2 shard first (b :: bs)) = ⟨index', effect, .error e⟩ := by
  have hne := hok.1.bytes_ne_nil shard
  have hfirst : (b.header shard first).firstOffset ≠ next := hshift
  rw [fileBytes, scanV2Loop, if_neg (by simp [hne]), (decodeEpoch_batch hok.1).ok]
  simp only
  rw [if_pos (.inr (.inl hfirst))]
  exact ⟨_, _, _, rfl⟩

theorem scanFile_shifted (purged : List Nat) (path : LogPath) (trunc : Bool) (index : Index)
    (hfmt : m.walFormatVersion = walFormatV2) (hok : FileOk .v2 first bs) (hne : bs ≠ [])
    (hshift : first ≠ next) :
    ∃ index' effect e, scanFile c purged path trunc m index next (fileBytes .v2 m.shardId first bs)
      = ⟨index', effect, .error e⟩ := by
  obtain ⟨b, bs', rfl⟩ := exists_cons_of_ne_nil hne
  have hbytes : fileBytes .v2 m.shardId first (b :: bs') ≠ [] := by
    rw [Ne, fileBytes_eq_nil_iff hok]
    exact hne
  obtain ⟨fuel, hfuel⟩ := Nat.exists_eq_succ_of_ne_zero (length_pos_iff.mpr hbytes).ne'
  have hloop := scanV2Loop_shifted purged path trunc index m.shardId
    (fileBytes .v2 m.shardId first (b :: bs')).length fuel hok hshift
  have hversion : walFormatV2 ≠ walFormatV1 := by decide
  unfold scanFile
  rw [hfmt, if_neg hversion, if_pos rfl]
  generalize fileBytes .v2 m.shardId first (b :: bs') = bytes at *
  rw [hfuel] at hloop ⊢
  exact hloop

/-- **Recovery without the first segments** does not reach the old high watermark: a V1 log counts
only what is left, a V2 log is refused unless nothing is left. -/
theorem Collected.highWatermark_ne {dead rest : List (Sealed env.codec)}
    (h : Collected fmt m L dead rest d) (hfmt : m.walFormatVersion = fmt.version)
    (hsealedOk : SealedFilesOk fmt 0 L.sealed) (hactive : FileOk fmt L.base L.active)
    (hdead : dead ≠ []) {config : PartitionLogConfig} {requested : UInt16} {now : Nat}
    {log' : PartitionLog} {st : Store}
    (hopen : openForShard env config m.shardId requested now ⟨d, []⟩ = (.ok log', st)) :
    log'.highWatermark ≠ L.frames.length := by
  obtain ⟨mt, hmeta⟩ := isSome_iff_exists.mp h.savedMeta
  have hsupported : unsupportedFormat m.walFormatVersion = false := by
    rw [hfmt]
    cases fmt <;> rfl
  rw [h.sealed] at hsealedOk
  obtain ⟨hdeadOk, hrestOk⟩ := sealedFilesOk_append.mp hsealedOk
  have hlost : 0 < (sealedRecords dead).length := by
    obtain ⟨x, xs, rfl⟩ := exists_cons_of_ne_nil hdead
    have hpos := length_pos_iff.mpr hdeadOk.1.2
    rw [sealedRecords_cons, length_append]
    omega
  have hbase : L.base = (sealedRecords dead).length + (sealedRecords rest).length := by
    rw [Layout.base, h.sealed, sealedRecords_append, length_append]
  have htotal := L.length_frames
  have hsegments := h.segments
  rw [← h.sorted] at hsegments
  rw [Nat.zero_add] at hrestOk
  cases fmt with
  | v1 =>
    rw [segmentFiles_v1 _ 0] at hsegments
    obtain ⟨gs, hloop, -⟩ := rebuildSegments_layout env mt.purgedOffsets [] hfmt
      (sealedFilesOk_v1 0 hrestOk) hsegments
    rw [Nat.zero_add] at hloop
    have hscan := scanFile_layout mt.purgedOffsets .wal true hfmt
      (fileOk_v1 (sealedRecords rest).length hactive) (.nil .v1) (.inr rfl)
    rw [append_nil, fileBytes_v1, ← fileBytes_v1 m.shardId L.base, ← h.wal] at hscan
    rw [openForShard_scanned env config requested now [] h.manifest hsupported hmeta hloop
      hscan] at hopen
    cases hopen
    show (sealedRecords rest).length + (records L.active).length ≠ L.frames.length
    omega
  | v2 =>
    cases rest with
    | nil =>
      have hfiles : d.sortedSegments = [] := map_eq_nil_iff.mp hsegments
      have hloop : scanSegments env m mt.purgedOffsets d = .ok (0, [], []) := by
        rw [scanSegments, hfiles, rebuildSegments]
      by_cases hempty : L.active = []
      · -- nothing is left: the log starts again from zero
        have hscan := scanFile_layout mt.purgedOffsets .wal true hfmt
          (show FileOk .v2 0 ([] : List (Batch env.codec)) from trivial) (.nil .v2) (.inr rfl)
        have hwal : (d.wal.getD .empty).bytes
            = fileBytes .v2 m.shardId 0 ([] : List (Batch env.codec)) ++ [] := by
          rw [h.wal, hempty]
          rfl
        rw [← hwal] at hscan
        rw [openForShard_scanned env config requested now [] h.manifest hsupported hmeta hloop
          hscan] at hopen
        cases hopen
        show 0 ≠ L.frames.length
        omega
      · have hshift : L.base ≠ 0 := by omega
        obtain ⟨index, effect, e, hscan⟩ := scanFile_shifted mt.purgedOffsets .wal true [] hfmt
          hactive hempty hshift
        rw [← h.wal] at hscan
        rw [openForShard_scanned env config requested now [] h.manifest hsupported hmeta hloop
          hscan] at hopen
        cases hopen
    | cons x rest =>
      -- the first file left does not start at offset zero
      obtain ⟨name, bs⟩ := x
      obtain ⟨f, files, hcons, hfile, -⟩ := map_eq_cons_iff.mp hsegments
      have hsome : bs ≠ [] := by
        rintro rfl
        exact hrestOk.1.2 rfl
      obtain ⟨index, effect, e, hscan⟩ := scanFile_shifted mt.purgedOffsets (.segment f.1) false []
        hfmt hrestOk.1.1 hsome hlost.ne'
      have hbytes : f.2.bytes
          = fileBytes .v2 m.shardId (sealedRecords dead).length bs := congrArg Prod.snd hfile
      have hloop : scanSegments env m mt.purgedOffsets d = .error (e, .segment f.1, effect) := by
        rw [scanSegments, hcons, rebuildSegments, hbytes, hscan]
      have herror := openForShard_segments_error env config requested now [] h.manifest hsupported
        hmeta hloop
      rw [hopen] at herror
      cases herror

/-! ## The result -/

/-- **A collection that deletes nothing** leaves a log that reopens as it was. -/
theorem collectionInvisible_of_none (h : Live fmt strict L s) (hfew : s.disk.Few)
    (hnone : ∀ g ∈ s.sealedIndexes, collectable watermark g = false) :
    CollectionInvisible env s L.items watermark := by
  intro config requested now
  have hgc := gcSealedBelow_step h watermark hnone
  obtain ⟨L', hdrop, hframes⟩ := dropLog_step hgc.live
  have hstep := hgc.trans hdrop
  have hdisk := hstep.live.onDisk
  rw [hstep.manifest] at hdisk
  obtain ⟨mt, hmeta⟩ := isSome_iff_exists.mp hdisk.logMeta
  have hsealed : L'.sealed.length ≤ 1000000 := by
    have hsame := dropLog_sameFiles (gcSealedBelow watermark s).2
    rw [← hdisk.segments_length, hsame.segments, hgc.live.onDisk.segments_length,
      ← h.onDisk.segments_length]
    exact hfew
  obtain ⟨log', hopen, hopened⟩ := openForShard_onDisk env config requested now [] hdisk hsealed
    hmeta
  have hwatermark : log'.highWatermark = s.log.highWatermark := by
    rw [PartitionLog.highWatermark, PartitionLog.highWatermark, hopened.logMeta, h.nextOffset,
      hframes]
  have hitems : L'.items = L.items := by rw [Layout.items, hframes, Layout.items]
  refine ⟨log', _, hopen, hwatermark, ?_, ?_⟩
  · intro offset item hget _ hlive partition
    rw [← hitems] at hget
    exact (hopened.serves hdisk).read_one hget hlive partition
  · intro partition header payload fence out hout
    rw [appendFenced_offset hout]
    exact hwatermark

/-- **A collection is invisible to a close and reopen exactly when it deletes nothing.** -/
theorem collection_invisible_iff (henv : env.InPlace) {events : List Event} {w : World}
    {log : PartitionLog} {watermark n : Nat}
    (hrun : Run (World.step env shard) (EventOk env shard false) .fresh events w)
    (hlog : w.log = some log) (hfew : w.disk.Few)
    (hgc : (gcSealedBelow watermark (w.disk.sys log)).1 = .ok n) :
    CollectionInvisible env (w.disk.sys log) w.history watermark ↔
      ∀ g ∈ log.sealedIndexes, collectable watermark g = false := by
  obtain ⟨L, hholds, -⟩ := World.run_holds henv (World.fresh_holds env.codec shard false) hrun
  obtain ⟨fmt, -, hlive, hitems⟩ := hholds.of_open hlog
  rw [← hitems]
  refine ⟨fun hinvisible => ?_, collectionInvisible_of_none hlive hfew⟩
  obtain ⟨dead, rest, hcollected, hdead⟩ := collectAndClose_collected hlive hfew hgc
  obtain ⟨log', st, hopen, hkept⟩ := hinvisible (unrolled .always) 2 0
  have hnil : dead = [] := by
    by_contra hne
    refine hcollected.highWatermark_ne hlive.onDisk.format hlive.onDisk.sealedOk
      hlive.onDisk.activeOk hne hopen ?_
    rw [hkept.highWatermark]
    exact hlive.nextOffset
  -- no deleted file, so no collectable segment
  have hpaths := hdead.paths
  rw [hnil, map_nil, map_eq_nil_iff, filter_eq_nil_iff] at hpaths
  intro g hg
  exact Bool.eq_false_iff.mpr (hpaths g hg)

/-- Two sealed segments, and a watermark below the end of the first. -/
theorem collection_of_nothing_invisible :
    ∃ w log, LocalRun false .fresh (appends (rolling .always) 2) w ∧
      w.log = some log ∧ log.sealedIndexes.length = 2 ∧
      CollectionInvisible localEnv (w.disk.sys log) w.history 0 := by
  exact Exists.imp (fun w => Exists.imp fun log => and_imp_of fun hrun => and_imp_of fun hlog =>
    and_imp_of fun _ (h : w.disk.Few ∧
      (gcSealedBelow 0 (w.disk.sys log)).1 = .ok 0 ∧
        ∀ g ∈ log.sealedIndexes, collectable 0 g = false) =>
      (collection_invisible_iff localEnv_inPlace hrun hlog h.1 h.2.1).mpr h.2.2)
    (by decide +kernel)

/-- Collecting the first of two V2 segments leaves a directory that no longer opens. -/
theorem collected_log_does_not_reopen :
    ∃ w log e, LocalRun false .fresh (appends (rolling .always) 2) w ∧
      w.log = some log ∧ (gcSealedBelow 1 (w.disk.sys log)).1 = .ok 1 ∧
      (openForShard localEnv (rolling .always) 0 2 1
        ⟨(collectAndClose 1 (w.disk.sys log)).disk, []⟩).1 = .error e := by
  decide +kernel

end BetterMQ
