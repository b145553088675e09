import BetterMQ.Storage.Read

/-!
# Recovery of a well-formed directory

`Layout` is the content of a partition directory: the sealed segments by name, the batches of
`active.wal` that a completed fsync covers, and those it does not cover yet. `OnDisk` says that a
directory holds a layout, with a torn tail behind the last batch of the WAL.

* **`openForShard_onDisk`** — opening such a directory succeeds and gives a log whose state is
  exactly the layout's;
* **`OnDisk.crash`** — a crash leaves a layout with the same sealed and fsynced batches.
-/

namespace BetterMQ

open List Option

/-! ## Layouts -/

structure Layout (c : Codec) where
  sealed : List (Sealed c)
  durable : List (Batch c)
  pending : List (Batch c)

variable {c : Codec} {L : Layout c} {effect : FileEffect} {mt : LogMeta} {n : Nat}

namespace Layout

def empty : Layout c := ⟨[], [], []⟩

section

variable (L : Layout c)

def active : List (Batch c) := L.durable ++ L.pending

/-- First offset of the active WAL. -/
def base : Nat := (sealedRecords L.sealed).length

def frames : List (Frame c) := sealedRecords L.sealed ++ records L.active

def items : List Item := L.frames.map Frame.item

/-- The records no crash can take. -/
def durableFrames : List (Frame c) := sealedRecords L.sealed ++ records L.durable

end

theorem length_frames (L : Layout c) : L.frames.length = L.base + (records L.active).length := by
  rw [frames, length_append, base]

theorem frames_eq (L : Layout c) : L.frames = L.durableFrames ++ records L.pending := by
  rw [frames, durableFrames, active, records_append, append_assoc]

theorem durableFrames_prefix (L : Layout c) : L.durableFrames <+: L.frames := by
  rw [frames_eq]
  exact prefix_append _ _

theorem length_items (L : Layout c) : L.items.length = L.frames.length := length_map ..

/-- What later states of a directory keep of an earlier one. -/
structure Grows (L L' : Layout c) : Prop where
  sealed : L.sealed <+: L'.sealed
  durable : L.durableFrames <+: L'.durableFrames

/-- The same content with every batch of the WAL fsynced. -/
def flushed (L : Layout c) : Layout c := ⟨L.sealed, L.active, []⟩

@[simp] theorem flushed_durable (L : Layout c) : L.flushed.durable = L.active := rfl

@[simp] theorem flushed_active (L : Layout c) : L.flushed.active = L.active := by
  simp [flushed, active]

@[simp] theorem flushed_frames (L : Layout c) : L.flushed.frames = L.frames := by
  rw [frames, flushed_active, frames, flushed]

theorem Grows.refl (L : Layout c) : L.Grows L := ⟨prefix_rfl, prefix_rfl⟩

theorem Grows.trans {L₁ L₂ L₃ : Layout c} (h₁ : L₁.Grows L₂) (h₂ : L₂.Grows L₃) : L₁.Grows L₃ :=
  ⟨h₁.sealed.trans h₂.sealed, h₁.durable.trans h₂.durable⟩

theorem grows_flushed (L : Layout c) : L.Grows L.flushed := by
  refine ⟨prefix_rfl, ?_⟩
  rw [durableFrames, durableFrames, flushed, active, records_append, ← append_assoc]
  exact prefix_append _ _

end Layout

/-! ## Directories that hold a layout -/

/-- The `meta.json` an open will load. -/
def Disk.savedMeta (d : Disk) : Option LogMeta :=
  match d.logMeta with
  | .missing => some .empty
  | .valid m => some m
  | .invalid _ => none

/-- The directory `d` holds the layout `L` in format `fmt`, with `tail` left of a torn batch at the
end of `active.wal`. `strict` asks that sealed segments are fsynced, as they are unless the log
runs in `Os` mode. -/
structure OnDisk (fmt : WalFormat) (m : WalManifest) (strict : Bool) (L : Layout c) (tail : Bytes)
    (d : Disk) : Prop where
  manifest : d.manifest = .valid m
  format : m.walFormatVersion = fmt.version
  names : L.sealed.map Prod.fst = (List.range L.sealed.length).map segmentName
  segments : d.segments.map (fun f => (f.1, f.2.bytes)) = segmentFiles fmt m.shardId 0 L.sealed
  synced : strict = true → ∀ f ∈ d.segments, f.2.synced = f.2.bytes.length
  sealedOk : SealedFilesOk fmt 0 L.sealed
  activeOk : FileOk fmt L.base L.active
  torn : Torn c fmt tail
  wal : d.wal = some ⟨fileBytes fmt m.shardId L.base L.active ++ tail,
      (fileBytes fmt m.shardId L.base L.durable).length⟩ ∨
    (d.wal = none ∧ L.active = [] ∧ tail = [])
  logMeta : d.savedMeta.isSome = true

/-! ## Segment names -/

theorem segmentName_injective : Function.Injective segmentName := by
  intro m n h
  unfold segmentName at h
  rw [append_assoc, append_assoc, append_cancel_left_eq, append_cancel_right_eq] at h
  exact padded_injective 6 h

theorem segmentName_lt {m : Nat} (hmn : m < n) (hn : n < 10 ^ 6) :
    segmentName m < segmentName n := by
  have hm := hmn.trans hn
  refine append_lt_append (append_left_lt (padded_lt (by decide) hmn hn)) (fun hp => ?_) _ _
  -- names of one length are no prefixes of each other
  refine Nat.ne_of_lt hmn (padded_injective 6 (append_cancel_left (hp.eq_of_length ?_)))
  rw [length_append, length_append, length_padded (by decide) hm, length_padded (by decide) hn]

theorem segmentNames_nodup (n : Nat) : ((List.range n).map segmentName).Nodup :=
  nodup_range.map segmentName_injective

/-- Below a million segments, directory order is roll order. -/
theorem segmentNames_sorted (hn : n ≤ 10 ^ 6) :
    ((List.range n).map segmentName).Pairwise (· ≤ ·) := by
  rw [pairwise_map]
  apply List.Pairwise.imp_of_mem _ pairwise_lt_range
  intro i j hi hj hij
  exact List.le_of_lt (segmentName_lt hij (by have := mem_range.mp hj; omega))

namespace OnDisk

variable {fmt : WalFormat} {m : WalManifest} {strict : Bool} {L : Layout c}
  {tail : Bytes} {d : Disk}

section

variable (h : OnDisk fmt m strict L tail d)

include h

theorem segment_names : d.segments.map Prod.fst = (List.range L.sealed.length).map segmentName := by
  have hnames := segmentFiles_names fmt m.shardId 0 L.sealed
  rw [← h.segments, List.map_map, h.names] at hnames
  exact hnames

theorem segments_length : d.segments.length = L.sealed.length := by
  have hlen := congrArg List.length h.segment_names
  rwa [length_map, length_map, length_range] at hlen

theorem read_segment :
    ∀ f ∈ segmentFiles fmt m.shardId 0 L.sealed, d.read (.segment f.1) = some f.2 := by
  have hnodup : (d.segments.map Prod.fst).Nodup := by
    rw [h.segment_names]
    exact segmentNames_nodup _
  intro f hf
  rw [← h.segments] at hf
  obtain ⟨g, hg, rfl⟩ := mem_map.mp hf
  show (d.segments.find? fun e => e.1 = g.1).map _ = _
  rw [find?_of_nodup hnodup hg]
  rfl

theorem segments_pairwise (hfew : L.sealed.length ≤ 10 ^ 6) :
    d.segments.Pairwise fun f g => f.1 ≤ g.1 := by
  have hsorted := segmentNames_sorted hfew
  rwa [← h.segment_names, pairwise_map] at hsorted

theorem sortedSegments (hfew : L.sealed.length ≤ 10 ^ 6) : d.sortedSegments = d.segments :=
  (h.segments_pairwise hfew).insertionSort_eq

end

end OnDisk

/-! ## Rebuilding -/

/-- The segment loop of the rebuild finds every sealed record and leaves no full index behind. -/
theorem rebuildSegments_layout (env : Env) (purged : List Nat) (gs : List SegmentIndex)
    {fmt : WalFormat} {manifest : WalManifest} {first : Nat} {files : List NamedFile}
    {ss : List (Sealed env.codec)} (hfmt : manifest.walFormatVersion = fmt.version)
    (hok : SealedFilesOk fmt first ss)
    (hfiles : files.map (fun f => (f.1, f.2.bytes)) = segmentFiles fmt manifest.shardId first ss) :
    ∃ gs', rebuildSegments env manifest purged files first gs []
        = .ok (first + (sealedRecords ss).length, gs ++ gs', []) ∧
      SealedOk fmt manifest.shardId first ss gs' := by
  induction ss generalizing first files gs with
  | nil =>
    have hnil : files = [] := map_eq_nil_iff.mp hfiles
    subst hnil
    exact ⟨[], by simp [rebuildSegments], trivial⟩
  | cons s ss ih =>
    obtain ⟨name, bs⟩ := s
    obtain ⟨file, files', rfl, hhead, htail⟩ := map_eq_cons_iff.mp hfiles
    obtain ⟨fname, data⟩ := file
    obtain ⟨rfl, hbytes⟩ := Prod.mk.inj hhead
    obtain ⟨⟨hfile, hne⟩, hrest⟩ := hok
    have hcount : first < first + (records bs).length := by
      have hpos : 0 < (records bs).length := length_pos_iff.mpr hne
      omega
    -- the file itself: scanned, indexed, and dropped from the full index again
    have hscan := scanFile_layout purged (.segment fname) false hfmt hfile (.nil fmt) (.inl rfl)
    rw [append_nil, ← hbytes] at hscan
    obtain ⟨g, hbuild, hg⟩ := buildSparseIndex_layout (.segment fname) hfmt hfile hne
    rw [← hbytes] at hbuild
    have hforget : (scannedIndex purged (.segment fname) (placed fmt first 0 bs)).filter
        (fun e => e.1 < first ∨ first + (records bs).length ≤ e.1) = [] := by
      rw [filter_eq_nil_iff]
      intro e he
      obtain ⟨x, hx, -, rfl⟩ := mem_scannedIndex he
      have := placed_bounds hx
      rw [decide_eq_true_iff]
      show ¬(x.offset < first ∨ first + (records bs).length ≤ x.offset)
      omega
    obtain ⟨gs', hloop, hgs'⟩ := ih (gs ++ [g]) hrest htail
    refine ⟨g :: gs', ?_, hg, hgs'⟩
    rw [rebuildSegments]
    simp only [hscan, gt_iff_lt, hcount, if_true, hbuild, hforget]
    rw [hloop, sealedRecords_cons, length_append, append_assoc, Nat.add_assoc]
    rfl


/-- The log an open builds over a layout, before anything is written to it. -/
structure Opened (fmt : WalFormat) (m : WalManifest) (L : Layout c) (mt : LogMeta)
    (config : PartitionLogConfig) (log : PartitionLog) : Prop where
  config_eq : log.config = config
  manifest : log.manifest = m
  logMeta : log.logMeta = { mt with nextOffset := L.frames.length }
  walSize : log.walSize = (fileBytes fmt m.shardId L.base L.active).length
  index : log.index = scannedIndex mt.purgedOffsets .wal (placed fmt L.base 0 L.active)
  sealedIndexes : SealedOk fmt m.shardId 0 L.sealed log.sealedIndexes
  activeBaseOffset : log.activeBaseOffset = L.base
  dirty : log.dirty = false
  committedHwm : log.committedHwm = L.frames.length
  flushCount : log.flushCount = 0
  failNextSync : log.failNextSync = false

section

variable (fmt : WalFormat) (m : WalManifest) (L : Layout c) (tail : Bytes)

/-- The WAL as recovery leaves it: created if missing, without its torn tail. -/
def recoveredWal : FileData :=
  let bytes := fileBytes fmt m.shardId L.base L.active
  ⟨bytes, if tail = [] then (fileBytes fmt m.shardId L.base L.durable).length else bytes.length⟩

/-- The directory as recovery leaves it. -/
def recoveredDisk (d : Disk) (mt : LogMeta) : Disk :=
  ⟨d.manifest, .valid { mt with nextOffset := L.frames.length }, some (recoveredWal fmt m L tail),
    d.segments⟩

end

section Open

variable {fmt : WalFormat} {m : WalManifest} {strict : Bool} {tail : Bytes} {d : Disk}

theorem OnDisk.createWal (h : OnDisk fmt m strict L tail d) :
    d.createWal.wal = some ⟨fileBytes fmt m.shardId L.base L.active ++ tail,
      (fileBytes fmt m.shardId L.base L.durable).length⟩ := by
  rcases h.wal with hsome | ⟨hnone, hactive, rfl⟩
  · simp [Disk.createWal, hsome]
  · have hdur : L.durable = [] := (append_eq_nil_iff.mp hactive).1
    simp [Disk.createWal, hnone, hactive, hdur, fileBytes, FileData.empty]

/-- The disks an open of a layout passes through: the WAL created, its torn tail cut off, the
checkpoint saved. -/
def openTrace (fmt : WalFormat) (m : WalManifest) (L : Layout c) (tail : Bytes) (d : Disk)
    (mt : LogMeta) : List Disk :=
  let created := d.createWal
  let cut := { created with wal := some (recoveredWal fmt m L tail) }
  created :: (if tail = [] then [] else [cut]) ++ [cut.saveMeta mt]

/-- What the recovery scan decided, done to the WAL. -/
theorem applyEffect_recovered (trace : List Disk) (now : Nat) (h : OnDisk fmt m strict L tail d) :
    (⟨d.createWal, trace⟩ : Store).applyEffect now .wal (if tail = [] then .keep
          else .truncate (fileBytes fmt m.shardId L.base L.active).length)
      = ⟨{ d.createWal with wal := some (recoveredWal fmt m L tail) }, trace ++ if tail = [] then []
            else [{ d.createWal with wal := some (recoveredWal fmt m L tail) }]⟩ := by
  have hwal := h.createWal
  by_cases htail : tail = []
  · subst htail
    rw [append_nil] at hwal
    simp only [Store.applyEffect, if_true, append_nil, Store.mk.injEq, and_true, recoveredWal]
    rw [← hwal]
  · simp only [Store.applyEffect, Store.put, Disk.truncateWal, htail, if_false, hwal, recoveredWal,
      map_some, FileData.truncate, take_left]

theorem loadMeta_of_savedMeta (env : Env) (hmeta : d.savedMeta = some mt) :
    env.loadMeta d = .ok mt := by
  unfold Disk.savedMeta at hmeta
  unfold Env.loadMeta LogMeta.loadOrDefault
  cases hfile : d.logMeta with
  | missing | valid => rw [hfile] at hmeta; cases hmeta; rfl
  | invalid message => rw [hfile] at hmeta; cases hmeta

/-- The log an open builds from what its scans found. -/
def scannedLog (config : PartitionLogConfig) (m : WalManifest) (mt : LogMeta) (base next : Nat)
    (gs : List SegmentIndex) (index : Index) (walSize : Nat) : PartitionLog :=
  { PartitionLog.initial config { mt with nextOffset := next } m with
    index := index
    sealedIndexes := gs
    activeBaseOffset := base
    walSize := walSize
    committedHwm := next }

section Scanned

variable (env : Env) (config : PartitionLogConfig) (requested : UInt16) (now : Nat)
  (trace : List Disk) {mt : LogMeta} (hmanifest : d.manifest = .valid m)
  (hsupported : unsupportedFormat m.walFormatVersion = false) (hmeta : d.savedMeta = some mt)

include hmanifest hsupported hmeta

theorem openForShard_eq :
    openForShard env config m.shardId requested now ⟨d, trace⟩
      = match rebuildFromDisk env now (.initial config mt m)
            ⟨d.createWal, trace ++ [d.createWal]⟩ with
        | (.error e, st) => (.error e, st.put (st.disk.saveMeta mt))
        | (.ok log, st) => (.ok { log with committedHwm := log.nextOffset }, st) := by
  have hload := loadMeta_of_savedMeta env hmeta
  have hcreate : WalManifest.loadOrCreate requested m.shardId ⟨d, trace⟩ = (.ok m, ⟨d, trace⟩) := by
    simp [WalManifest.loadOrCreate, hmanifest, hsupported]
  unfold openForShard
  rw [hcreate]
  simp only [hload]
  rfl

/-- **An open that gets through the segments**: then the WAL, what its scan does to the file, and
the checkpoint. -/
theorem openForShard_scanned {base : Nat} {gs : List SegmentIndex} {index : Index}
    {result : Except LogError Nat}
    (hsegments : scanSegments env m mt.purgedOffsets d = .ok (base, gs, [])) :
    scanWal env m mt.purgedOffsets d [] base = ⟨index, effect, result⟩ →
    openForShard env config m.shardId requested now ⟨d, trace⟩
      = let st := (⟨d.createWal, trace ++ [d.createWal]⟩ : Store).applyEffect now .wal effect
        match result with
        | .error e => (.error e, st.put (st.disk.saveMeta mt))
        | .ok next =>
          (.ok (scannedLog config m mt base next gs index (st.disk.wal.getD .empty).bytes.length),
            st.put (st.disk.saveMeta { mt with nextOffset := next })) := by
  intro hscan
  have hsame : scanSegments env m mt.purgedOffsets d.createWal
      = scanSegments env m mt.purgedOffsets d := rfl
  have hwal : scanWal env m mt.purgedOffsets d.createWal [] base
      = scanWal env m mt.purgedOffsets d [] base := rfl
  rw [openForShard_eq env config requested now trace hmanifest hsupported hmeta]
  unfold rebuildFromDisk
  simp only [PartitionLog.initial, hsame, hsegments, hwal, hscan, scannedLog]
  cases result <;> rfl

theorem openForShard_segments_error {e : LogError} {path : LogPath}
    (hsegments : scanSegments env m mt.purgedOffsets d = .error (e, path, effect)) :
    (openForShard env config m.shardId requested now ⟨d, trace⟩).1 = .error e := by
  have hsame : scanSegments env m mt.purgedOffsets d.createWal
      = scanSegments env m mt.purgedOffsets d := rfl
  rw [openForShard_eq env config requested now trace hmanifest hsupported hmeta]
  unfold rebuildFromDisk
  simp only [PartitionLog.initial, hsame, hsegments]

end Scanned

theorem OnDisk.supported (h : OnDisk fmt m strict L tail d) :
    unsupportedFormat m.walFormatVersion = false := by
  rw [h.format]
  cases fmt <;> rfl

theorem OnDisk.scanned {env : Env} {L : Layout env.codec} (h : OnDisk fmt m strict L tail d)
    (hfew : L.sealed.length ≤ 10 ^ 6) (purged : List Nat) :
    ∃ gs, scanSegments env m purged d = .ok (L.base, gs, []) ∧
      SealedOk fmt m.shardId 0 L.sealed gs := by
  obtain ⟨gs, hloop, hgs⟩ := rebuildSegments_layout env purged [] h.format h.sealedOk h.segments
  rw [Nat.zero_add, ← h.sortedSegments hfew] at hloop
  exact ⟨gs, hloop, hgs⟩

/-- **Opening a directory that holds a layout succeeds**, and the log is the layout's. -/
theorem openForShard_onDisk (env : Env) (config : PartitionLogConfig) (requested : UInt16)
    (now : Nat) (trace : List Disk) {L : Layout env.codec} (h : OnDisk fmt m strict L tail d)
    (hfew : L.sealed.length ≤ 10 ^ 6) (hmeta : d.savedMeta = some mt) :
    ∃ log, openForShard env config m.shardId requested now ⟨d, trace⟩
        = (.ok log, ⟨recoveredDisk fmt m L tail d mt,
            trace ++ openTrace fmt m L tail d { mt with nextOffset := L.frames.length }⟩) ∧
      Opened fmt m L mt config log := by
  obtain ⟨gs, hloop, hgs⟩ := h.scanned hfew mt.purgedOffsets
  have hbytes : (d.wal.getD .empty).bytes = fileBytes fmt m.shardId L.base L.active ++ tail := by
    have hwal := h.createWal
    rw [Disk.createWal, some_inj] at hwal
    rw [hwal]
  have hscan := scanFile_layout mt.purgedOffsets .wal true h.format h.activeOk h.torn (.inr rfl)
  rw [← L.length_frames, ← hbytes] at hscan
  have hopen := openForShard_scanned env config requested now trace h.manifest h.supported hmeta
    hloop hscan
  rw [applyEffect_recovered (trace ++ [d.createWal]) now h] at hopen
  refine ⟨scannedLog config m mt L.base L.frames.length gs
      (scannedIndex mt.purgedOffsets .wal (placed fmt L.base 0 L.active))
      (fileBytes fmt m.shardId L.base L.active).length, hopen.trans ?_,
    ⟨rfl, rfl, rfl, rfl, rfl, hgs, rfl, rfl, rfl, rfl, rfl⟩⟩
  simp only [Store.put, openTrace, append_assoc, cons_append, nil_append]
  rfl

end Open

/-! ## File operations on a layout -/

namespace OnDisk

variable {fmt : WalFormat} {m : WalManifest} {strict : Bool} {L : Layout c}
  {tail : Bytes} {d : Disk}

section

variable (h : OnDisk fmt m strict L tail d)

include h

theorem saveMeta (mt : LogMeta) : OnDisk fmt m strict L tail (d.saveMeta mt) :=
  ⟨h.manifest, h.format, h.names, h.segments, h.synced, h.sealedOk, h.activeOk, h.torn, h.wal, rfl⟩

theorem setWal (L' : Layout c) (tail' : Bytes) (hsealed : L'.sealed = L.sealed)
    (hactive : FileOk fmt L.base L'.active) (htorn : Torn c fmt tail') :
    OnDisk fmt m strict L' tail'
      { d with wal := some ⟨fileBytes fmt m.shardId L.base L'.active ++ tail',
        (fileBytes fmt m.shardId L.base L'.durable).length⟩ } := by
  have hbase : L'.base = L.base := by rw [Layout.base, hsealed, Layout.base]
  refine ⟨h.manifest, h.format, ?_, ?_, h.synced, ?_, ?_, htorn, ?_, h.logMeta⟩
  · rw [hsealed]
    exact h.names
  · rw [hsealed]
    exact h.segments
  · rw [hsealed]
    exact h.sealedOk
  · rw [hbase]
    exact hactive
  · left
    rw [hbase]

theorem created : OnDisk fmt m strict L tail d.createWal := by
  have hset := h.setWal L _ rfl h.activeOk h.torn
  rw [← h.createWal] at hset
  exact hset

theorem recovered :
    OnDisk fmt m strict (if tail = [] then L else L.flushed) []
      { d with wal := some (recoveredWal fmt m L tail) } := by
  by_cases htail : tail = []
  · subst htail
    have hset := h.setWal L _ rfl h.activeOk h.torn
    simpa [recoveredWal] using hset
  · have hset := h.setWal L.flushed [] rfl (by simpa using h.activeOk) (.nil fmt)
    rw [Layout.flushed_active, append_nil] at hset
    simp only [recoveredWal, htail, if_false]
    exact hset

/-- Every disk on the way through an open holds the layout, with or without its torn tail. -/
theorem openTrace (mt : LogMeta) :
    ∀ d' ∈ openTrace fmt m L tail d mt, OnDisk fmt m strict L tail d' ∨
        OnDisk fmt m strict (if tail = [] then L else L.flushed) [] d' := by
  have hcut := h.created.recovered
  intro d' hd'
  simp only [BetterMQ.openTrace, cons_append, mem_cons, mem_append, not_mem_nil, or_false] at hd'
  rcases hd' with rfl | hmid | rfl
  · exact .inl h.created
  · split at hmid
    · cases hmid
    · rw [mem_singleton] at hmid
      subst hmid
      exact .inr hcut
  · exact .inr (hcut.saveMeta mt)

/-- Cutting the WAL behind its fsynced batches leaves some of the others and a torn tail. -/
theorem exists_cut (hn : (fileBytes fmt m.shardId L.base L.durable).length ≤ n) :
    ∃ pre tail', pre <+: L.pending ∧ FileOk fmt L.base (L.durable ++ pre) ∧
      Torn c fmt tail' ∧
      (fileBytes fmt m.shardId L.base L.active ++ tail).take n
        = fileBytes fmt m.shardId L.base (L.durable ++ pre) ++ tail' := by
  have hok := h.activeOk
  by_cases hcut : n ≤ (fileBytes fmt m.shardId L.base L.active).length
  · -- the cut is among the batches
    obtain ⟨pre, tail', hpre, htorn, htake⟩ := exists_take_fileBytes_append hok hn
    obtain ⟨post, hpost⟩ := hpre
    refine ⟨pre, tail', ⟨post, hpost⟩, ?_, htorn, ?_⟩
    · rw [Layout.active, ← hpost, ← append_assoc] at hok
      exact hok.left
    · rw [take_append_of_le_length hcut]
      exact htake
  · -- every batch is kept, the torn tail is cut once more
    refine ⟨L.pending, _, prefix_rfl, hok,
      h.torn.take (n - (fileBytes fmt m.shardId L.base L.active).length), ?_⟩
    rw [take_append, take_of_length_le (by omega)]
    rfl

/-- **What a crash leaves.** The sealed segments (which must be kept whole, as fsynced ones are)
and the fsynced batches stay; of the others some prefix stays. -/
theorem crash {keep : LogPath → Nat}
    (hkeep : ∀ f ∈ d.segments, f.2.bytes.length ≤ max f.2.synced (keep (.segment f.1))) :
    ∃ L' tail', OnDisk fmt m strict L' tail' (d.crash keep) ∧ L'.sealed = L.sealed ∧
      L'.durable = L.durable ∧ L'.frames <+: L.frames := by
  have hsegments : d.segments.map (fun f => (f.1, f.2.cut (keep (.segment f.1)))) = d.segments := by
    conv_rhs => rw [← map_id d.segments]
    apply map_congr_left
    intro f hf
    show (f.1, f.2.cut _) = f
    rw [FileData.cut, take_of_length_le (hkeep _ hf)]
  rcases h.wal with hsome | ⟨hnone, hactive, htail⟩
  · obtain ⟨pre, tail', hpre, hok, htorn, htake⟩ := h.exists_cut (le_max_left _ (keep .wal))
    have hset := h.setWal ⟨L.sealed, L.durable, pre⟩ tail' rfl hok htorn
    refine ⟨⟨L.sealed, L.durable, pre⟩, tail', ?_, rfl, rfl, ?_⟩
    · have hcrash : d.crash keep = { d with
          wal := some ⟨fileBytes fmt m.shardId L.base (L.durable ++ pre) ++ tail',
            (fileBytes fmt m.shardId L.base L.durable).length⟩ } := by
        rw [← htake]
        simp only [Disk.crash, hsegments, hsome, map_some]
        rfl
      rw [hcrash]
      exact hset
    · obtain ⟨post, hpost⟩ := hpre
      rw [Layout.frames_eq, Layout.frames_eq]
      refine ⟨records post, ?_⟩
      rw [← hpost, records_append, ← append_assoc]
      rfl
  · refine ⟨L, tail, ?_, rfl, rfl, prefix_rfl⟩
    have hcrash : d.crash keep = d := by
      obtain ⟨manifest, logMeta, wal, segments⟩ := d
      simp only [Disk.crash] at hsegments hnone ⊢
      rw [hnone, hsegments]
      rfl
    rw [hcrash]
    exact h

end

end OnDisk

end BetterMQ
