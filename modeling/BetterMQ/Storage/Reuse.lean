import BetterMQ.Storage.AppendFailure

/-!
# Using a recovered log

An open accepts more than what the log has written: whole frames or epochs of any origin, and some
damage at the end of `active.wal`. What it accepts it has to take out of the way of the next append.

* **`exists_batches_v1`**, **`exists_batches_v2`** — what a scan accepts is a file of batches and a
  rest; the scan cuts the rest off, except for a V1 file whose last frame is complete and damaged;
* **`reusable_iff`** — so a recovered log stays good exactly when its WAL does not end like that.
-/

namespace BetterMQ

open List

variable {env : Env} {c : Codec} {shard : UInt32} {fmt : WalFormat} {item : Item}
  {next fuel len next' base : Nat} {index' : Index}

/-! ## What a scan accepts -/

/-- The frame walk over a V1 file stops at a damaged frame that ends with the file. -/
def endsDamaged (c : Codec) : Nat → Bytes → Bool
  | 0, _ => false
  | fuel + 1, rest =>
    match decodeFrame c rest with
    | (.ok _, rest') => endsDamaged c fuel rest'
    | (.error e, rest') => e ≠ .io .unexpectedEof ∧ rest' = []

section Accepted

variable {purged : List Nat} {path : LogPath} {rest rest' : Bytes} {index : Index}

theorem exists_frame (h : decodeFrame c rest = (.ok item, rest')) :
    ∃ f : Frame c, f.item = item ∧ rest = f.bytes ++ rest' := by
  obtain ⟨used, rfl, hexact⟩ := (decodeFrame_definite c).streaming rest item rest' h
  exact ⟨⟨used, item, hexact⟩, rfl, rfl⟩

variable {trunc : Bool}

theorem exists_batches_v1 (shard : UInt32) (hfuel : rest.length ≤ fuel)
    (hscan : (scanV1Loop c purged path trunc len fuel index next rest).result = .ok next')
    (hend : endsDamaged c fuel rest = false) :
    ∃ (bs : List (Batch c)) (tail : Bytes), rest = fileBytes .v1 shard next bs ++ tail ∧
      FileOk .v1 next bs ∧ Torn c .v1 tail := by
  induction fuel generalizing next index rest with
  | zero =>
    obtain rfl : rest = [] := length_eq_zero_iff.mp (Nat.le_zero.mp hfuel)
    exact ⟨[], [], rfl, trivial, .nil .v1⟩
  | succ fuel ih =>
    by_cases hnil : rest = []
    · subst hnil
      exact ⟨[], [], rfl, trivial, .nil .v1⟩
    rw [scanV1Loop, if_neg hnil] at hscan
    rw [endsDamaged] at hend
    rcases hdecode : decodeFrame c rest with ⟨e | item, rest'⟩
    · rw [hdecode] at hscan hend
      refine ⟨[], rest, rfl, trivial, ?_⟩
      by_cases heof : e = .io .unexpectedEof
      · subst heof
        exact congrArg Prod.fst hdecode
      · -- any other error is a corrupt file unless the file ends with it
        have hmore : rest' ≠ [] := by
          simpa [heof] using hend
        cases e with
        | io error =>
          cases error <;> simp_all
        | _ => simp_all
    · rw [hdecode] at hscan hend
      obtain ⟨f, -, rfl⟩ := exists_frame hdecode
      have hpos := length_pos_iff.mpr f.bytes_ne_nil
      rw [length_append] at hfuel
      obtain ⟨bs, tail, rfl, hok, htorn⟩ := ih (by omega) hscan hend
      refine ⟨⟨0, 0, [f]⟩ :: bs, tail, ?_, ⟨rfl, hok⟩, htorn⟩
      simp [fileBytes, Batch.bytes, Batch.body]

theorem scanFrames_ok {bodyLen n : Nat} {left : Bytes}
    (h : scanFrames c purged path base bodyLen n index next rest = .ok (index', next', left)) :
    ∃ fs : List (Frame c), rest = fs.flatMap Frame.bytes ++ left ∧ fs.length = n ∧
      next' = next + n := by
  induction n generalizing next index rest with
  | zero =>
    cases h
    exact ⟨[], rfl, rfl, rfl⟩
  | succ n ih =>
    rw [scanFrames] at h
    rcases hdecode : decodeFrame c rest with ⟨e | item, rest'⟩
    · rw [hdecode] at h
      cases h
    · rw [hdecode] at h
      obtain ⟨f, -, rfl⟩ := exists_frame hdecode
      obtain ⟨fs, rfl, hlen, hnext⟩ := ih h
      exact ⟨f :: fs, by simp, by simp [hlen], by omega⟩

/-- An epoch that passes the checks of the scan is a batch. -/
theorem exists_batch {header : EpochHeader} {body : Bytes}
    (hdecode : decodeEpoch c rest = (.ok (header, body), rest'))
    (hshard : header.shardId = shard.toNat) (hfirst : header.firstOffset = next)
    (hframes : scanFrames c purged path base body.length header.recordCount index next body
      = .ok (index', next', [])) (hhwm : next' = header.committedHwm) :
    ∃ b : Batch c, rest = b.bytes .v2 shard next ++ rest' ∧ b.Ok .v2 next ∧
      next' = next + b.frames.length := by
  obtain ⟨rfl, hmax, hheader⟩ := decodeEpoch_eq_ok hdecode
  obtain ⟨fs, hbody, hcount, hnext⟩ := scanFrames_ok hframes
  rw [append_nil] at hbody
  refine ⟨⟨header.leaderEpoch, header.flags, fs⟩, ?_, ⟨?_, ?_⟩, by rw [hnext, hcount]⟩
  · rw [hheader]
    simp only [Batch.bytes, Batch.epochHeader, Batch.body, ← hbody, hshard, hfirst, hcount]
    rfl
  · rw [Batch.body, ← hbody]
    exact hmax
  · -- a saturated watermark would not be the number of records
    have hsat : header.committedHwm = satAdd64 header.firstOffset header.recordCount :=
      congrArg EpochHeader.committedHwm hheader
    unfold satAdd64 at hsat
    dsimp only
    omega

theorem exists_batches_v2 (hfuel : rest.length ≤ fuel) (hlen : rest.length ≤ len)
    (hscan : (scanV2Loop c purged path true shard len fuel index next rest).result = .ok next') :
    ∃ (bs : List (Batch c)) (tail : Bytes), rest = fileBytes .v2 shard next bs ++ tail ∧
      FileOk .v2 next bs ∧ Torn c .v2 tail := by
  induction fuel generalizing next index rest with
  | zero =>
    obtain rfl : rest = [] := length_eq_zero_iff.mp (Nat.le_zero.mp hfuel)
    exact ⟨[], [], rfl, trivial, .nil .v2⟩
  | succ fuel ih =>
    by_cases hnil : rest = []
    · subst hnil
      exact ⟨[], [], rfl, trivial, .nil .v2⟩
    rw [scanV2Loop, if_neg hnil] at hscan
    rcases hdecode : decodeEpoch c rest with ⟨e | ⟨header, body⟩, rest'⟩
    · rw [hdecode] at hscan
      refine ⟨[], rest, rfl, trivial, ?_⟩
      dsimp only at hscan
      split at hscan
      · next heof =>
        subst heof
        exact .inr (congrArg Prod.fst hdecode)
      · split at hscan
        · next hshort => exact .inl (by have := hshort.2; omega)
        · cases hscan
    · rw [hdecode] at hscan
      dsimp only at hscan
      split at hscan
      · cases hscan
      · next hvalid =>
        push Not at hvalid
        rcases hframes : scanFrames c purged path (len - rest.length + epochHeaderBytes) body.length
          header.recordCount index next body with e | ⟨index', next₁, left⟩
        · rw [hframes] at hscan
          cases hscan
        · rw [hframes] at hscan
          dsimp only at hscan
          split at hscan
          · cases hscan
          · next hwhole =>
            push Not at hwhole
            obtain ⟨rfl, hhwm⟩ := hwhole
            obtain ⟨b, rfl, hok, hnext⟩ := exists_batch hdecode hvalid.1 hvalid.2.1 hframes hhwm
            have hpos := length_pos_iff.mpr (hok.bytes_ne_nil shard)
            rw [length_append] at hfuel hlen
            obtain ⟨bs, tail, rfl, hoks, htorn⟩ := ih (by omega) (by omega) hscan
            refine ⟨b :: bs, tail, ?_, ⟨hok, hnext ▸ hoks⟩, htorn⟩
            rw [fileBytes, append_assoc, hnext]

theorem scanV1Loop_frame (hdecode : decodeFrame c rest = (.ok item, rest')) :
    scanV1Loop c purged path trunc len (fuel + 1) index next rest
      = scanV1Loop c purged path trunc len fuel
          (indexScanned purged path index next (len - rest.length)) (next + 1) rest' := by
  obtain ⟨f, -, rfl⟩ := exists_frame hdecode
  rw [scanV1Loop, if_neg (append_ne_nil_of_left_ne_nil f.bytes_ne_nil _), hdecode]

theorem scanV1Loop_refused {e : RecordError} (hdecode : decodeFrame c rest = (.error e, rest'))
    (heof : e ≠ .io .unexpectedEof) :
    scanV1Loop c purged path trunc len (fuel + 1) index next rest
      = if rest' ≠ [] then ⟨index, .quarantine, .error (.corruptSegment path next e)⟩
        else ⟨index, .keep, .ok next⟩ := by
  have hne : rest ≠ [] := by
    rintro rfl
    cases hdecode
    exact heof rfl
  rw [scanV1Loop, if_neg hne, hdecode]
  cases e with
  | io error =>
    cases error with
    | unexpectedEof => exact absurd rfl heof
    | _ => rfl
  | _ => rfl

/-- A damaged frame at the end of a file stops the walk, and the scan takes the file as it is.
Whatever is written behind the frame makes the same scan fail. -/
theorem scanV1Loop_damaged (hend : endsDamaged c fuel rest = true) (len : Nat) :
    (∃ index' next', scanV1Loop c purged path trunc len fuel index next rest
        = ⟨index', .keep, .ok next'⟩ ∧ next' ≤ next + rest.length) ∧
      ∀ (more : Bytes) (len' fuel' : Nat), more ≠ [] → fuel ≤ fuel' →
        ∃ index' e, scanV1Loop c purged path trunc len' fuel' index next (rest ++ more)
          = ⟨index', .quarantine, .error e⟩ := by
  induction fuel generalizing next index rest with
  | zero => cases hend
  | succ fuel ih =>
    rw [endsDamaged] at hend
    rcases hdecode : decodeFrame c rest with ⟨e | item, rest'⟩
    · rw [hdecode] at hend
      obtain ⟨heof, rfl⟩ := of_decide_eq_true hend
      refine ⟨⟨index, next, ?_, Nat.le_add_right ..⟩, fun more len' fuel' hmore hfuel => ?_⟩
      · rw [scanV1Loop_refused hdecode heof, if_neg (not_not.mpr rfl)]
      · -- the decoder gave up for a reason that stands, and now it is not at the end of the file
        obtain ⟨fuel', rfl⟩ : ∃ n, fuel' = n + 1 := ⟨fuel' - 1, by omega⟩
        have hagain := ((decodeFrame_definite c).decisive rest e [] hdecode).resolve_left
          fun h => heof h.1
        exact ⟨index, _, by
          rw [scanV1Loop_refused (hagain more) heof, nil_append, if_pos hmore]⟩
    · rw [hdecode] at hend
      obtain ⟨f, hitem, rfl⟩ := exists_frame hdecode
      have hpos := length_pos_iff.mpr f.bytes_ne_nil
      rw [scanV1Loop_frame hdecode, length_append]
      refine ⟨?_, fun more len' fuel' hmore hfuel => ?_⟩
      · obtain ⟨index', next', hscan, hle⟩ := (ih hend).1
        exact ⟨index', next', hscan, by omega⟩
      · obtain ⟨fuel', rfl⟩ : ∃ n, fuel' = n + 1 := ⟨fuel' - 1, by omega⟩
        rw [append_assoc, scanV1Loop_frame (f.exact.ok _)]
        exact (ih hend).2 more len' fuel' hmore (by omega)

end Accepted

/-! ## Recovered logs -/

/-- A directory with sealed segments as the log leaves them, a checkpoint that fits them, and any
bytes in `active.wal`, of which nothing is known to be fsynced. No tombstone is for a record that
is gone. -/
structure AnyWal {c : Codec} (fmt : WalFormat) (shard : UInt32) (ss : List (Sealed c))
    (m : WalManifest) (mt : LogMeta) (bytes : Bytes) (d : Disk) : Prop where
  onDisk : OnDisk fmt m false (⟨ss, [], []⟩ : Layout c) [] { d with wal := none }
  wal : d.wal = some ⟨bytes, 0⟩
  shard : m.shardId = shard
  logMeta : d.savedMeta = some mt
  rollCount : mt.segmentRollCount = ss.length
  below : ∀ o ∈ mt.purgedOffsets,
    o < (sealedRecords ss).length + walRecords c fmt bytes.length bytes

/-- Whatever a first open of the directory returned, all further use of the log keeps: it reads as
those records and the ones appended since, at the offsets the appends returned, and every later open
succeeds. -/
def Reusable (env : Env) (shard : UInt32) (d : Disk) : Prop :=
  ∀ (config : PartitionLogConfig) (requested : UInt16) (now : Nat)
    (log : PartitionLog) (st : Store),
    openForShard env config shard requested now ⟨d, []⟩ = (.ok log, st) →
      ∃ account : Account, ∀ (actions : List Action) (a : Audited),
        Run (Audited.step env shard) (Audited.ActionOk env) ⟨st.disk, some log, account⟩ actions a →
          a.Faithful env shard

section Recovered

variable {ss : List (Sealed env.codec)} {m : WalManifest} {mt : LogMeta} {bytes : Bytes} {d : Disk}

section

variable (h : AnyWal fmt shard ss m mt bytes d) (hfew : d.Few)

include h hfew

theorem AnyWal.rebuild :
    ∃ gs, scanSegments env m mt.purgedOffsets d = .ok ((sealedRecords ss).length, gs, []) := by
  obtain ⟨gs, hloop, -⟩ := h.onDisk.scanned (h.onDisk.segments_length ▸ hfew) mt.purgedOffsets
  exact ⟨gs, hloop⟩

/-- The WAL a successful open has scanned is a file of batches and a torn tail. -/
theorem AnyWal.batches (hcondition : fmt = .v2 ∨ endsDamaged env.codec bytes.length bytes = false)
    {config : PartitionLogConfig} {requested : UInt16} {now : Nat} {log : PartitionLog} {st : Store}
    (hopen : openForShard env config shard requested now ⟨d, []⟩ = (.ok log, st)) :
    ∃ (bs : List (Batch env.codec)) (tail : Bytes),
      bytes = fileBytes fmt m.shardId (sealedRecords ss).length bs ++ tail ∧
      FileOk fmt (sealedRecords ss).length bs ∧ Torn env.codec fmt tail := by
  obtain ⟨gs, hsegments⟩ := h.rebuild hfew
  rcases hscan : scanFile env.codec mt.purgedOffsets .wal true m [] (sealedRecords ss).length bytes
    with ⟨index, effect, e | next⟩
  · have hmanifest : d.manifest = .valid m := h.onDisk.manifest
    have hfails := openForShard_scanned env config requested now [] hmanifest h.onDisk.supported
      h.logMeta hsegments (show _ = (⟨index, effect, .error e⟩ : ScanOutcome) by
        rw [scanWal, h.wal]; exact hscan)
    rw [h.shard, hopen] at hfails
    cases hfails
  · have hresult := congrArg ScanOutcome.result hscan
    unfold scanFile at hresult
    rw [h.onDisk.format] at hresult
    cases fmt with
    | v1 => exact exists_batches_v1 m.shardId le_rfl hresult (hcondition.resolve_left nofun)
    | v2 => exact exists_batches_v2 le_rfl le_rfl hresult

end

theorem AnyWal.reusable (henv : env.InPlace) (h : AnyWal fmt shard ss m mt bytes d) (hfew : d.Few)
    (hcondition : fmt = .v2 ∨ endsDamaged env.codec bytes.length bytes = false) :
    Reusable env shard d := by
  intro config requested now log st hopen
  obtain ⟨bs, tail, hbytes, hok, htorn⟩ := h.batches hfew hcondition hopen
  have hdisk : OnDisk fmt m false (⟨ss, [], bs⟩ : Layout env.codec) tail d :=
    ⟨h.onDisk.manifest, h.onDisk.format, h.onDisk.names, h.onDisk.segments, nofun,
      h.onDisk.sealedOk, hok, htorn, .inl (by rw [h.wal, hbytes]; rfl), h.onDisk.logMeta⟩
  have hbelow : ∀ o ∈ mt.purgedOffsets, o < (⟨ss, [], bs⟩ : Layout env.codec).frames.length := by
    rw [Layout.length_frames]
    have hcount := h.below
    rw [hbytes, walRecords_fileBytes hok htorn le_rfl] at hcount
    exact hcount
  let account : Account := ⟨(⟨ss, [], bs⟩ : Layout env.codec).items, mt.purgedOffsets⟩
  obtain ⟨log', st', hopen', hsteady⟩ : ∃ log' st',
      openForShard env config shard requested now ⟨d, []⟩ = (.ok log', st') ∧
        Steady fmt shard account (Layout.recovered ⟨ss, [], bs⟩ tail) (st'.disk.sys log') :=
    hdisk.opened h.shard h.logMeta h.rollCount rfl hbelow (fun _ => Iff.rfl) config requested now []
      hfew
  cases hopen.symm.trans hopen'
  refine ⟨account, fun actions a hrun => ?_⟩
  have hok : a.Ok env shard := Run.invariant (Audited.Ok env shard)
    (fun _ _ _ h hok hstep => Audited.step_ok henv h hok hstep) hrun ⟨fmt, _, hsteady⟩
  exact hok.faithful

theorem dropLog_group {s : Sys} (hmode : s.config.fsync = .group) (hdirty : s.dirty = true)
    (hfail : s.failNextSync = false) (hcount : s.flushCount = 0) :
    (dropLog s).2.disk = s.disk.syncWal.saveMeta s.logMeta := by
  have hflush : flushDurable s = (.ok (), (s.put s.disk.syncWal).withLog fun log =>
      { log with committedHwm := log.nextOffset, flushCount := 1, dirty := false }) := by
    simp [flushDurable_eq, Sys.synced, hdirty, hfail, hmode, hcount, Sys.put, Sys.withLog, satAdd64]
  rw [dropLog, hflush]
  rfl

/-- **Damage that ends with the file is left in it**, and the next append follows it. -/
theorem AnyWal.not_reusable (h : AnyWal .v1 shard ss m mt bytes d)
    (hfew : d.Few) (hend : endsDamaged env.codec bytes.length bytes = true)
    {frame : Bytes} (hframe : encodeFrame env.codec item.1 item.2 = .ok frame)
    (hne : frame ≠ []) (hsmall : item.2.length < 2 ^ 32)
    (hbound : (sealedRecords ss).length + bytes.length + 1 < 2 ^ 64) : ¬ Reusable env shard d := by
  intro hreusable
  have hmanifest : d.manifest = .valid m := h.onDisk.manifest
  have hsupported := h.onDisk.supported
  have hv1 : isV2 m = false := by
    rw [isV2, h.onDisk.format]
    rfl
  obtain ⟨gs, hsegments⟩ := h.rebuild hfew
  obtain ⟨⟨index, next, hscan, hnext⟩, hagain⟩ :
      (∃ index next, scanV1Loop env.codec mt.purgedOffsets .wal true bytes.length bytes.length []
        (sealedRecords ss).length bytes = ⟨index, .keep, .ok next⟩ ∧
          next ≤ (sealedRecords ss).length + bytes.length) ∧ _ :=
    scanV1Loop_damaged hend bytes.length
  -- the first open, with room for one more frame
  let config : PartitionLogConfig := ⟨bytes.length + frame.length + 1, .group⟩
  have hscanned : scanWal env m mt.purgedOffsets d [] (sealedRecords ss).length
      = ⟨index, .keep, .ok next⟩ := by
    rw [scanWal, h.wal, scanFile, h.onDisk.format]
    exact hscan
  let opened : Sys := ⟨⟨d.createWal.saveMeta { mt with nextOffset := next }, []⟩,
    scannedLog config m mt (sealedRecords ss).length next gs index bytes.length⟩
  have hopen : openForShard env config shard 1 0 ⟨d, []⟩
      = (.ok opened.log, ⟨opened.disk, [d.createWal, opened.disk]⟩) := by
    have hsize : (d.createWal.wal.getD .empty).bytes.length = bytes.length := by
      rw [Disk.createWal, h.wal]
      rfl
    rw [← h.shard, openForShard_scanned env config 1 0 [] hmanifest hsupported h.logMeta hsegments
      hscanned]
    simp only [Store.applyEffect, hsize]
    rfl
  obtain ⟨account, hkeeps⟩ := hreusable config 1 0 _ _ hopen
  have hroom : opened.walSize + frame.length < opened.config.segmentMaxBytes :=
    Nat.lt_succ_self _
  obtain ⟨s, happend, hdisk, hlog⟩ := appendFenced_v1_group 0 item hv1 rfl hframe hroom
  have hsuccess : (LogOp.append 0 item.1 item.2 none).succeeds env opened = true :=
    congrArg (fun r => r.1.toBool) happend
  have hran : (LogOp.append 0 item.1 item.2 none).run env opened = s := congrArg Prod.snd happend
  have hclosed : (dropLog (s.disk.sys s.log)).2.disk = s.disk.syncWal.saveMeta s.logMeta :=
    dropLog_group (by rw [hlog]; rfl) (by rw [hlog]) (by rw [hlog]; rfl) (by rw [hlog]; rfl)
  have hrun : Run (Audited.step env shard) (Audited.ActionOk env)
      ⟨opened.disk, some opened.log, account⟩ [.call (.append 0 item.1 item.2 none), .close]
      ⟨s.disk.syncWal.saveMeta s.logMeta, none,
        account.apply env (.append 0 item.1 item.2 none)⟩ := by
    refine .cons ?_ (Audited.step_call hsuccess account rfl) (.cons trivial ?_ (.nil _))
    · rintro _ ⟨⟩
      exact ⟨by show next + 1 < 2 ^ 64; omega, fun _ => hsmall⟩
    · rw [hran]
      exact congrArg (fun disk => some (⟨disk, none, _⟩ : Audited)) hclosed
  -- the damaged frame is still there, and the scan of the next open runs into it
  have hpurged : s.purgedOffsets = mt.purgedOffsets := by
    rw [hlog]
    rfl
  have hmanifest' : (s.disk.syncWal.saveMeta s.logMeta).manifest = .valid m := by
    rw [hdisk]
    exact hmanifest
  have hsegments' : (s.disk.syncWal.saveMeta s.logMeta).segments = d.segments := by
    rw [hdisk]
    rfl
  have hwal : ((s.disk.syncWal.saveMeta s.logMeta).wal.getD .empty).bytes = bytes ++ frame := by
    have hopened : opened.disk.wal = some ⟨bytes, 0⟩ := by
      show some (d.wal.getD .empty) = _
      rw [h.wal]
      rfl
    simp only [Disk.saveMeta, Disk.syncWal, hdisk, Disk.writeWal, hopened]
    rfl
  obtain ⟨index', e, hfails⟩ := hagain frame (bytes ++ frame).length (bytes ++ frame).length hne
    (by rw [length_append]; omega)
  have hrescanned : scanWal env m s.purgedOffsets
      (s.disk.syncWal.saveMeta s.logMeta) [] (sealedRecords ss).length
      = ⟨index', .quarantine, .error e⟩ := by
    rw [scanWal, hwal, hpurged, scanFile, h.onDisk.format]
    exact hfails
  have hresegments : scanSegments env m s.purgedOffsets
      (s.disk.syncWal.saveMeta s.logMeta) = .ok ((sealedRecords ss).length, gs, []) := by
    rw [scanSegments, Disk.sortedSegments, hsegments', hpurged]
    exact hsegments
  have herror := openForShard_scanned env config 1 0 [] hmanifest' hsupported rfl hresegments
    hrescanned
  have hreopens := (hkeeps _ _ hrun).reopens rfl (by rw [hmanifest']; intro h; cases h)
    (by rw [Disk.Few, hsegments']; exact hfew) config 1 0
  rw [h.shard] at herror
  simp only [Audited.step] at hreopens
  split at hreopens
  · cases hreopens
  · next hok =>
    rw [hok] at herror
    cases herror

/-- **A recovered log stays good exactly when its WAL does not end in a complete damaged frame.** -/
theorem reusable_iff (henv : env.InPlace) (h : AnyWal fmt shard ss m mt bytes d) (hfew : d.Few)
    (hbound : (sealedRecords ss).length + bytes.length + 1 < 2 ^ 64)
    (hitem : ∃ item : Item, Encodes env.codec item = true ∧ item.2.length < 2 ^ 32) :
    Reusable env shard d ↔ fmt = .v2 ∨ endsDamaged env.codec bytes.length bytes = false := by
  refine ⟨fun hreusable => ?_, h.reusable henv hfew⟩
  cases fmt with
  | v2 => exact .inl rfl
  | v1 =>
    right
    rw [← Bool.not_eq_true]
    intro hend
    obtain ⟨item, hencodes, hsmall⟩ := hitem
    obtain ⟨frame, hframe⟩ := encodeFrame_of_encodes hencodes
    obtain ⟨hok, hbytes⟩ := (encodeFrame_eq_ok_iff ..).mp hframe
    have hne : frame ≠ [] := by
      rw [hbytes]
      exact (encodedFrame henv.lawful item hok hsmall).bytes_ne_nil
    exact h.not_reusable hfew hend hframe hne hsmall hbound hreusable

end Recovered

/-- A new shard directory whose `active.wal` holds `bytes`. -/
def walOnly (requested : UInt16) (bytes : Bytes) : Disk :=
  ⟨.valid ⟨1, requested, protocolVersion, 0⟩, .missing, some ⟨bytes, 0⟩, []⟩

theorem anyWal_walOnly (fmt : WalFormat) (bytes : Bytes) :
    AnyWal fmt 0 ([] : List (Sealed c)) ⟨1, fmt.version, protocolVersion, 0⟩ .empty bytes
      (walOnly fmt.version bytes) :=
  ⟨onDisk_created c false fmt 0, rfl, rfl, rfl, rfl, nofun⟩

/-- A V1 file that ends inside a frame. -/
def tornFile : Bytes :=
  let frame := frameBytes Bincode.codec (plainRecord 1, [1])
  frame ++ frame.take 9

theorem torn_frame_reusable : Reusable localEnv 0 (walOnly 1 tornFile) := by
  have hany : AnyWal .v1 0 ([] : List (Sealed localEnv.codec)) ⟨1, 1, protocolVersion, 0⟩
      .empty tornFile (walOnly 1 tornFile) := anyWal_walOnly .v1 tornFile
  have hbound : (sealedRecords ([] : List (Sealed localEnv.codec))).length
      + tornFile.length + 1 < 2 ^ 64 := by
    decide +kernel
  have hitem : Encodes localEnv.codec (plainRecord 1, [1]) = true := by decide +kernel
  have hend : endsDamaged localEnv.codec tornFile.length tornFile = false := by
    decide +kernel
  exact (reusable_iff localEnv_inPlace hany (Nat.zero_le _) hbound
    ⟨_, hitem, by decide⟩).mpr (.inr hend)

/-- A V1 file that ends in four zero bytes. -/
def damagedFile : Bytes := frameBytes Bincode.codec (plainRecord 1, [1]) ++ [0, 0, 0, 0]

def useAndClose : List Action :=
  [.openLog (unrolled .group) 1 0, .call (.append 0 (plainRecord 2) [2] none), .call .sync, .close]

/-- **A log that opens, takes another record, and never opens again.** -/
theorem damaged_frame_breaks_reopen :
    ∃ a, Run (Audited.step localEnv 0) (Audited.ActionOk localEnv)
        ⟨walOnly 1 damagedFile, none, .empty⟩ useAndClose a ∧
      (openForShard localEnv (unrolled .group) 0 1 0 ⟨a.disk, []⟩).1
        = .error (.corruptSegment .wal 1 .invalidMagic) := by
  decide +kernel

end BetterMQ
