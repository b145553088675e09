import BetterMQ.Storage.Scan

/-!
# Reading a well-formed log

`read_range` walks the sealed segments through their sparse indexes and then the index of the
active WAL. On a directory that holds a layout it returns what the layout says.

* **`readRange_layout`** — the first `max` visible messages of the records in the sealed segments
  and the active file, in offset order.
-/

namespace BetterMQ

open List

variable {c : Codec} {purged : List Nat} {partition : UInt32} {start max : Nat}

theorem visible_cons (start : Nat) (purged : List Nat) (m : StoredMessage)
    (ms : List StoredMessage) :
    visible start purged (m :: ms) =
      if start ≤ m.offset ∧ m.offset ∉ purged then m :: visible start purged ms
      else visible start purged ms := by
  simp [visible, filter_cons]

theorem take_two_steps {α : Type} (max : Nat) (out as bs : List α) :
    (out ++ as.take (max - out.length)) ++
        bs.take (max - (out ++ as.take (max - out.length)).length)
      = out ++ (as ++ bs).take (max - out.length) := by
  rw [take_append, append_assoc, length_append, length_take]
  congr 3
  omega

/-! ## Frames -/

variable {out : List StoredMessage} {fs : List (Frame c)} {rest : Bytes} {offset lastOffset : Nat}

theorem readSparseV1_layout :
    readSparseV1 c purged partition start max fs.length offset (fs.flatMap Frame.bytes ++ rest) out
      = .ok (out ++ (visible start purged
          (messagesFrom partition offset (fs.map Frame.item))).take (max - out.length)) := by
  induction fs generalizing offset out with
  | nil => simp [readSparseV1, messagesFrom, visible]
  | cons f fs ih =>
    rw [length_cons, readSparseV1, flatMap_cons, append_assoc, map_cons, messagesFrom, visible_cons]
    by_cases hroom : out.length < max
    · rw [if_pos hroom, f.exact.ok]
      simp only
      rw [ih]
      obtain ⟨k, hk⟩ := Nat.exists_eq_succ_of_ne_zero (show max - out.length ≠ 0 by omega)
      by_cases hvis : start ≤ offset ∧ offset ∉ purged
      · rw [if_pos hvis, if_pos (by simpa [storedMessage] using hvis), hk,
          length_append, length_singleton, show max - (out.length + 1) = k by omega,
          append_assoc]
        rfl
      · rw [if_neg hvis, if_neg (by simpa [storedMessage] using hvis)]
    · rw [if_neg hroom, show max - out.length = 0 by omega, take_zero, append_nil]

theorem readEpochFrames_layout (hroom : out.length < max)
    (hlast : offset + fs.length ≤ lastOffset) :
    readEpochFrames c purged partition start max lastOffset fs.length offset
        (fs.flatMap Frame.bytes ++ rest) out
      = .ok (out ++ (visible start purged
          (messagesFrom partition offset (fs.map Frame.item))).take (max - out.length)) := by
  induction fs generalizing offset out with
  | nil => simp [readEpochFrames, messagesFrom, visible]
  | cons f fs ih =>
    rw [length_cons] at hlast
    rw [length_cons, readEpochFrames, flatMap_cons, append_assoc, map_cons,
      messagesFrom, visible_cons, f.exact.ok]
    simp only
    obtain ⟨k, hk⟩ := Nat.exists_eq_succ_of_ne_zero (show max - out.length ≠ 0 by omega)
    by_cases hvis : start ≤ offset ∧ offset ∉ purged
    · have hshown : start ≤ (storedMessage f.item.1 f.item.2 partition offset).offset ∧
          (storedMessage f.item.1 f.item.2 partition offset).offset ∉ purged := hvis
      rw [if_pos hshown, if_pos ⟨hvis.1, by omega, hvis.2⟩, hk, take_succ_cons]
      by_cases hfull : (out ++ [storedMessage f.item.1 f.item.2 partition offset]).length ≥ max
      · rw [if_pos hfull]
        rw [length_append, length_singleton] at hfull
        rw [show k = 0 by omega, take_zero]
      · rw [if_neg hfull, ih (Nat.lt_of_not_le hfull) (by omega)]
        rw [length_append, length_singleton, show max - (out.length + 1) = k by omega, append_assoc]
        rfl
    · rw [if_neg (fun h => hvis ⟨h.1, h.2.2⟩), if_neg (by simpa [storedMessage] using hvis),
        ih hroom (by omega)]

variable {bs : List (Batch c)} {shard : UInt32}

theorem readSparseV2_layout {fuel first : Nat} (hok : FileOk .v2 first bs)
    (hlast : first + (records bs).length ≤ lastOffset)
    (hfuel : (fileBytes .v2 shard first bs).length ≤ fuel) :
    readSparseV2 c purged partition start max lastOffset fuel (fileBytes .v2 shard first bs) out
      = .ok (out ++ (visible start purged
          (messagesFrom partition first ((records bs).map Frame.item))).take
            (max - out.length)) := by
  induction bs generalizing first fuel out with
  | nil => cases fuel <;> simp [readSparseV2, fileBytes, messagesFrom, visible]
  | cons b bs ih =>
    have hne := hok.1.bytes_ne_nil shard
    have hpos : 0 < (b.bytes .v2 shard first).length := length_pos_iff.mpr hne
    have hsat : satAdd64 first b.frames.length = first + b.frames.length :=
      satAdd64_of_lt hok.1.2
    rw [records_cons, length_append] at hlast
    rw [fileBytes, length_append] at hfuel
    obtain _ | fuel := fuel
    · omega
    rw [readSparseV2, fileBytes]
    by_cases hroom : out.length < max
    · rw [if_pos hroom, if_neg (by simp [hne]), (decodeEpoch_batch hok.1).ok]
      have hbody : readEpochFrames c purged partition start max lastOffset b.frames.length first
          (b.frames.flatMap Frame.bytes ++ []) out = _ := readEpochFrames_layout hroom (by omega)
      rw [append_nil] at hbody
      simp only [Batch.header, EpochHeader.withFlags, EpochHeader.v2, hsat, Nat.add_sub_cancel_left,
        Batch.body]
      by_cases hend : first ≥ lastOffset
      · -- an epoch at the end of the segment has no records, and neither has what follows
        have hnone : records (b :: bs) = [] := by
          rw [← length_eq_zero_iff, records_cons, length_append]
          omega
        rw [if_pos hend, hnone]
        simp [messagesFrom, visible]
      rw [if_neg hend, hbody]
      show readSparseV2 c purged partition start max lastOffset fuel _ _ = _
      rw [ih hok.2 (by omega) (by omega), take_two_steps, records_cons, map_append,
        messagesFrom_append, visible_append, length_map]
    · rw [if_neg hroom, show max - out.length = 0 by omega, take_zero, append_nil]

/-! ## Segments -/

theorem fileBytes_v1 (shard : UInt32) (first : Nat) (bs : List (Batch c)) :
    fileBytes .v1 shard first bs = (records bs).flatMap Frame.bytes := by
  induction bs generalizing first with
  | nil => rfl
  | cons b bs ih =>
    rw [fileBytes, ih, records_cons, flatMap_append]
    rfl

/-- The point a read starts from is one of the points, at or before the start unless it is the
first. -/
theorem startPoint_cases (start : Nat) {points : List SparsePoint} {p₀ : SparsePoint}
    (hhead : points.head? = some p₀) :
    startPoint start points ∈ points ∧
      ((startPoint start points).offset ≤ start ∨ startPoint start points = p₀) := by
  obtain ⟨rest, rfl⟩ : ∃ rest, points = p₀ :: rest := by
    cases points with
    | nil => cases hhead
    | cons p rest =>
      cases hhead
      exact ⟨rest, rfl⟩
  unfold startPoint
  cases hfind : (p₀ :: rest).reverse.find? fun point => point.offset ≤ start with
  | none => simp
  | some p =>
    have hmem := mem_of_find?_eq_some hfind
    have hle := find?_some hfind
    exact ⟨mem_reverse.mp hmem, .inl (by simpa using hle)⟩

variable {first : Nat} {fmt : WalFormat} {d : Disk} {manifest : WalManifest} {g : SegmentIndex}
  {log : PartitionLog} {path : LogPath} {tail : Bytes} {junk : Index} {env : Env}

/-- From a sound sparse point on, a file holds everything the read may show. -/
theorem exists_startPoint (start : Nat) (h : SegmentOk fmt shard first bs path g) :
    ∃ pre post, bs = pre ++ post ∧
      (startPoint start g.points).byteOffset = (fileBytes fmt shard first pre).length ∧
      (fmt = .v1 → (startPoint start g.points).offset = first + (records pre).length) ∧
      ∀ (purged : List Nat) (partition : UInt32),
        visible start purged (messagesFrom partition first ((records bs).map Frame.item))
          = visible start purged (messagesFrom partition (first + (records pre).length)
              ((records post).map Frame.item)) := by
  obtain ⟨_, hhead⟩ := h.head
  obtain ⟨hmem, hcase⟩ := startPoint_cases start hhead
  obtain ⟨pre, post, hsplit, hbyte, hoff, hv1⟩ := h.points _ hmem
  refine ⟨pre, post, hsplit, hbyte, hv1, ?_⟩
  intro purged partition
  rw [hsplit, records_append, map_append, messagesFrom_append, visible_append, length_map]
  rcases hcase with hle | hfirst
  · rw [visible_messagesFrom_eq_nil (by rw [length_map]; omega), nil_append]
  · -- nothing stands before the first point
    rw [hfirst] at hoff
    have hnone : records pre = [] := by
      rw [← length_eq_zero_iff]
      dsimp only at hoff
      omega
    rw [hnone]
    rfl

theorem readSparseSegment_layout (hfmt : manifest.walFormatVersion = fmt.version)
    (hok : FileOk fmt first bs)
    (hg : SegmentOk fmt manifest.shardId first bs path g)
    (hread : d.read path = some (fileBytes fmt manifest.shardId first bs)) :
    readSparseSegment c purged partition start max manifest g d out
      = .ok (out ++ (visible start purged
          (messagesFrom partition first ((records bs).map Frame.item))).take
            (max - out.length)) := by
  obtain ⟨pre, post, hsplit, hbyte, hv1, hvis⟩ := exists_startPoint start hg
  have hlast : g.lastOffset = first + (records pre).length + (records post).length := by
    rw [hg.lastOffset, hsplit, records_append, length_append, Nat.add_assoc]
  have hdrop : (fileBytes fmt manifest.shardId first bs).drop (startPoint start g.points).byteOffset
      = fileBytes fmt manifest.shardId (first + (records pre).length) post := by
    rw [hbyte, hsplit, fileBytes_append, drop_left]
  have hpost : FileOk fmt (first + (records pre).length) post := by
    rw [hsplit] at hok
    exact (fileOk_append.mp hok).2
  unfold readSparseSegment
  rw [hg.path_eq, hread, hvis]
  simp only [hdrop]
  cases fmt with
  | v1 =>
    have hnot : isV2 manifest = false := by
      simp [isV2, hfmt, WalFormat.version, walFormatV1, walFormatV2]
    have hwalk : readSparseV1 c purged partition start max (records post).length
        (first + (records pre).length) ((records post).flatMap Frame.bytes ++ []) out = _ :=
      readSparseV1_layout
    rw [append_nil] at hwalk
    rw [hnot, hv1 rfl, hlast, Nat.add_sub_cancel_left, fileBytes_v1]
    exact hwalk
  | v2 =>
    have hyes : isV2 manifest = true := by simp [isV2, hfmt, WalFormat.version]
    rw [hyes]
    exact readSparseV2_layout hpost (by omega) le_rfl

theorem readSealed_layout {ss : List (Sealed c)} {gs : List SegmentIndex} (out : List StoredMessage)
    (hfmt : manifest.walFormatVersion = fmt.version)
    (hfiles : SealedFilesOk fmt first ss) (hgs : SealedOk fmt manifest.shardId first ss gs)
    (hread : ∀ f ∈ segmentFiles fmt manifest.shardId first ss, d.read (.segment f.1) = some f.2) :
    readSealed c purged partition start max manifest d (gs.filter fun g => g.lastOffset > start) out
      = .ok (out ++ (visible start purged
          (messagesFrom partition first ((sealedRecords ss).map Frame.item))).take
            (max - out.length)) := by
  induction ss generalizing first gs out with
  | nil =>
    cases gs with
    | nil => simp [readSealed, messagesFrom, visible]
    | cons g gs => exact hgs.elim
  | cons s ss ih =>
    obtain ⟨name, bs⟩ := s
    cases gs with
    | nil => exact hgs.elim
    | cons g gs =>
      have hhead := hread (name, fileBytes fmt manifest.shardId first bs) (by simp [segmentFiles])
      have htail := fun out => ih out hfiles.2 hgs.2
        (fun f hf => hread f (by rw [segmentFiles]; exact .tail _ hf))
      rw [sealedRecords_cons, map_append, messagesFrom_append, visible_append, length_map]
      by_cases hlast : g.lastOffset > start
      · rw [filter_cons_of_pos (by simpa using hlast), readSealed,
          readSparseSegment_layout hfmt hfiles.1.1 hgs.1 hhead]
        simp only [bind, Except.bind]
        split
        · -- enough: nothing more is taken from the later segments
          next hfull =>
          rw [← take_two_steps, Nat.sub_eq_zero_of_le hfull, take_zero, append_nil]
        · rw [htail, take_two_steps]
      · have hnone : visible start purged
            (messagesFrom partition first ((records bs).map Frame.item)) = [] := by
          apply visible_messagesFrom_eq_nil
          rw [length_map, ← hgs.1.lastOffset]
          omega
        rw [filter_cons_of_neg (by simpa using hlast), htail, hnone, nil_append]

/-! ## The active file -/

theorem readAt_placed (hread : d.read .wal = some (fileBytes fmt shard first bs ++ tail))
    {x : Placed c} (hx : x ∈ placed fmt first 0 bs) :
    readAt c d ⟨.wal, x.byteOffset⟩ = .ok x.frame.item := by
  obtain ⟨after, hdrop⟩ := placed_drop shard hx [] rfl
  rw [nil_append] at hdrop
  have hle : x.byteOffset ≤ (fileBytes fmt shard first bs).length := by
    by_contra hgt
    rw [drop_eq_nil_of_le (by omega)] at hdrop
    exact x.frame.bytes_ne_nil (append_eq_nil_iff.mp hdrop.symm).1
  unfold readAt
  rw [hread]
  simp only
  rw [drop_append_of_le_length hle, hdrop, append_assoc, x.frame.exact.ok]
  rfl

theorem readActive_entries {xs : List (Placed c)}
    (hread : ∀ x ∈ xs, readAt c d ⟨.wal, x.byteOffset⟩ = .ok x.frame.item)
    (hjunk : junk = [] ∨ max ≤ out.length + xs.length) :
    readActive c d partition max (xs.map (Placed.entry .wal) ++ junk) out
      = .ok (out ++ (xs.map (Placed.message partition)).take (max - out.length)) := by
  induction xs generalizing out with
  | nil =>
    rcases hjunk with rfl | hfull
    · simp [readActive]
    · simp only [map_nil, nil_append, take_nil, append_nil]
      cases junk with
      | nil => rfl
      | cons e es =>
        rw [readActive, if_pos (by simpa using hfull)]
  | cons x xs ih =>
    rw [map_cons, cons_append, Placed.entry, readActive]
    by_cases hfull : out.length ≥ max
    · rw [if_pos hfull, Nat.sub_eq_zero_of_le hfull, take_zero, append_nil]
    · have hroom : max - out.length = (max - (out.length + 1)) + 1 := by omega
      have hnext : junk = [] ∨ max ≤ (out ++ [storedMessage x.frame.item.1 x.frame.item.2 partition
          x.offset]).length + xs.length := by
        rcases hjunk with hnil | hmany
        · exact .inl hnil
        · right
          rw [length_cons] at hmany
          rw [length_append, length_singleton]
          omega
      rw [if_neg hfull, hread x (by simp)]
      show readActive c d partition max _ _ = _
      rw [ih (fun y hy => hread y (by simp [hy])) hnext, length_append, hroom, append_assoc]
      rfl

theorem range_scannedIndex (xs : List (Placed c)) :
    (scannedIndex purged .wal xs).range start
      = (xs.filter fun x => start ≤ x.offset ∧ x.offset ∉ purged).map (Placed.entry .wal) := by
  unfold scannedIndex KeyMap.range
  rw [filter_map, filter_filter]
  congr 1
  apply filter_congr
  intro x _
  show (decide (start ≤ x.offset) && decide (x.offset ∉ purged)) = _
  rw [Bool.decide_and]

theorem visible_placed (xs : List (Placed c)) :
    visible start purged (xs.map (Placed.message partition))
      = (xs.filter fun x => start ≤ x.offset ∧ x.offset ∉ purged).map
          (Placed.message partition) := by
  unfold visible
  rw [filter_map]
  rfl

/-! ## The whole log -/

/-- **What `read_range` returns on a well-formed log.** Index entries past the last record are
tolerated as long as the read ends before it reaches them. -/
theorem readRange_layout {ss : List (Sealed env.codec)} {active : List (Batch env.codec)}
    (hfmt : log.walFormatVersion = fmt.version) (hfiles : SealedFilesOk fmt 0 ss)
    (hgs : SealedOk fmt log.shardId 0 ss log.sealedIndexes)
    (hread : ∀ f ∈ segmentFiles fmt log.shardId 0 ss, d.read (.segment f.1) = some f.2)
    (hwal : d.read .wal = some (fileBytes fmt log.shardId (sealedRecords ss).length active ++ tail))
    (hindex : log.index = scannedIndex log.purgedOffsets .wal
      (placed fmt (sealedRecords ss).length 0 active) ++ junk)
    (hjunk : junk = [] ∨ max ≤ (visible start log.purgedOffsets (messagesFrom partition 0
      ((sealedRecords ss ++ records active).map Frame.item))).length) :
    readRange env d log partition start max
      = .ok ((visible start log.purgedOffsets (messagesFrom partition 0
          ((sealedRecords ss ++ records active).map Frame.item))).take max) := by
  have hactive : messagesFrom partition (sealedRecords ss).length ((records active).map Frame.item)
      = (placed fmt (sealedRecords ss).length 0 active).map (Placed.message partition) :=
    (placed_message fmt partition (sealedRecords ss).length 0 active).symm
  have hall : visible start log.purgedOffsets (messagesFrom partition 0
        ((sealedRecords ss ++ records active).map Frame.item))
      = visible start log.purgedOffsets
          (messagesFrom partition 0 ((sealedRecords ss).map Frame.item)) ++
        ((placed fmt (sealedRecords ss).length 0 active).filter fun x =>
          start ≤ x.offset ∧ x.offset ∉ log.purgedOffsets).map (Placed.message partition) := by
    rw [map_append, messagesFrom_append, visible_append, length_map, Nat.zero_add,
      hactive, visible_placed]
  have hrange : log.index.range start
      = ((placed fmt (sealedRecords ss).length 0 active).filter fun x =>
          start ≤ x.offset ∧ x.offset ∉ log.purgedOffsets).map (Placed.entry .wal) ++
        KeyMap.range start junk := by
    rw [hindex, KeyMap.range, filter_append, ← KeyMap.range, range_scannedIndex]
    rfl
  unfold readRange
  rw [readSealed_layout [] hfmt hfiles hgs hread, hrange]
  simp only [bind, Except.bind, nil_append, length_nil, Nat.sub_zero]
  rw [hall] at hjunk
  rw [readActive_entries]
  · have htake := take_two_steps max [] (visible start log.purgedOffsets
        (messagesFrom partition 0 ((sealedRecords ss).map Frame.item)))
      (((placed fmt (sealedRecords ss).length 0 active).filter fun x =>
        start ≤ x.offset ∧ x.offset ∉ log.purgedOffsets).map (Placed.message partition))
    simp only [nil_append, length_nil, Nat.sub_zero] at htake
    rw [htake, hall]
  · intro x hx
    exact readAt_placed hwal (mem_filter.mp hx).1
  · rcases hjunk with rfl | hmany
    · exact .inl rfl
    · right
      rw [length_append, length_map] at hmany
      rw [length_take]
      omega

theorem readRange_congr {d' : Disk}
    (hsealed : ∀ g ∈ log.sealedIndexes, d.read g.path = d'.read g.path)
    (hactive : ∀ e ∈ log.index, d.read e.2.path = d'.read e.2.path) (partition : UInt32)
    (start max : Nat) :
    readRange env d log partition start max = readRange env d' log partition start max := by
  have hsegments : ∀ gs, (∀ g ∈ gs, d.read g.path = d'.read g.path) → ∀ out,
      readSealed env.codec log.purgedOffsets partition start max log.manifest d gs out
        = readSealed env.codec log.purgedOffsets partition start max log.manifest d' gs
            out := by
    intro gs
    induction gs with
    | nil => exact fun _ _ => rfl
    | cons g gs ih =>
      intro hgs out
      have hrest := ih fun g' hg' => hgs g' (.tail _ hg')
      simp only [readSealed, readSparseSegment, hgs g (.head _), hrest]
  have hentries : ∀ entries : Index, (∀ e ∈ entries, d.read e.2.path = d'.read e.2.path) → ∀ out,
      readActive env.codec d partition max entries out
        = readActive env.codec d' partition max entries out := by
    intro entries
    induction entries with
    | nil => exact fun _ _ => rfl
    | cons e entries ih =>
      intro hread out
      have hrest := ih fun e' he' => hread e' (.tail _ he')
      simp only [readActive, readAt, hread e (.head _), hrest]
  unfold readRange
  rw [hsegments _ fun g hg => hsealed g (mem_filter.mp hg).1]
  exact bind_congr fun out => hentries _ (fun e he => hactive e (mem_filter.mp he).1) out

end BetterMQ
