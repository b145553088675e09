import BetterMQ.Storage.Layout

/-!
# The recovery scan and the sparse index on well-formed files

* **`scanFile_layout`** — scanning a file of whole batches with a torn rest indexes exactly the
  records of the batches and, when asked to, truncates the file to them;
* **`buildSparseIndex_layout`** — the sparse index of a sealed file points at batch boundaries.
-/

namespace BetterMQ

open List

variable {c : Codec}

/-! ## The index a scan builds -/

/-- The index entries of the placed records that are not tombstoned. -/
def scannedIndex (purged : List Nat) (path : LogPath) (xs : List (Placed c)) : Index :=
  (xs.filter fun x => x.offset ∉ purged).map (Placed.entry path)

theorem scannedIndex_append (purged : List Nat) (path : LogPath) (xs ys : List (Placed c)) :
    scannedIndex purged path (xs ++ ys)
      = scannedIndex purged path xs ++ scannedIndex purged path ys := by
  simp [scannedIndex]

variable {purged : List Nat} {path : LogPath} {xs : List (Placed c)}

theorem mem_scannedIndex {e : Nat × LogPosition} (h : e ∈ scannedIndex purged path xs) :
    ∃ x ∈ xs, x.offset ∉ purged ∧ x.entry path = e := by
  obtain ⟨x, hx, he⟩ := mem_map.mp h
  obtain ⟨hmem, hkeep⟩ := mem_filter.mp hx
  exact ⟨x, hmem, by simpa using hkeep, he⟩

variable {index : Index}

theorem indexScanned_eq (purged : List Nat) (path : LogPath) (x : Placed c)
    (h : ∀ e ∈ index, e.1 < x.offset) :
    indexScanned purged path index x.offset x.byteOffset
      = index ++ scannedIndex purged path [x] := by
  unfold indexScanned scannedIndex
  by_cases hp : x.offset ∈ purged
  · simp [hp]
  · rw [KeyMap.insert_of_forall_lt h]
    simp [hp, Placed.entry]

theorem scannedIndex_lt {n : Nat} (hindex : ∀ e ∈ index, e.1 < n) (hxs : ∀ x ∈ xs, x.offset < n) :
    ∀ e ∈ index ++ scannedIndex purged path xs, e.1 < n := by
  intro e he
  rcases mem_append.mp he with hold | hnew
  · exact hindex e hold
  · obtain ⟨x, hx, -, rfl⟩ := mem_scannedIndex hnew
    exact hxs x hx

/-! ## V1 -/

variable {first len fuel : Nat} {bs : List (Batch c)} {tail : Bytes}

theorem scanV1Loop_layout (shard : UInt32) (purged : List Nat) (path : LogPath) (trunc : Bool)
    (pos : Nat) (hok : FileOk .v1 first bs) (htorn : Torn c .v1 tail)
    (hindex : ∀ e ∈ index, e.1 < first)
    (hlen : len = pos + (fileBytes .v1 shard first bs ++ tail).length)
    (hfuel : (fileBytes .v1 shard first bs ++ tail).length ≤ fuel) :
    scanV1Loop c purged path trunc len fuel index first (fileBytes .v1 shard first bs ++ tail)
      = ⟨index ++ scannedIndex purged path (placed .v1 first pos bs),
          if tail = [] ∨ trunc = false then .keep
          else .truncate (pos + (fileBytes .v1 shard first bs).length),
          .ok (first + (records bs).length)⟩ := by
  induction bs generalizing first pos index fuel with
  | nil =>
    simp only [fileBytes, nil_append, placed, records_nil, length_nil, Nat.add_zero] at *
    by_cases htail : tail = []
    · subst htail
      cases fuel <;> simp [scanV1Loop, scannedIndex]
    · have hpos : 0 < tail.length := length_pos_iff.mpr htail
      obtain _ | fuel := fuel
      · omega
      have hstart : len - tail.length = pos := by omega
      have heof : decodeFrame c tail = (.error (.io .unexpectedEof), (decodeFrame c tail).2) :=
        Prod.ext htorn rfl
      rw [scanV1Loop, heof, hstart]
      cases trunc <;> simp [scannedIndex, htail]
  | cons b bs ih =>
    obtain ⟨f, hf, hbody⟩ := exists_frame_of_ok_v1 hok.1
    have hbytes : b.bytes .v1 shard first = f.bytes := hbody
    have hcount : b.frames.length = 1 := hok.1
    have hne := f.bytes_ne_nil
    have hpos : 0 < f.bytes.length := length_pos_iff.mpr hne
    rw [fileBytes, hbytes, hcount, append_assoc] at hlen hfuel ⊢
    rw [length_append] at hlen hfuel
    obtain _ | fuel := fuel
    · omega
    have hstart : len - (f.bytes ++ (fileBytes .v1 shard (first + 1) bs ++ tail)).length = pos := by
      rw [length_append]
      omega
    have hplaced : placed .v1 first pos (b :: bs)
        = ⟨first, pos, f⟩ :: placed .v1 (first + 1) (pos + f.bytes.length) bs := by
      simp [placed, placedFrames, hf, hbody, batchHead]
    have hok' : FileOk .v1 (first + 1) bs := by
      have := hok.2
      rwa [hcount] at this
    have hrec : first + (records (b :: bs)).length = first + 1 + (records bs).length := by
      rw [records_cons, length_append, hcount, Nat.add_assoc]
    have hscanned := indexScanned_eq purged path ⟨first, pos, f⟩ hindex
    rw [scanV1Loop, if_neg (by simp [hne]), f.exact.ok, hstart]
    simp only
    rw [hscanned, ih (pos + f.bytes.length) hok'
      (scannedIndex_lt (fun e he => Nat.lt_succ_of_lt (hindex e he)) (by simp)) (by omega)
      (by omega)]
    rw [hrec, hplaced, append_assoc, ← scannedIndex_append, length_append, Nat.add_assoc]
    rfl

/-! ## V2 -/

theorem scanFrames_layout (purged : List Nat) (path : LogPath) (base done : Nat)
    (fs : List (Frame c)) (rest : Bytes) {bodyLen : Nat} (hindex : ∀ e ∈ index, e.1 < first)
    (hlen : bodyLen = done + (fs.flatMap Frame.bytes ++ rest).length) :
    scanFrames c purged path base bodyLen fs.length index first (fs.flatMap Frame.bytes ++ rest)
      = .ok (index ++ scannedIndex purged path (placedFrames first (base + done) fs),
          first + fs.length, rest) := by
  induction fs generalizing first done index with
  | nil => simp [scanFrames, scannedIndex, placedFrames]
  | cons f fs ih =>
    rw [flatMap_cons, append_assoc] at hlen ⊢
    rw [length_append] at hlen
    have hstart : bodyLen - (f.bytes ++ (fs.flatMap Frame.bytes ++ rest)).length = done := by
      rw [length_append]
      omega
    have hscanned := indexScanned_eq purged path ⟨first, base + done, f⟩ hindex
    rw [length_cons, scanFrames, f.exact.ok, hstart]
    simp only
    rw [hscanned, ih (done + f.bytes.length)
      (scannedIndex_lt (fun e he => Nat.lt_succ_of_lt (hindex e he)) (by simp)) (by omega)]
    rw [append_assoc, ← scannedIndex_append, placedFrames, Nat.add_assoc base done,
      show first + 1 + fs.length = first + (fs.length + 1) by omega]
    rfl

theorem decodeEpoch_short (h : tail.length < epochHeaderBytes) :
    ∃ e, (decodeEpoch c tail).1 = .error e := by
  rcases hdecode : decodeEpoch c tail with ⟨e | ⟨header, body⟩, left⟩
  · exact ⟨e, rfl⟩
  · obtain ⟨rfl, -⟩ := decodeEpoch_eq_ok hdecode
    rw [List.length_append, List.length_append, length_header_bytes] at h
    omega

/-- A torn V2 tail is refused with an error that makes recovery cut it off. -/
theorem Torn.decodeEpoch_error (h : Torn c .v2 tail) :
    ∃ e, (decodeEpoch c tail).1 = .error e ∧
      (e = .io .unexpectedEof ∨ tail.length < epochHeaderBytes) := by
  rcases h with hshort | heof
  · obtain ⟨e, he⟩ := decodeEpoch_short hshort
    exact ⟨e, he, .inr hshort⟩
  · exact ⟨_, heof, .inl rfl⟩

theorem scanV2Loop_layout (shard : UInt32) (purged : List Nat) (path : LogPath) (pos : Nat)
    {trunc : Bool} (hok : FileOk .v2 first bs) (htorn : Torn c .v2 tail)
    (htrunc : tail = [] ∨ trunc = true) (hindex : ∀ e ∈ index, e.1 < first)
    (hlen : len = pos + (fileBytes .v2 shard first bs ++ tail).length)
    (hfuel : (fileBytes .v2 shard first bs ++ tail).length ≤ fuel) :
    scanV2Loop c purged path trunc shard len fuel index first (fileBytes .v2 shard first bs ++ tail)
      = ⟨index ++ scannedIndex purged path (placed .v2 first pos bs),
          if tail = [] then .keep else .truncate (pos + (fileBytes .v2 shard first bs).length),
          .ok (first + (records bs).length)⟩ := by
  induction bs generalizing first pos index fuel with
  | nil =>
    simp only [fileBytes, nil_append, placed, records_nil, length_nil, Nat.add_zero] at *
    by_cases htail : tail = []
    · subst htail
      cases fuel <;> simp [scanV2Loop, scannedIndex]
    · have hpos : 0 < tail.length := length_pos_iff.mpr htail
      obtain _ | fuel := fuel
      · omega
      have hstart : len - tail.length = pos := by omega
      have htrue : trunc = true := htrunc.resolve_left htail
      obtain ⟨e, herror, hcut⟩ := htorn.decodeEpoch_error
      have hdecode : decodeEpoch c tail = (.error e, (decodeEpoch c tail).2) := Prod.ext herror rfl
      rw [scanV2Loop, hdecode, hstart]
      rcases hcut with rfl | hshort
      · simp [scannedIndex, htail, htrue]
      · have hrest : len - pos < epochHeaderBytes := by omega
        simp [scannedIndex, htail, htrue, hrest]
  | cons b bs ih =>
    have hne := hok.1.bytes_ne_nil shard
    have hblen := length_batch_bytes .v2 shard first b
    have hpos : 0 < (b.bytes .v2 shard first).length := length_pos_iff.mpr hne
    rw [fileBytes, append_assoc] at hlen hfuel ⊢
    rw [length_append] at hlen hfuel
    obtain _ | fuel := fuel
    · omega
    have hstart : len - (b.bytes .v2 shard first ++
        (fileBytes .v2 shard (first + b.frames.length) bs ++ tail)).length = pos := by
      rw [length_append]
      omega
    have hsat : satAdd64 first b.frames.length = first + b.frames.length :=
      satAdd64_of_lt hok.1.2
    have hrec : first + (records (b :: bs)).length
        = first + b.frames.length + (records bs).length := by
      rw [records_cons, length_append, Nat.add_assoc]
    -- the body of the epoch is scanned frame by frame
    have hframes := scanFrames_layout purged path (pos + epochHeaderBytes) 0 b.frames [] hindex
      (Nat.zero_add _).symm
    rw [append_nil, Nat.add_zero] at hframes
    rw [scanV2Loop, if_neg (by simp [hne]), (decodeEpoch_batch hok.1).ok, hstart]
    simp only [Batch.header, EpochHeader.withFlags, EpochHeader.v2, hsat, ne_eq, not_true_eq_false,
      or_self, if_false]
    rw [show b.body = b.frames.flatMap Frame.bytes from rfl, hframes]
    simp only [not_true_eq_false, or_self, if_false]
    rw [ih (pos + (b.bytes .v2 shard first).length) hok.2
      (scannedIndex_lt (fun e he => by have := hindex e he; omega)
        (fun x hx => (placedFrames_bounds hx).2)) (by omega) (by omega)]
    rw [hrec, append_assoc, ← scannedIndex_append, length_append, Nat.add_assoc, hblen,
      placed, batchHead, Nat.add_assoc pos]

/-! ## Both formats -/

variable {fmt : WalFormat} {manifest : WalManifest}

/-- **The scan recovers exactly the whole batches.** A torn rest is cut off; a sealed file must
have none. -/
theorem scanFile_layout (purged : List Nat) (path : LogPath) (trunc : Bool)
    (hfmt : manifest.walFormatVersion = fmt.version) (hok : FileOk fmt first bs)
    (htorn : Torn c fmt tail) (htrunc : tail = [] ∨ trunc = true) :
    scanFile c purged path trunc manifest [] first (fileBytes fmt manifest.shardId first bs ++ tail)
      = ⟨scannedIndex purged path (placed fmt first 0 bs),
          if tail = [] then .keep
          else .truncate (fileBytes fmt manifest.shardId first bs).length,
          .ok (first + (records bs).length)⟩ := by
  unfold scanFile
  cases fmt with
  | v1 =>
    rw [hfmt]
    have hscan := scanV1Loop_layout manifest.shardId purged path trunc 0 hok htorn
      (forall_mem_nil _) (Nat.zero_add _).symm le_rfl
    simp only [WalFormat.version, if_true]
    rw [hscan]
    rcases htrunc with rfl | rfl <;> simp
  | v2 =>
    rw [hfmt]
    have hscan := scanV2Loop_layout manifest.shardId purged path 0 hok htorn htrunc
      (forall_mem_nil _) (Nat.zero_add _).symm le_rfl
    simp only [WalFormat.version, show walFormatV2 ≠ walFormatV1 by decide, if_false, if_true]
    rw [hscan, Nat.zero_add, nil_append]

/-! ## Sparse indexes -/

/-- A sparse point of a sealed file: the start of some batch, and an offset not before it. In V1
the point's offset is that of the frame it points at. -/
def PointOk (fmt : WalFormat) (shard : UInt32) (first : Nat) (bs : List (Batch c))
    (p : SparsePoint) : Prop :=
  ∃ pre post, bs = pre ++ post ∧ p.byteOffset = (fileBytes fmt shard first pre).length ∧
    first + (records pre).length ≤ p.offset ∧
    (fmt = .v1 → p.offset = first + (records pre).length)

/-- The first point is for the offset. -/
def HeadAt (first : Nat) (points : List SparsePoint) : Prop :=
  ∃ byteOffset, points.head? = some ⟨first, byteOffset⟩

/-- The sparse index of a sealed file that holds `bs` from offset `first` on. -/
structure SegmentOk (fmt : WalFormat) (shard : UInt32) (first : Nat) (bs : List (Batch c))
    (path : LogPath) (g : SegmentIndex) : Prop where
  path_eq : g.path = path
  firstOffset : g.firstOffset = first
  lastOffset : g.lastOffset = first + (records bs).length
  head : HeadAt first g.points
  points : ∀ p ∈ g.points, PointOk fmt shard first bs p

section Points

-- the walk has passed `pre` and is at the offset `next`
variable {next : Nat} (shard : UInt32) (pre : List (Batch c))
  (hnext : next = first + (records pre).length)

include hnext

theorem sparsePointsV1_layout (hok : FileOk .v1 next bs)
    (hlen : len = (fileBytes .v1 shard first (pre ++ bs)).length) :
    ∃ points, sparsePointsV1 c first len (records bs).length next (fileBytes .v1 shard next bs)
        = .ok points ∧ (∀ p ∈ points, PointOk .v1 shard first (pre ++ bs) p) ∧
      (records pre = [] → records bs ≠ [] → HeadAt first points) := by
  induction bs generalizing pre next with
  | nil => exact ⟨[], by simp [sparsePointsV1], by simp, fun _ h => absurd rfl h⟩
  | cons b bs ih =>
    obtain ⟨f, hf, hbody⟩ := exists_frame_of_ok_v1 hok.1
    have hcount : b.frames.length = 1 := hok.1
    obtain ⟨points, hwalk, hpoints, -⟩ := ih (pre ++ [b])
      (show next + 1 = _ by simp [hnext, hf]; rfl) (hcount ▸ hok.2)
      (by rw [hlen, append_assoc]; rfl)
    have hbytes : fileBytes .v1 shard next (b :: bs)
        = f.bytes ++ fileBytes .v1 shard (next + 1) bs := by
      rw [fileBytes, hcount]
      exact congrArg (· ++ _) hbody
    have hstart : len - (fileBytes .v1 shard next (b :: bs)).length
        = (fileBytes .v1 shard first pre).length := by
      rw [hlen, fileBytes_append, hnext, length_append, Nat.add_sub_cancel]
    have hrec : (records (b :: bs)).length = (records bs).length + 1 := by
      rw [records_cons, length_append, hcount, Nat.add_comm]
    have hhere : PointOk .v1 shard first (pre ++ b :: bs)
        ⟨next, (fileBytes .v1 shard first pre).length⟩ :=
      ⟨pre, b :: bs, rfl, rfl, hnext.ge, fun _ => hnext⟩
    have hlater : ∀ p ∈ points, PointOk .v1 shard first (pre ++ b :: bs) p := by
      rwa [append_assoc] at hpoints
    rw [hrec, sparsePointsV1, hstart, hbytes, f.exact.ok]
    simp only [hwalk]
    refine ⟨_, rfl, ?_, ?_⟩
    · split
      · exact forall_mem_cons.mpr ⟨hhere, hlater⟩
      · exact hlater
    · intro hnone _
      exact ⟨(fileBytes .v1 shard first pre).length, by simp [hnext, hnone]⟩

theorem sparsePointsV2_layout (hok : FileOk .v2 next bs)
    (hlen : len = (fileBytes .v2 shard first (pre ++ bs)).length)
    (hfuel : (fileBytes .v2 shard next bs).length ≤ fuel) :
    ∃ points, sparsePointsV2 c first len fuel (fileBytes .v2 shard next bs) = .ok points ∧
      (∀ p ∈ points, PointOk .v2 shard first (pre ++ bs) p) ∧
      (records pre = [] → records bs ≠ [] → HeadAt first points) := by
  induction bs generalizing pre next fuel with
  | nil =>
    refine ⟨[], ?_, by simp, fun _ h => absurd rfl h⟩
    cases fuel <;> simp [sparsePointsV2, fileBytes]
  | cons b bs ih =>
    have hne := hok.1.bytes_ne_nil shard
    have hpos : 0 < (b.bytes .v2 shard next).length := length_pos_iff.mpr hne
    have hstart : len - (fileBytes .v2 shard next (b :: bs)).length
        = (fileBytes .v2 shard first pre).length := by
      rw [hlen, fileBytes_append, hnext, length_append, Nat.add_sub_cancel]
    rw [fileBytes, length_append] at hfuel
    obtain _ | fuel := fuel
    · omega
    obtain ⟨points, hwalk, hpoints, hhead⟩ := ih (pre ++ [b])
      (by simp [hnext, Nat.add_assoc]) hok.2 (by rw [hlen, append_assoc]; rfl)
      (show _ ≤ fuel by omega)
    have hsat : satAdd64 next b.frames.length = next + b.frames.length := satAdd64_of_lt hok.1.2
    rw [sparsePointsV2, hstart, fileBytes, if_neg (by simp [hne]), (decodeEpoch_batch hok.1).ok]
    simp only [Batch.header, EpochHeader.withFlags, EpochHeader.v2, hsat, Nat.add_sub_cancel_left,
      hwalk]
    refine ⟨_, rfl, ?_, ?_⟩
    · intro p hp
      rcases mem_append.mp hp with hhere | hlater
      · obtain ⟨offset, hoff, rfl⟩ := mem_map.mp hhere
        have hrange := (mem_filter.mp hoff).1
        rw [mem_range'_1] at hrange
        exact ⟨pre, b :: bs, rfl, rfl, hnext.ge.trans hrange.1, fun h => by cases h⟩
      · have := hpoints p hlater
        rwa [append_assoc] at this
    · intro hnone hsome
      cases hn : b.frames.length with
      | zero =>
        -- an epoch without records has no point
        have hempty : b.frames = [] := length_eq_zero_iff.mp hn
        rw [records_cons, hempty] at hsome
        simpa using hhead (by simp [hnone, hempty]) hsome
      | succ n =>
        exact ⟨(fileBytes .v2 shard first pre).length, by simp [hnext, hnone, range'_succ]⟩

end Points

/-- **A sealed file gets a sound sparse index.** -/
theorem buildSparseIndex_layout (path : LogPath) (hfmt : manifest.walFormatVersion = fmt.version)
    (hok : FileOk fmt first bs) (hne : records bs ≠ []) :
    ∃ g, buildSparseIndex c manifest path first (first + (records bs).length)
        (fileBytes fmt manifest.shardId first bs) = .ok g ∧
      SegmentOk fmt manifest.shardId first bs path g := by
  have hfinish : ∀ points : List SparsePoint,
      (∀ p ∈ points, PointOk fmt manifest.shardId first bs p) →
      HeadAt first points → SegmentOk fmt manifest.shardId first bs path
        ⟨path, first, first + (records bs).length,
          if points = [] then [⟨first, 0⟩] else points⟩ := by
    intro points hpoints hhead
    have hcons : points ≠ [] := by
      rintro rfl
      obtain ⟨_, hhead⟩ := hhead
      cases hhead
    rw [if_neg hcons]
    exact ⟨rfl, rfl, rfl, hhead, hpoints⟩
  unfold buildSparseIndex
  cases fmt with
  | v1 =>
    obtain ⟨points, hwalk, hpoints, hhead⟩ :=
      sparsePointsV1_layout manifest.shardId [] (rfl : first = _) hok rfl
    rw [nil_append] at hwalk
    refine ⟨_, ?_, hfinish points hpoints (hhead rfl hne)⟩
    rw [hfmt]
    simp only [WalFormat.version, if_true, Nat.add_sub_cancel_left, hwalk]
    rfl
  | v2 =>
    obtain ⟨points, hwalk, hpoints, hhead⟩ :=
      sparsePointsV2_layout manifest.shardId [] (rfl : first = _) hok rfl le_rfl
    rw [nil_append] at hwalk
    refine ⟨_, ?_, hfinish points hpoints (hhead rfl hne)⟩
    rw [hfmt]
    simp only [WalFormat.version, show walFormatV2 ≠ walFormatV1 by decide, if_false, if_true,
      hwalk]
    rfl

/-! ## All sealed segments -/

/-- A sealed segment: its file name and what it holds. -/
abbrev Sealed (c : Codec) := FileName × List (Batch c)

/-- The records of all sealed segments, in order. -/
def sealedRecords (ss : List (Sealed c)) : List (Frame c) := ss.flatMap fun s => records s.2

@[simp] theorem sealedRecords_nil : sealedRecords ([] : List (Sealed c)) = [] := rfl

@[simp] theorem sealedRecords_cons (s : Sealed c) (ss : List (Sealed c)) :
    sealedRecords (s :: ss) = records s.2 ++ sealedRecords ss := by simp [sealedRecords]

@[simp] theorem sealedRecords_append (as bs : List (Sealed c)) :
    sealedRecords (as ++ bs) = sealedRecords as ++ sealedRecords bs := by simp [sealedRecords]

/-- The files under `segments/`, the first starting at offset `first`. -/
def segmentFiles (fmt : WalFormat) (shard : UInt32) :
    Nat → List (Sealed c) → List (FileName × Bytes)
  | _, [] => []
  | first, (name, bs) :: ss =>
    (name, fileBytes fmt shard first bs) ::
      segmentFiles fmt shard (first + (records bs).length) ss

/-- Every sealed segment is well formed and holds something. -/
def SealedFilesOk (fmt : WalFormat) : Nat → List (Sealed c) → Prop
  | _, [] => True
  | first, (_, bs) :: ss =>
    (FileOk fmt first bs ∧ records bs ≠ []) ∧ SealedFilesOk fmt (first + (records bs).length) ss

/-- The in-memory sparse indexes are those of the sealed segments. -/
def SealedOk (fmt : WalFormat) (shard : UInt32) :
    Nat → List (Sealed c) → List SegmentIndex → Prop
  | _, [], [] => True
  | first, (name, bs) :: ss, g :: gs =>
    SegmentOk fmt shard first bs (.segment name) g ∧
      SealedOk fmt shard (first + (records bs).length) ss gs
  | _, _, _ => False

theorem segmentFiles_append (fmt : WalFormat) (shard : UInt32) (first : Nat)
    (as bs : List (Sealed c)) :
    segmentFiles fmt shard first (as ++ bs) = segmentFiles fmt shard first as ++
      segmentFiles fmt shard (first + (sealedRecords as).length) bs := by
  induction as generalizing first with
  | nil => simp [segmentFiles]
  | cons a as ih =>
    rw [cons_append, segmentFiles, ih, sealedRecords_cons, length_append, Nat.add_assoc]
    rfl

theorem segmentFiles_names (fmt : WalFormat) (shard : UInt32) (first : Nat) (ss : List (Sealed c)) :
    (segmentFiles fmt shard first ss).map Prod.fst = ss.map Prod.fst := by
  induction ss generalizing first with
  | nil => rfl
  | cons s ss ih => rw [segmentFiles, map_cons, ih, map_cons]

theorem sealedFilesOk_append {as bs : List (Sealed c)} :
    SealedFilesOk fmt first (as ++ bs) ↔
      SealedFilesOk fmt first as ∧
        SealedFilesOk fmt (first + (sealedRecords as).length) bs := by
  induction as generalizing first with
  | nil => simp [SealedFilesOk]
  | cons a as ih =>
    obtain ⟨name, batches⟩ := a
    rw [cons_append, SealedFilesOk, ih, SealedFilesOk, sealedRecords_cons,
      length_append, Nat.add_assoc]
    simp only [and_assoc]

variable {shard : UInt32} {gs : List SegmentIndex} {ss : List (Sealed c)} {g : SegmentIndex}
  {next next' : Nat}

theorem SealedOk.snoc {name : FileName} (h : SealedOk fmt shard first ss gs)
    (hg : SegmentOk fmt shard (first + (sealedRecords ss).length) bs (.segment name) g) :
    SealedOk fmt shard first (ss ++ [(name, bs)]) (gs ++ [g]) := by
  induction ss generalizing first gs with
  | nil =>
    cases gs with
    | nil => exact ⟨by simpa using hg, trivial⟩
    | cons g' gs => exact h.elim
  | cons s ss ih =>
    obtain ⟨sname, sbs⟩ := s
    cases gs with
    | nil => exact h.elim
    | cons g' gs =>
      refine ⟨h.1, ih h.2 ?_⟩
      rw [sealedRecords_cons, length_append, ← Nat.add_assoc] at hg
      exact hg

theorem SealedOk.lastOffset_le (h : SealedOk fmt shard first ss gs) :
    ∀ g ∈ gs, g.lastOffset ≤ first + (sealedRecords ss).length := by
  induction ss generalizing first gs with
  | nil =>
    cases gs with
    | nil => exact nofun
    | cons g gs => exact h.elim
  | cons s ss ih =>
    obtain ⟨name, bs⟩ := s
    cases gs with
    | nil => exact h.elim
    | cons g gs =>
      intro g' hg'
      rw [sealedRecords_cons, length_append, ← Nat.add_assoc]
      rcases mem_cons.mp hg' with rfl | hmem
      · rw [h.1.lastOffset]
        exact Nat.le_add_right _ _
      · exact ih h.2 g' hmem

/-! ## Counting -/

/-- The records a walk over a file finds. -/
def walRecords (c : Codec) (fmt : WalFormat) : Nat → Bytes → Nat
  | 0, _ => 0
  | fuel + 1, rest =>
    match fmt with
    | .v1 =>
      match decodeFrame c rest with
      | (.ok _, rest') => walRecords c fmt fuel rest' + 1
      | (.error _, _) => 0
    | .v2 =>
      match decodeEpoch c rest with
      | (.ok (epoch, _), rest') => walRecords c fmt fuel rest' + epoch.recordCount
      | (.error _, _) => 0

theorem walRecords_fileBytes (hok : FileOk fmt next bs) (htorn : Torn c fmt tail)
    (hfuel : (fileBytes fmt shard next bs ++ tail).length ≤ fuel) :
    walRecords c fmt fuel (fileBytes fmt shard next bs ++ tail) = (records bs).length := by
  induction bs generalizing next fuel with
  | nil =>
    cases fuel with
    | zero => rfl
    | succ fuel =>
      cases fmt with
      | v1 =>
        have hstop : (decodeFrame c tail).1 = .error (.io .unexpectedEof) := htorn
        rcases hdecode : decodeFrame c tail with ⟨e | item, rest⟩
        · simp [walRecords, fileBytes, hdecode]
        · rw [hdecode] at hstop
          cases hstop
      | v2 =>
        obtain ⟨e, hstop, -⟩ := htorn.decodeEpoch_error
        rcases hdecode : decodeEpoch c tail with ⟨e | epoch, rest⟩
        · simp [walRecords, fileBytes, hdecode]
        · rw [hdecode] at hstop
          cases hstop
  | cons b bs ih =>
    have hpos := length_pos_iff.mpr (hok.1.bytes_ne_nil shard)
    rw [fileBytes, append_assoc, length_append] at hfuel
    obtain ⟨fuel, rfl⟩ : ∃ n, fuel = n + 1 := ⟨fuel - 1, by omega⟩
    have hrest := ih hok.2 (show _ ≤ fuel by omega)
    rw [fileBytes, append_assoc, records_cons, length_append]
    cases fmt with
    | v1 =>
      obtain ⟨f, hframes, hbody⟩ := exists_frame_of_ok_v1 hok.1
      have hbytes : b.bytes .v1 shard next = f.bytes := hbody
      rw [hbytes, walRecords, f.exact.ok]
      simp only [hrest]
      rw [hframes, length_singleton, Nat.add_comm]
    | v2 =>
      rw [walRecords, (decodeEpoch_batch hok.1).ok]
      simp only [hrest]
      exact Nat.add_comm ..

/-! ## What a scan of any bytes indexes -/

section Entries

variable {purged : List Nat} {path : LogPath} {truncateTornTail : Bool}
  {P : Nat × LogPosition → Prop}
  {index : Index}

theorem indexScanned_entries (offset byteOffset : Nat)
    (hnew : offset ∉ purged → P (offset, ⟨path, byteOffset⟩)) (h : ∀ e ∈ index, P e) :
    ∀ e ∈ indexScanned purged path index offset byteOffset, P e := by
  unfold indexScanned
  split
  · exact h
  · next hkept =>
    intro e he
    rcases KeyMap.mem_insert he with rfl | hold
    · exact hnew hkept
    · exact h e hold

variable (hnew : ∀ offset byteOffset, offset ∉ purged → P (offset, ⟨path, byteOffset⟩))
include hnew

theorem scanV1Loop_entries (len fuel : Nat) (next : Nat) (rest : Bytes) (h : ∀ e ∈ index, P e) :
    ∀ e ∈ (scanV1Loop c purged path truncateTornTail len fuel index next rest).index, P e := by
  induction fuel generalizing index next rest with
  | zero => exact h
  | succ fuel ih =>
    unfold scanV1Loop
    split
    · exact h
    · split
      · exact ih _ _ (indexScanned_entries _ _ (hnew _ _) h)
      · exact h
      · split <;> exact h

theorem scanFrames_entries (base bodyLen count : Nat) {index index' : Index} {rest rest' : Bytes}
    (h : ∀ e ∈ index, P e) (hscan : scanFrames c purged path base bodyLen count index next rest
      = .ok (index', next', rest')) : ∀ e ∈ index', P e := by
  induction count generalizing index next rest with
  | zero =>
    cases hscan
    exact h
  | succ count ih =>
    unfold scanFrames at hscan
    split at hscan
    · cases hscan
    · exact ih (indexScanned_entries _ _ (hnew _ _) h) hscan

theorem scanV2Loop_entries (shardId : UInt32) (len fuel : Nat) (next : Nat) (rest : Bytes)
    (h : ∀ e ∈ index, P e) :
    ∀ e ∈ (scanV2Loop c purged path truncateTornTail shardId len fuel index next rest).index,
      P e := by
  induction fuel generalizing index next rest with
  | zero => exact h
  | succ fuel ih =>
    unfold scanV2Loop
    split
    · exact h
    · dsimp only
      split
      · split
        · split <;> exact h
        · split <;> exact h
      · split
        · exact h
        · split
          · exact h
          · next hframes =>
            have hscanned := scanFrames_entries hnew _ _ _ h hframes
            split
            · exact hscanned
            · exact ih _ _ hscanned

/-- **What holds of the records a scan may index and of the index before it holds of the index
after it**, whatever the bytes and the outcome. -/
theorem scanFile_entries (manifest : WalManifest) (next : Nat) (bytes : Bytes)
    (h : ∀ e ∈ index, P e) :
    ∀ e ∈ (scanFile c purged path truncateTornTail manifest index next bytes).index, P e := by
  unfold scanFile
  dsimp only
  split
  · exact scanV1Loop_entries hnew _ _ _ _ h
  · split
    · exact scanV2Loop_entries hnew _ _ _ _ _ h
    · exact h

end Entries

theorem buildSparseIndex_path {m : WalManifest} {firstOffset lastOffset : Nat} {bytes : Bytes}
    (h : buildSparseIndex c m path firstOffset lastOffset bytes = .ok g) :
    g.path = path := by
  unfold buildSparseIndex at h
  dsimp only at h
  split at h
  · obtain ⟨points, -, hg⟩ := exists_of_bind_eq_ok h
    cases hg
    rfl
  · split at h
    · obtain ⟨points, -, hg⟩ := exists_of_bind_eq_ok h
      cases hg
      rfl
    · cases h

/-- Likewise for the segment loop and the paths of the segments. -/
theorem rebuildSegments_entries {env : Env} {P : Nat × LogPosition → Prop} {Q : LogPath → Prop}
    {files : List NamedFile} {gs' : List SegmentIndex} {index index' : Index}
    (hnew : ∀ f ∈ files, ∀ offset byteOffset, offset ∉ purged →
      P (offset, ⟨.segment f.1, byteOffset⟩))
    (hfiles : ∀ f ∈ files, Q (.segment f.1)) (h : ∀ e ∈ index, P e) (hgs : ∀ g ∈ gs, Q g.path)
    (hloop : rebuildSegments env manifest purged files next gs index = .ok (next', gs', index')) :
    (∀ e ∈ index', P e) ∧ ∀ g ∈ gs', Q g.path := by
  induction files generalizing next gs index with
  | nil =>
    cases hloop
    exact ⟨h, hgs⟩
  | cons f files ih =>
    obtain ⟨name, file⟩ := f
    have hscan : ∀ e ∈ (scanFile env.codec purged (.segment name) false manifest index next
        file.bytes).index, P e :=
      scanFile_entries (hnew _ (.head _)) manifest next file.bytes h
    have hrest := fun g hg => hnew g (.tail _ hg)
    have hrestFiles := fun g hg => hfiles g (.tail _ hg)
    unfold rebuildSegments at hloop
    dsimp only at hloop
    split at hloop
    · cases hloop
    · split at hloop
      · split at hloop
        · cases hloop
        · next g hbuild =>
          refine ih hrest hrestFiles (fun e he => hscan e (mem_filter.mp he).1)
            (fun g' hg' => ?_) hloop
          rcases mem_append.mp hg' with hold | hlast
          · exact hgs g' hold
          · rw [mem_singleton.mp hlast, buildSparseIndex_path hbuild]
            exact hfiles _ (.head _)
      · exact ih hrest hrestFiles hscan hgs hloop

end BetterMQ
