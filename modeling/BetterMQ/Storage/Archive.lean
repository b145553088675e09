import BetterMQ.Storage.Quarantine

/-!
# The archiver beside the recovery scan (`broker-storage/src/archive.rs`)

The archiver keeps its markers under `segments/`, and the recovery scan takes every file it finds
there for a sealed segment. Two threads write markers: the one that queues a sealed segment and the
worker that copies it. A run of `Archiver` interleaves their file operations, so that it can be
stopped between any two of them.

A marker holds text, and text has no zero byte: no frame and no epoch header can start with it. The
scan therefore decodes nothing from a marker, and it either skips the whole file or fails.

* **`Archiving.step`** — whatever the archiver does, the segments stay and the other files are text;
* **`scanFile_text`** — which texts the scan skips, and that it fails on every other;
* **`archiving_is_invisible_iff`** — a reopened log is the one without archiving exactly if the scan
  skips every marker.
-/

namespace BetterMQ

open List Prog Reader

variable {env : Env} {shard : UInt32} {f : NamedFile} {a : Attempt} {log : PartitionLog}
  {strict : Bool}

/-! ## The archiver -/

/-- Text, as `path.display()` and `serde_json` print it: without a zero byte. -/
structure Text where
  bytes : Bytes
  noNul : 0 ∉ bytes

/-- `{name}.archive.complete.json`. -/
def completeMarker (name : FileName) : FileName :=
  name ++ ['.', 'a', 'r', 'c', 'h', 'i', 'v', 'e', '.', 'c', 'o', 'm', 'p', 'l', 'e', 't', 'e', '.',
    'j', 's', 'o', 'n']

/-- `{path}.tmp`. -/
def tmpName (name : FileName) : FileName := name ++ ['.', 't', 'm', 'p']

/-- One operation on a file under `segments/`. -/
inductive FileOp where
  /-- The file is created, written to or synced: afterwards it is as given. -/
  | write (name : FileName) (file : FileData)
  | rename (source target : FileName)
  | remove (name : FileName)

def FileOp.apply (d : Disk) : FileOp → Disk
  | .write name file => d.putSegment name file
  | .rename source target =>
    match d.segments.find? fun f => f.1 = source with
    | none => d
    | some f => (d.removeSegment source).putSegment target f.2
  | .remove name => d.removeSegment name

/-- `atomic_write_file`. With `some n`, `write_all` fails after `n` bytes. -/
def atomicWriteFile (name : FileName) (bytes : Bytes) : Option Nat → List FileOp
  | some n => [.write (tmpName name) .empty, .write (tmpName name) ⟨bytes.take n, 0⟩]
  | none =>
    [.write (tmpName name) .empty, .write (tmpName name) ⟨bytes, 0⟩,
      .write (tmpName name) ⟨bytes, bytes.length⟩, .rename (tmpName name) name]

def writePendingMarker (env : Env) (name : FileName) (fault : Option Nat) : List FileOp :=
  atomicWriteFile (pendingMarker name) (env.displayPath name ++ [10]) fault

/-- `mark_archive_complete`: the pending marker goes once the other one is in place. -/
def markArchiveComplete (name : FileName) (manifest : Text) : Option Nat → List FileOp
  | some n => atomicWriteFile (completeMarker name) manifest.bytes (some n)
  | none =>
    atomicWriteFile (completeMarker name) manifest.bytes none ++ [.remove (pendingMarker name)]

/-- One round of the worker's retry loop: the copy fails, or it succeeds and the marker is
written. -/
inductive ArchiveAttempt where
  | failed
  | copied (manifest : Text) (fault : Option Nat)

/-- The file operations of one job of `archive_worker`. -/
def archiveJob (name : FileName) : List ArchiveAttempt → List FileOp
  | [] => []
  | .failed :: attempts => archiveJob name attempts
  | .copied manifest none :: _ => markArchiveComplete name manifest none
  | .copied manifest (some n) :: attempts =>
    markArchiveComplete name manifest (some n) ++ archiveJob name attempts

/-- The archiver of one partition directory. -/
structure Archiver where
  disk : Disk
  /-- The segment being queued, and what is left to do before it is sent to the worker. -/
  queuing : Option (FileName × List FileOp)
  /-- The channel. -/
  queue : List FileName
  /-- What is left of the worker's job. -/
  working : List FileOp

def Archiver.start (d : Disk) : Archiver := ⟨d, none, [], []⟩

inductive ArchiveStep where
  /-- `enqueue_sealed_segment`, after a roll. -/
  | enqueue (name : FileName) (fault : Option Nat)
  /-- The visit of `visit_recovery_segments`. -/
  | recover (name : FileName) (fault : Option Nat)
  /-- The queuing thread goes on. -/
  | send
  /-- The worker takes the next job; `attempts` says how its rounds will go. -/
  | receive (attempts : List ArchiveAttempt)
  /-- The worker goes on. -/
  | work

/-- The names of the files under `segments/`. -/
abbrev Disk.names (d : Disk) : List FileName := d.segments.map Prod.fst

def Disk.hasSegment (d : Disk) (name : FileName) : Bool := d.segments.any fun f => f.1 = name

/-- `queue_archive_job`, up to its first file operation. -/
def Archiver.queueArchiveJob (env : Env) (a : Archiver) (name : FileName) (fault : Option Nat) :
    Archiver :=
  if a.disk.hasSegment (completeMarker name) then a
  else { a with queuing := some (name, writePendingMarker env name fault) }

def Archiver.step (env : Env) (a : Archiver) : ArchiveStep → Option Archiver
  | .enqueue name fault =>
    match a.queuing with
    | some _ => none
    | none =>
      if a.disk.hasSegment (pendingMarker name) then some a
      else some (a.queueArchiveJob env name fault)
  | .recover name fault =>
    match a.queuing with
    | some _ => none
    | none => some (a.queueArchiveJob env name fault)
  | .send =>
    match a.queuing with
    | none => none
    | some (name, []) => some { a with queuing := none, queue := a.queue ++ [name] }
    | some (name, op :: ops) => some { a with disk := op.apply a.disk, queuing := some (name, ops) }
  | .receive attempts =>
    match a.working, a.queue with
    | [], name :: queue => some { a with queue := queue, working := archiveJob name attempts }
    | _, _ => none
  | .work =>
    match a.working with
    | [] => none
    | op :: ops => some { a with disk := op.apply a.disk, working := ops }

/-- The step is about a segment of the directory `d`. -/
def OverSegments (d : Disk) (_ : Archiver) : ArchiveStep → Prop
  | .enqueue name _ | .recover name _ => name ∈ d.names
  | .send | .receive _ | .work => True

/-! ## What the archiver leaves -/

/-- A directory whose files have different names, none of them another with one more extension. -/
structure Unmarked (d : Disk) : Prop where
  nodup : d.names.Nodup
  fresh : ∀ name ∈ d.names, ∀ ext, name ++ '.' :: ext ∉ d.names

/-- The name of a file the archiver writes. -/
def MarkerName (d : Disk) (name : FileName) : Prop :=
  ∃ segment ∈ d.names, ∃ ext, name = segment ++ '.' :: ext

def FileOp.Marks (d : Disk) : FileOp → Prop
  | .write name file => MarkerName d name ∧ 0 ∉ file.bytes
  | .rename source target => MarkerName d source ∧ MarkerName d target
  | .remove name => MarkerName d name

/-- The directory is `d₀` with some text files more. -/
structure Archived (d₀ d : Disk) : Prop where
  manifest : d.manifest = d₀.manifest
  logMeta : d.logMeta = d₀.logMeta
  wal : d.wal = d₀.wal
  segments : ∃ markers, d.segments.Perm (d₀.segments ++ markers) ∧
    ∀ f ∈ markers, MarkerName d₀ f.1 ∧ 0 ∉ f.2.bytes

section Invariant

variable {d₀ d : Disk} {name : FileName} {a : Archiver}

theorem Unmarked.not_mem (h : Unmarked d₀) (hname : MarkerName d₀ name) :
    name ∉ d₀.names := by
  obtain ⟨segment, hsegment, ext, rfl⟩ := hname
  exact h.fresh segment hsegment ext

theorem Archived.refl (d : Disk) : Archived d d :=
  ⟨rfl, rfl, rfl, [], by rw [append_nil], nofun⟩

section

variable (h : Archived d₀ d)

include h

theorem Archived.text (hf : f ∈ d.segments) (hname : f.1 ∉ d₀.names) : 0 ∉ f.2.bytes := by
  obtain ⟨markers, hperm, hmarkers⟩ := h.segments
  rcases mem_append.mp (hperm.mem_iff.mp hf) with hold | hnew
  · exact absurd (mem_map_of_mem hold) hname
  · exact (hmarkers f hnew).2

variable (hnames : Unmarked d₀)

include hnames

theorem Archived.removeSegment (hname : MarkerName d₀ name) :
    Archived d₀ (d.removeSegment name) := by
  obtain ⟨markers, hperm, hmarkers⟩ := h.segments
  refine ⟨h.manifest, h.logMeta, h.wal, markers.filter fun f => f.1 ≠ name, ?_,
    fun f hf => hmarkers f (mem_filter.mp hf).1⟩
  have hkept : d₀.segments.filter (fun f => decide (f.1 ≠ name)) = d₀.segments := by
    refine filter_eq_self.mpr fun f hf => decide_eq_true ?_
    rintro rfl
    exact hnames.not_mem hname (mem_map_of_mem hf)
  have hfiltered := hperm.filter fun f => decide (f.1 ≠ name)
  rwa [filter_append, hkept] at hfiltered

theorem Archived.putSegment (hname : MarkerName d₀ name) {file : FileData}
    (htext : 0 ∉ file.bytes) : Archived d₀ (d.putSegment name file) := by
  obtain ⟨markers, hperm, hmarkers⟩ := (h.removeSegment hnames hname).segments
  refine ⟨h.manifest, h.logMeta, h.wal, markers ++ [(name, file)], ?_, fun f hf => ?_⟩
  · rw [← append_assoc]
    exact hperm.append_right _
  · rcases mem_snoc.mp hf with hold | rfl
    · exact hmarkers f hold
    · exact ⟨hname, htext⟩

theorem Archived.apply {op : FileOp} (hop : op.Marks d₀) : Archived d₀ (op.apply d) := by
  cases op with
  | write name file => exact h.putSegment hnames hop.1 hop.2
  | remove name => exact h.removeSegment hnames hop
  | rename source target =>
    show Archived d₀ (match d.segments.find? fun f => f.1 = source with
      | none => d
      | some f => (d.removeSegment source).putSegment target f.2)
    cases hfind : d.segments.find? fun f => f.1 = source with
    | none => exact h
    | some f =>
      have hsource : f.1 = source := by simpa using find?_some hfind
      have htext := h.text (mem_of_find?_eq_some hfind) (hsource ▸ hnames.not_mem hop.1)
      exact (h.removeSegment hnames hop.1).putSegment hnames hop.2 htext

end

theorem atomicWriteFile_marks {bytes : Bytes} (hname : MarkerName d₀ name) (htext : 0 ∉ bytes)
    (fault : Option Nat) : ∀ op ∈ atomicWriteFile name bytes fault, op.Marks d₀ := by
  obtain ⟨segment, hsegment, ext, rfl⟩ := hname
  have htmp : MarkerName d₀ (tmpName (segment ++ '.' :: ext)) :=
    ⟨segment, hsegment, ext ++ ['.', 't', 'm', 'p'], by rw [tmpName, append_assoc]; rfl⟩
  have hempty : 0 ∉ FileData.empty.bytes := not_mem_nil
  cases fault with
  | some n =>
    intro op hop
    simp only [atomicWriteFile, mem_cons, not_mem_nil, or_false] at hop
    rcases hop with rfl | rfl
    · exact ⟨htmp, hempty⟩
    · exact ⟨htmp, fun h => htext (mem_of_mem_take h)⟩
  | none =>
    intro op hop
    simp only [atomicWriteFile, mem_cons, not_mem_nil, or_false] at hop
    rcases hop with rfl | rfl | rfl | rfl
    · exact ⟨htmp, hempty⟩
    · exact ⟨htmp, htext⟩
    · exact ⟨htmp, htext⟩
    · exact ⟨htmp, segment, hsegment, ext, rfl⟩

section Segment

variable {name : FileName} (hname : name ∈ d₀.names)
include hname

theorem markerName_pending : MarkerName d₀ (pendingMarker name) :=
  ⟨name, hname, _, rfl⟩

theorem markerName_complete : MarkerName d₀ (completeMarker name) :=
  ⟨name, hname, _, rfl⟩

theorem markArchiveComplete_marks (manifest : Text) (fault : Option Nat) :
    ∀ op ∈ markArchiveComplete name manifest fault, op.Marks d₀ := by
  have hwrite := atomicWriteFile_marks (markerName_complete hname) manifest.noNul
  cases fault with
  | some n => exact hwrite (some n)
  | none =>
    intro op hop
    rcases mem_snoc.mp hop with hmark | rfl
    · exact hwrite none op hmark
    · exact markerName_pending hname

theorem archiveJob_marks (attempts : List ArchiveAttempt) :
    ∀ op ∈ archiveJob name attempts, op.Marks d₀ := by
  induction attempts with
  | nil => exact nofun
  | cons attempt attempts ih =>
    cases attempt with
    | failed => exact ih
    | copied manifest fault =>
      cases fault with
      | none => exact markArchiveComplete_marks hname manifest none
      | some n =>
        intro op hop
        rcases mem_append.mp hop with hmark | hrest
        · exact markArchiveComplete_marks hname manifest (some n) op hmark
        · exact ih op hrest

end Segment

/-- The invariant of a run over the segments of `d₀`. -/
structure Archiving (d₀ : Disk) (a : Archiver) : Prop where
  disk : Archived d₀ a.disk
  queuing : ∀ name ops, a.queuing = some (name, ops) →
    name ∈ d₀.names ∧ ∀ op ∈ ops, op.Marks d₀
  queue : ∀ name ∈ a.queue, name ∈ d₀.names
  working : ∀ op ∈ a.working, op.Marks d₀

theorem Archiving.start (d : Disk) : Archiving d (.start d) :=
  ⟨.refl d, nofun, nofun, nofun⟩

theorem Archiving.queueArchiveJob (h : Archiving d₀ a)
    (hpaths : ∀ name ∈ d₀.names, 0 ∉ env.displayPath name)
    (hname : name ∈ d₀.names) (fault : Option Nat) :
    Archiving d₀ (a.queueArchiveJob env name fault) := by
  unfold Archiver.queueArchiveJob
  split
  · exact h
  · refine ⟨h.disk, fun name' ops heq => ?_, h.queue, h.working⟩
    cases heq
    refine ⟨hname, atomicWriteFile_marks (markerName_pending hname) ?_ fault⟩
    rw [mem_append, not_or]
    exact ⟨hpaths name hname, by decide⟩

/-- **Whatever the archiver does, the segments stay and every other file is text.** -/
theorem Archiving.step {a' : Archiver} {s : ArchiveStep} (h : Archiving d₀ a) (hnames : Unmarked d₀)
    (hpaths : ∀ name ∈ d₀.names, 0 ∉ env.displayPath name)
    (hs : OverSegments d₀ a s) (hstep : a.step env s = some a') : Archiving d₀ a' := by
  cases s with
  | enqueue name fault =>
    simp only [Archiver.step] at hstep
    split at hstep
    · cases hstep
    · split at hstep
      · cases hstep
        exact h
      · cases hstep
        exact h.queueArchiveJob hpaths hs fault
  | recover name fault =>
    simp only [Archiver.step] at hstep
    split at hstep
    · cases hstep
    · cases hstep
      exact h.queueArchiveJob hpaths hs fault
  | send =>
    simp only [Archiver.step] at hstep
    split at hstep
    · cases hstep
    · next name hqueuing =>
      cases hstep
      refine ⟨h.disk, nofun, fun name' hname' => ?_, h.working⟩
      rcases mem_snoc.mp hname' with hold | rfl
      · exact h.queue name' hold
      · exact (h.queuing _ _ hqueuing).1
    · next name op ops hqueuing =>
      cases hstep
      obtain ⟨hname, hops⟩ := h.queuing _ _ hqueuing
      refine ⟨h.disk.apply hnames (hops op (.head _)), fun name' ops' heq => ?_, h.queue, h.working⟩
      cases heq
      exact ⟨hname, fun op' hop' => hops op' (.tail _ hop')⟩
  | receive attempts =>
    simp only [Archiver.step] at hstep
    split at hstep
    · next name queue _ hqueue =>
      cases hstep
      have hall := h.queue
      rw [hqueue] at hall
      exact ⟨h.disk, h.queuing, fun name' hname' => hall name' (.tail _ hname'),
        archiveJob_marks (hall name (.head _)) attempts⟩
    · cases hstep
  | work =>
    simp only [Archiver.step] at hstep
    split at hstep
    · cases hstep
    · next op ops hworking =>
      cases hstep
      have hall := h.working
      rw [hworking] at hall
      exact ⟨h.disk.apply hnames (hall op (.head _)), h.queuing, h.queue,
        fun op' hop' => hall op' (.tail _ hop')⟩

theorem Archiving.run {steps : List ArchiveStep} (hnames : Unmarked d₀)
    (hpaths : ∀ name ∈ d₀.names, 0 ∉ env.displayPath name)
    (hrun : Run (Archiver.step env) (OverSegments d₀) (.start d₀) steps a) : Archiving d₀ a :=
  Run.invariant (Archiving d₀) (fun _ _ _ h hs hstep => h.step hnames hpaths hs hstep) hrun
    (.start d₀)

theorem crash_names (d : Disk) (keep : LogPath → Nat) :
    (d.crash keep).names = d.names := by
  rw [Disk.names, Disk.crash, map_map]
  rfl

theorem Unmarked.crash (h : Unmarked d₀) (keep : LogPath → Nat) : Unmarked (d₀.crash keep) := by
  constructor
  all_goals rw [crash_names]
  · exact h.nodup
  · exact h.fresh

/-- A crash cuts text to text. -/
theorem Archived.crash (h : Archived d₀ d) (keep : LogPath → Nat) :
    Archived (d₀.crash keep) (d.crash keep) := by
  obtain ⟨markers, hperm, hmarkers⟩ := h.segments
  refine ⟨h.manifest, h.logMeta, ?_, markers.map fun f => (f.1, f.2.cut (keep (.segment f.1))), ?_,
    fun f hf => ?_⟩
  · simp only [Disk.crash, h.wal]
  · simp only [Disk.crash, ← map_append]
    exact hperm.map _
  · obtain ⟨g, hg, rfl⟩ := mem_map.mp hf
    obtain ⟨⟨segment, hsegment, hext⟩, htext⟩ := hmarkers g hg
    exact ⟨⟨segment, (crash_names d₀ keep).symm ▸ hsegment, hext⟩,
      fun hmem => htext (mem_of_mem_take hmem)⟩

end Invariant

/-! ## Text under the recovery scan -/

/-- The texts a recovery scan of a sealed file skips. In V2 these are the empty ones; in V1 also
those that end before or right after the four bytes a frame starts with, and those that start like a
frame and end before or right after its lengths. -/
def Harmless (m : WalManifest) (bytes : Bytes) : Prop :=
  if m.walFormatVersion = walFormatV1 then
    bytes.length ≤ 4 ∨ recordMagic <+: bytes ∧ bytes.length ≤ 12
  else bytes = []

instance (m : WalManifest) (bytes : Bytes) : Decidable (Harmless m bytes) := by
  unfold Harmless
  infer_instance

section Text

variable {c : Codec} {bytes : Bytes}

/-- An integer field read from text is large. -/
theorem le_beNat_of_text (htext : 0 ∉ bytes) {w : Nat} (hlen : w < bytes.length) :
    256 ^ w ≤ beNat (bytes.take (w + 1)) := by
  cases bytes with
  | nil => exact absurd hlen (Nat.not_lt_zero w)
  | cons b bs =>
    have hlarge := le_beNat_of_ne_zero (fun h : b = 0 => htext (h ▸ (.head _))) (bs.take w)
    rwa [length_take, Nat.min_eq_left (Nat.le_of_lt_succ hlen)] at hlarge

/-- No frame decodes from text: the length of its header would be too large. -/
theorem decodeFrame_text (c : Codec) (htext : 0 ∉ bytes) :
    ∃ headerLen payloadLen, decodeFrame c bytes =
      if bytes.length < 4 then (.error (.io .unexpectedEof), [])
      else if ¬ recordMagic <+: bytes then (.error .invalidMagic, bytes.drop 4)
      else if bytes.length < 12 then (.error (.io .unexpectedEof), [])
      else (.error (.frameTooLarge headerLen payloadLen), bytes.drop 12) := by
  refine ⟨beNat ((bytes.drop 4).take 4), beNat ((bytes.drop 8).take 4), ?_⟩
  have hmagic : recordMagic <+: bytes ↔ bytes.take 4 = recordMagic :=
    ⟨fun h => (prefix_iff_eq_take.mp h).symm, fun h => prefix_iff_eq_take.mpr h.symm⟩
  unfold decodeFrame
  split
  · next hshort => exact bind_error (readExact_short hshort)
  · next hlen =>
    rw [bind_ok (readExact_long (Nat.not_lt.mp hlen))]
    split
    · next hbad =>
      rw [hmagic] at hbad
      exact bind_error (check_neg hbad)
    · next hstart =>
      rw [not_not, hmagic] at hstart
      rw [bind_ok (check_pos hstart)]
      by_cases hheader : bytes.length < 8
      · rw [if_pos (by omega)]
        exact bind_error (readBe_short (by rw [length_drop]; omega))
      · rw [bind_ok (readBe_long (by rw [length_drop]; omega)), drop_drop]
        split
        · next hlengths =>
          exact bind_error (readBe_short (by rw [length_drop]; omega))
        · next hlengths =>
          rw [bind_ok (readBe_long (by rw [length_drop]; omega)), drop_drop]
          have hlarge : 256 ^ 3 ≤ beNat ((bytes.drop 4).take 4) :=
            le_beNat_of_text (fun h => htext (mem_of_mem_drop h)) (by
              rw [length_drop]
              omega)
          have hmax : maxFrameHeaderBytes < 256 ^ 3 := by decide
          exact bind_error (check_neg (by omega))

/-- No epoch decodes from text: its version would not be the one of the format. -/
theorem decodeEpoch_text (c : Codec) (htext : 0 ∉ bytes) :
    ∃ e left, decodeEpoch c bytes = (.error e, left) := by
  unfold decodeEpoch
  by_cases hshort : bytes.length < 4
  · exact ⟨_, _, bind_error (readExact_short hshort)⟩
  rw [bind_ok (readExact_long (Nat.not_lt.mp hshort))]
  by_cases hmagic : bytes.take 4 = epochMagic
  · rw [bind_ok (check_pos hmagic)]
    by_cases hversion : bytes.length < 6
    · exact ⟨_, _, bind_error (readBe_short (by rw [length_drop]; omega))⟩
    · rw [bind_ok (readBe_long (by rw [length_drop]; omega))]
      have hlarge : 256 ^ 1 ≤ beNat ((bytes.drop 4).take 2) :=
        le_beNat_of_text (fun h => htext (mem_of_mem_drop h)) (by
          rw [length_drop]
          omega)
      have hformat : epochFormatV2 < 256 ^ 1 := by decide
      exact ⟨_, _, bind_error (check_neg (by omega))⟩
  · exact ⟨_, _, bind_error (check_neg hmagic)⟩

variable {m : WalManifest} {purged : List Nat} {path : LogPath}

theorem scanV1Loop_text (htext : 0 ∉ bytes) (hnil : bytes ≠ []) (len fuel : Nat) (index : Index)
    (next : Nat) :
    (bytes.length ≤ 4 ∨ recordMagic <+: bytes ∧ bytes.length ≤ 12) ∧
        scanV1Loop c purged path false len (fuel + 1) index next bytes = ⟨index, .keep, .ok next⟩ ∨
      ¬(bytes.length ≤ 4 ∨ recordMagic <+: bytes ∧ bytes.length ≤ 12) ∧
        ∃ e, (scanV1Loop c purged path false len (fuel + 1) index next bytes).result
          = .error e := by
  obtain ⟨headerLen, payloadLen, hdecode⟩ := decodeFrame_text c htext
  have hleft : ∀ n, bytes.drop n = [] ↔ bytes.length ≤ n := fun n => drop_eq_nil_iff
  simp only [scanV1Loop, hdecode, if_neg hnil]
  by_cases hshort : bytes.length < 4
  · exact .inl ⟨.inl hshort.le, by simp [hshort]⟩
  by_cases hmagic : recordMagic <+: bytes
  · by_cases hlengths : bytes.length < 12
    · exact .inl ⟨.inr ⟨hmagic, hlengths.le⟩, by simp [hshort, hmagic, hlengths]⟩
    · by_cases hend : bytes.length ≤ 12
      · exact .inl ⟨.inr ⟨hmagic, hend⟩, by simp [hshort, hmagic, hlengths, hleft, hend]⟩
      · exact .inr ⟨by omega, by simp [hshort, hmagic, hlengths, hleft, hend]⟩
  · by_cases hend : bytes.length ≤ 4
    · exact .inl ⟨.inl hend, by simp [hshort, hmagic, hleft, hend]⟩
    · exact .inr ⟨by simp [hend, hmagic], by simp [hshort, hmagic, hleft, hend]⟩

/-- **The scan of a sealed file skips the harmless texts and fails on every other.** -/
theorem scanFile_text (hsupported : unsupportedFormat m.walFormatVersion = false)
    (htext : 0 ∉ bytes) (index : Index) (next : Nat) :
    Harmless m bytes ∧
        scanFile env.codec purged path false m index next bytes = ⟨index, .keep, .ok next⟩ ∨
      ¬Harmless m bytes ∧
        ∃ e, (scanFile env.codec purged path false m index next bytes).result = .error e := by
  by_cases hnil : bytes = []
  · subst hnil
    exact .inl ⟨by simp [Harmless], scanFile_nil hsupported ..⟩
  obtain ⟨fuel, hfuel⟩ := Nat.exists_eq_add_one.mpr (length_pos_iff.mpr hnil)
  unfold scanFile Harmless
  dsimp only
  split
  · have hloop := @scanV1Loop_text env.codec bytes purged path htext hnil bytes.length
      fuel index next
    rwa [← hfuel] at hloop
  · next hv1 =>
    have hv2 : m.walFormatVersion = walFormatV2 := by
      by_contra hv2
      simp [unsupportedFormat, hv1, hv2] at hsupported
    obtain ⟨e, left, hdecode⟩ := decodeEpoch_text env.codec htext
    refine .inr ⟨hnil, ?_⟩
    rw [if_pos hv2, hfuel]
    simp only [scanV2Loop, if_neg hnil, hdecode, Bool.false_eq_true, if_false, false_and]
    split <;> exact ⟨_, rfl⟩

end Text

/-! ## The segment loop beside markers -/

section Loop

variable {m : WalManifest} {purged : List Nat} {files : List NamedFile}

theorem rebuildSegments_filter (p : NamedFile → Bool)
    (hskip : ∀ f ∈ files, p f = false → ∀ next gs index,
      rebuildSegments env m purged [f] next gs index = .ok (next, gs, index)) (next : Nat)
    (gs : List SegmentIndex) (index : Index) :
    rebuildSegments env m purged files next gs index
      = rebuildSegments env m purged (files.filter p) next gs index := by
  induction files generalizing next gs index with
  | nil => rfl
  | cons f files ih =>
    have hrest := ih fun g hg => hskip g (.tail _ hg)
    rw [rebuildSegments_cons]
    cases hp : p f with
    | false =>
      rw [filter_cons_of_neg (by rw [hp]; exact Bool.false_ne_true), hskip f (.head _) hp]
      exact hrest next gs index
    | true =>
      rw [filter_cons_of_pos hp, rebuildSegments_cons f (files.filter p)]
      cases rebuildSegments env m purged [f] next gs index with
      | error r => rfl
      | ok r => exact hrest r.1 r.2.1 r.2.2

/-- One file the loop never passes is enough for it to fail. -/
theorem rebuildSegments_fails (hf : f ∈ files)
    (hfail : ∀ next gs index, ∃ r, rebuildSegments env m purged [f] next gs index = .error r)
    (next : Nat) (gs : List SegmentIndex) (index : Index) :
    ∃ r, rebuildSegments env m purged files next gs index = .error r := by
  induction files generalizing next gs index with
  | nil => cases hf
  | cons g files ih =>
    rw [rebuildSegments_cons]
    cases hg : rebuildSegments env m purged [g] next gs index with
    | error r => exact ⟨r, rfl⟩
    | ok r =>
      rcases mem_cons.mp hf with rfl | hmem
      · obtain ⟨r', hr'⟩ := hfail next gs index
        rw [hg] at hr'
        cases hr'
      · exact ih hmem r.1 r.2.1 r.2.2

end Loop

/-! ## Reopening -/

/-- Opening `d` succeeds and yields the records of `d₀` at their offsets. -/
def SameRecovery (env : Env) (shard : UInt32) (a : Attempt) (d₀ d : Disk) : Prop :=
  ∃ log₀ log, (attempt env shard a d₀).1 = .ok log₀ ∧ (attempt env shard a d).1 = .ok log ∧
    log.highWatermark = log₀.highWatermark ∧
    ∀ partition start max, readRange env (attempt env shard a d).2 log partition start max
      = readRange env (attempt env shard a d₀).2 log₀ partition start max

section Reopen

variable {d₀ d : Disk} {m : WalManifest}

theorem mem_sortedSegments : f ∈ d.sortedSegments ↔ f ∈ d.segments :=
  (perm_insertionSort _ d.segments).mem_iff

/-- Sorted and without the markers, the files are the segments in their order. -/
theorem Archived.sortedSegments (h : Archived d₀ d) (hnames : Unmarked d₀) :
    d.sortedSegments.filter (fun f => f.1 ∈ d₀.names) = d₀.sortedSegments := by
  obtain ⟨markers, hperm, hmarkers⟩ := h.segments
  have hsegments : d₀.segments.filter (fun f => decide (f.1 ∈ d₀.names))
      = d₀.segments :=
    filter_eq_self.mpr fun f hf => decide_eq_true (mem_map_of_mem hf)
  have hnone : markers.filter (fun f => decide (f.1 ∈ d₀.names)) = [] :=
    filter_eq_nil_iff.mpr fun f hf => by
      rw [decide_eq_true_iff]
      exact hnames.not_mem (hmarkers f hf).1
  have hfiltered : (d.sortedSegments.filter fun f => decide (f.1 ∈ d₀.names)).Perm
      d₀.sortedSegments := by
    have hall := ((perm_insertionSort (fun f g : NamedFile => f.1 ≤ g.1)
      d.segments).trans hperm).filter fun f => decide (f.1 ∈ d₀.names)
    rw [filter_append, hsegments, hnone, append_nil] at hall
    exact hall.trans (perm_insertionSort _ d₀.segments).symm
  refine List.Perm.eq_of_pairwise ?_ ((pairwise_insertionSort _ _).filter _)
    (pairwise_insertionSort _ _) hfiltered
  -- two segments of one name are one
  intro f g hf hg hle hge
  exact inj_on_of_nodup_map hnames.nodup (mem_sortedSegments.mp (hfiltered.mem_iff.mp hf))
    (mem_sortedSegments.mp hg) (List.le_antisymm hle hge)

theorem Archived.read (h : Archived d₀ d) (hnames : Unmarked d₀) {name : FileName}
    (hname : name ∈ d₀.names) :
    d.read (.segment name) = d₀.read (.segment name) := by
  obtain ⟨markers, hperm, hmarkers⟩ := h.segments
  obtain ⟨f, hf, rfl⟩ := mem_map.mp hname
  have hfind₀ := find?_of_nodup hnames.nodup hf
  have hfind : d.segments.find? (fun g => g.1 = f.1) = some f := by
    cases hg : d.segments.find? fun g => g.1 = f.1 with
    | none =>
      have hmem := hperm.mem_iff.mpr (mem_append_left markers hf)
      have hno := find?_eq_none.mp hg f hmem
      exact absurd (decide_eq_true rfl) hno
    | some g =>
      have hsame : g.1 = f.1 := by simpa using find?_some hg
      rcases mem_append.mp (hperm.mem_iff.mp (mem_of_find?_eq_some hg)) with hold | hnew
      · rw [inj_on_of_nodup_map hnames.nodup hold hf hsame]
      · exact absurd (hsame ▸ hname) (hnames.not_mem (hmarkers g hnew).1)
  simp only [Disk.read, hfind, hfind₀]

theorem loads_of_attempt_ok (hmanifest : d.manifest = .valid m)
    (h : (attempt env shard a d).1 = .ok log) : ∃ mt base gs index,
      Loads env shard m mt.purgedOffsets d ∧
      env.loadMeta d = .ok mt ∧
      scanSegments env m mt.purgedOffsets d = .ok (base, gs, index) := by
  obtain ⟨m', mt, r, hm, hmt, hloop, -⟩ := attempt_ok h
  obtain ⟨-, hsupported, hshard, hsame⟩ := loadOrCreate_ok hm
  obtain rfl := hsame m hmanifest
  exact ⟨mt, r.1, r.2.1, r.2.2, ⟨hmanifest, hsupported, hshard, mt, hmt, rfl⟩, hmt, hloop⟩

/-- What the decision about `active.wal` does to it. -/
def FileEffect.onWal (wal : Option FileData) : FileEffect → Option FileData
  | .keep => wal
  | .truncate len => wal.map fun f => f.truncate len
  | .quarantine => none

theorem Disk.applyEffect_wal (d : Disk) (now : Nat) (effect : FileEffect) :
    d.applyEffect now .wal effect = { d with wal := effect.onWal d.wal } := by
  cases effect <;> rfl

theorem attempt_of_rebuilt (a : Attempt) {mt : LogMeta} {base : Nat} {gs : List SegmentIndex}
    {index : Index} (hloads : Loads env shard m mt.purgedOffsets d)
    (hload : env.loadMeta d = .ok mt)
    (hloop : scanSegments env m mt.purgedOffsets d = .ok (base, gs, index)) :
    attempt env shard a d =
      let scan := scanWal env m mt.purgedOffsets d index base
      let wal := scan.effect.onWal (some (d.wal.getD .empty))
      match scan.result with
      | .error e => (.error e, ⟨.valid m, .valid mt, wal, d.segments⟩)
      | .ok next =>
        (.ok (scannedLog a.config m mt base next gs scan.index (wal.getD .empty).bytes.length),
          ⟨.valid m, .valid { mt with nextOffset := next }, wal, d.segments⟩) := by
  simp only [attempt_eq, hloads.loadOrCreate, hload, hloop, Disk.applyEffect_wal]
  rfl

section

variable (h : Archived d₀ d)

include h

theorem Archived.loadOrDefault (allow : Bool) :
    LogMeta.loadOrDefault allow d = LogMeta.loadOrDefault allow d₀ := by
  simp only [LogMeta.loadOrDefault, h.logMeta]

theorem Archived.loads {purged : List Nat} (hloads : Loads env shard m purged d₀) :
    Loads env shard m purged d := by
  obtain ⟨hmanifest, hsupported, hshard, mt, hload, hpurged⟩ := hloads
  exact ⟨h.manifest.trans hmanifest, hsupported, hshard, mt,
    (h.loadOrDefault _).trans hload, hpurged⟩

theorem Archived.rebuildSegments_eq (hnames : Unmarked d₀)
    (hsupported : unsupportedFormat m.walFormatVersion = false)
    (hharmless : ∀ f ∈ d.segments, f.1 ∉ d₀.names → Harmless m f.2.bytes)
    (purged : List Nat) :
    scanSegments env m purged d = scanSegments env m purged d₀ := by
  rw [scanSegments, scanSegments, ← h.sortedSegments hnames]
  refine rebuildSegments_filter _ (fun f hf hmarker next gs index => ?_) 0 [] []
  have hmem := mem_sortedSegments.mp hf
  have hname : f.1 ∉ d₀.names := of_decide_eq_false hmarker
  have hscan : scanFile env.codec purged (.segment f.1) false m index next f.2.bytes
      = ⟨index, .keep, .ok next⟩ :=
    (scanFile_text hsupported (h.text hmem hname) index next).elim And.right
      fun hbad => absurd (hharmless f hmem hname) hbad.1
  obtain ⟨name, file⟩ := f
  simp only [rebuildSegments, hscan, gt_iff_lt, Nat.lt_irrefl, if_false]

/-- **Harmless markers change nothing.** -/
theorem Archived.sameRecovery (hnames : Unmarked d₀) (hmanifest : d₀.manifest = .valid m)
    {log₀ : PartitionLog} (hopen : (attempt env shard a d₀).1 = .ok log₀)
    (hharmless : ∀ f ∈ d.segments, f.1 ∉ d₀.names → Harmless m f.2.bytes) :
    SameRecovery env shard a d₀ d := by
  obtain ⟨mt, base, gs, index, hloads, hload, hloop⟩ := loads_of_attempt_ok hmanifest hopen
  have hloop' := hloop
  rw [← h.rebuildSegments_eq hnames hloads.supported hharmless] at hloop'
  have hattempt := attempt_of_rebuilt a hloads hload hloop
  have hattempt' := attempt_of_rebuilt a (h.loads hloads) ((h.loadOrDefault _).trans hload) hloop'
  rw [scanWal, h.wal, ← scanWal] at hattempt'
  -- the log names only segments and the WAL
  let known : LogPath → Prop := fun path =>
    path = .wal ∨ ∃ name ∈ d₀.names, path = .segment name
  have hfiles : ∀ f ∈ d₀.sortedSegments, known (.segment f.1) := fun f hf =>
    .inr ⟨f.1, mem_map_of_mem (mem_sortedSegments.mp hf), rfl⟩
  obtain ⟨hindex, hsealed⟩ : (∀ e ∈ index, known e.2.path) ∧ ∀ g ∈ gs, known g.path :=
    rebuildSegments_entries (fun f hf _ _ _ => hfiles f hf) hfiles (forall_mem_nil _)
      (forall_mem_nil _) hloop
  have hactive : ∀ e ∈ (scanWal env m mt.purgedOffsets d₀ index base).index, known e.2.path :=
    scanFile_entries (fun _ _ _ => .inl rfl) m base _ hindex
  have hread : ∀ manifest logMeta wal path, known path →
      (⟨manifest, logMeta, wal, d.segments⟩ : Disk).read path
        = (⟨manifest, logMeta, wal, d₀.segments⟩ : Disk).read path := by
    rintro manifest logMeta wal path (rfl | ⟨name, hname, rfl⟩)
    · rfl
    · exact h.read hnames hname
  generalize scanWal env m mt.purgedOffsets d₀ index base = scan at hattempt hattempt' hactive
  cases hresult : scan.result with
  | error e =>
    simp only [hresult] at hattempt
    rw [hattempt] at hopen
    cases hopen
  | ok next =>
    simp only [hresult] at hattempt hattempt'
    refine ⟨_, _, congrArg Prod.fst hattempt, congrArg Prod.fst hattempt', rfl,
      fun partition start max => ?_⟩
    rw [hattempt, hattempt']
    exact readRange_congr (fun g hg => hread _ _ _ _ (hsealed g hg))
      (fun e he => hread _ _ _ _ (hactive e he)) partition start max

/-- **One marker that is not harmless blocks the open.** -/
theorem Archived.harmless_of_attempt_ok (hmanifest : d₀.manifest = .valid m)
    (hopen : (attempt env shard a d).1 = .ok log) (hf : f ∈ d.segments)
    (hname : f.1 ∉ d₀.names) :
    Harmless m f.2.bytes := by
  obtain ⟨mt, base, gs, index, hloads, -, hloop⟩ :=
    loads_of_attempt_ok (h.manifest.trans hmanifest) hopen
  by_contra hharmful
  have hfail : ∀ next gs index, ∃ r,
      rebuildSegments env m mt.purgedOffsets [f] next gs index = .error r := by
    intro next gs index
    obtain ⟨e, he⟩ : ∃ e, (scanFile env.codec mt.purgedOffsets (.segment f.1) false m index next
        f.2.bytes).result = .error e :=
      (scanFile_text hloads.supported (h.text hf hname) index next).elim
        (fun hskipped => absurd hskipped.1 hharmful) And.right
    obtain ⟨name, file⟩ := f
    simp only [rebuildSegments, he]
    exact ⟨_, rfl⟩
  obtain ⟨r, hr⟩ := rebuildSegments_fails (mem_sortedSegments.mpr hf) hfail 0 [] []
  cases hr.symm.trans hloop

end

end Reopen

/-- **A reopened log is the one without archiving exactly if the scan skips every marker**: for
every directory that reopens without an archiver, every interleaving of the two threads over its
segments, wherever it is stopped, and every crash on top of that. -/
theorem archiving_is_invisible_iff {d₀ : Disk} {m : WalManifest}
    (hmanifest : d₀.manifest = .valid m) (hnames : Unmarked d₀)
    (hpaths : ∀ name ∈ d₀.names, 0 ∉ env.displayPath name)
    {steps : List ArchiveStep} {archiver : Archiver}
    (hrun : Run (Archiver.step env) (OverSegments d₀) (.start d₀) steps archiver)
    (keep : LogPath → Nat) (a : Attempt) {log₀ : PartitionLog}
    (hopen : (attempt env shard a (d₀.crash keep)).1 = .ok log₀) :
    SameRecovery env shard a (d₀.crash keep) (archiver.disk.crash keep) ↔
      ∀ f ∈ (archiver.disk.crash keep).segments, f.1 ∉ d₀.names →
        Harmless m f.2.bytes := by
  have harchived := (Archiving.run hnames hpaths hrun).disk.crash keep
  rw [← crash_names d₀ keep]
  constructor
  · rintro ⟨-, log, -, hreopen, -⟩ f hf hname
    exact harchived.harmless_of_attempt_ok hmanifest hreopen hf hname
  · intro hharmless
    exact harchived.sameRecovery (hnames.crash keep) hmanifest hopen hharmless

/-! ## Directories a log leaves -/

theorem dot_not_mem_padded (w n : Nat) : '.' ∉ padded w n :=
  fun h => absurd (isDigit_of_mem_padded h) (by decide)

theorem segmentName_append_dot_ne (i j : Nat) (ext : FileName) :
    segmentName i ++ '.' :: ext ≠ segmentName j := by
  intro h
  have hcount : ∀ n, (segmentName n).count '.' = 1 := by
    intro n
    unfold segmentName
    rw [count_append, count_append, count_eq_zero_of_not_mem (dot_not_mem_padded 6 n)]
    rfl
  have hdots := congrArg (List.count '.') h
  rw [count_append, hcount, hcount, count_cons_self] at hdots
  omega

theorem OnDisk.unmarked {fmt : WalFormat} {c : Codec} {m : WalManifest} {L : Layout c}
    {tail : Bytes} {d : Disk} (h : OnDisk fmt m strict L tail d) : Unmarked d := by
  have hnames : d.names = _ := h.segment_names
  refine ⟨hnames ▸ segmentNames_nodup _, fun name hname ext hmem => ?_⟩
  rw [hnames] at hname hmem
  obtain ⟨i, -, rfl⟩ := mem_map.mp hname
  obtain ⟨j, -, hj⟩ := mem_map.mp hmem
  exact segmentName_append_dot_ne i j ext hj.symm

/-- **Every directory a log leaves is one the theorem is about**: its names are free for markers,
and without an archiver it reopens after every crash that keeps the sealed files whole. -/
theorem World.archivable (henv : env.InPlace) {events : List Event} {w : World}
    (hrun : Run (World.step env shard) (EventOk env shard strict) .fresh events w)
    (htouched : w.disk ≠ .fresh) :
    Unmarked w.disk ∧ (∃ m, w.disk.manifest = .valid m) ∧
      ∀ keep, (strict = false → w.disk.KeepsSealed keep) → w.disk.Few →
        ∀ a, ∃ log₀, (attempt env shard a (w.disk.crash keep)).1 = .ok log₀ := by
  obtain ⟨L, hholds, -⟩ := World.run_holds henv (World.fresh_holds env.codec shard strict) hrun
  obtain ⟨hidle, -⟩ := hholds.idle
  rcases hidle with ⟨-, hfresh, -⟩ | ⟨fmt, -, hstored⟩
  · exact absurd hfresh htouched
  · have hidle : Idle (some fmt) shard strict L w.disk :=
      .inr ⟨fmt, fun f hf => (Option.mem_some_iff.mp hf).symm, hstored⟩
    obtain ⟨m, tail, hdisk, -⟩ := hstored
    refine ⟨hdisk.unmarked, ⟨m, hdisk.manifest⟩, fun keep hkeep hfew a => ?_⟩
    obtain ⟨L', hcrash, -⟩ := hidle.crash hkeep
    obtain ⟨m', tail', hdisk', rfl, -⟩ := hcrash.stored
    obtain ⟨mt, hmeta⟩ := Option.isSome_iff_exists.mp hdisk'.logMeta
    obtain ⟨log, hopen, -⟩ := openForShard_onDisk env a.config a.requestedFormat a.now [] hdisk'
      (by rw [← hdisk'.segments_length, Disk.crash, length_map]; exact hfew) hmeta
    exact ⟨log, by rw [attempt, hopen]⟩

instance (d : Disk) (archiver : Archiver) :
    (s : ArchiveStep) → Decidable (OverSegments d archiver s)
  | .enqueue name _ | .recover name _ =>
    inferInstanceAs (Decidable (name ∈ d.names))
  | .send | .receive _ | .work => .isTrue trivial

/-- The archiver is stopped when it has created its first file: the log reopens as it was. -/
theorem archiving_stopped_at_once :
    ∃ w archiver log₀, LocalRun true .fresh (appends (rolling .always) 1) w ∧
      Run (Archiver.step localEnv) (OverSegments w.disk) (.start w.disk)
        [.enqueue (segmentName 0) none, .send] archiver ∧
      archiver.disk.names
        = [segmentName 0, tmpName (pendingMarker (segmentName 0))] ∧
      (attempt localEnv 0 ⟨rolling .always, 2, 1⟩ (w.disk.crash fun _ => 0)).1 = .ok log₀ ∧
      SameRecovery localEnv 0 ⟨rolling .always, 2, 1⟩ (w.disk.crash fun _ => 0)
        (archiver.disk.crash fun _ => 0) := by
  obtain ⟨w, archiver, hrun, ⟨htouched, hfew, hmanifest, hpaths⟩, harchiving, hnames, hharmless⟩ :
      ∃ w archiver, LocalRun true .fresh (appends (rolling .always) 1) w ∧
      (w.disk ≠ .fresh ∧ w.disk.Few ∧ w.disk.manifest = .valid ⟨1, 2, 1, 0⟩ ∧
        ∀ name ∈ w.disk.names, 0 ∉ localEnv.displayPath name) ∧
      Run (Archiver.step localEnv) (OverSegments w.disk) (.start w.disk)
        [.enqueue (segmentName 0) none, .send] archiver ∧
      archiver.disk.names
        = [segmentName 0, tmpName (pendingMarker (segmentName 0))] ∧
      ∀ f ∈ (archiver.disk.crash fun _ => 0).segments, f.1 ∉ w.disk.names →
        Harmless ⟨1, 2, 1, 0⟩ f.2.bytes := by
    decide +kernel
  obtain ⟨hunmarked, -, hreopens⟩ := World.archivable localEnv_inPlace hrun htouched
  obtain ⟨log₀, hopen⟩ := hreopens (fun _ => 0) nofun hfew ⟨rolling .always, 2, 1⟩
  exact ⟨w, archiver, log₀, hrun, harchiving, hnames, hopen,
    (archiving_is_invisible_iff hmanifest hunmarked hpaths harchiving _ _ hopen).mpr hharmless⟩

/-- The pending marker is in place, and the log does not open any more. -/
theorem pending_marker_blocks_open :
    ∃ w archiver log₀ e, LocalRun true .fresh (appends (rolling .always) 1) w ∧
      Run (Archiver.step localEnv) (OverSegments w.disk) (.start w.disk)
        [.enqueue (segmentName 0) none, .send, .send, .send, .send] archiver ∧
      archiver.disk.names = [segmentName 0, pendingMarker (segmentName 0)] ∧
      (attempt localEnv 0 ⟨rolling .always, 2, 1⟩ (w.disk.crash fun _ => 0)).1 = .ok log₀ ∧
      log₀.highWatermark = 1 ∧
      (attempt localEnv 0 ⟨rolling .always, 2, 1⟩ (archiver.disk.crash fun _ => 0)).1
        = .error e := by
  decide +kernel

end BetterMQ
