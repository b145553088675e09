import BetterMQ.Lib.Ordered
import BetterMQ.Proto.Record

/-!
# The partition directory (`broker-storage/src/{manifest,meta,archive}.rs`)

What one partition directory holds: the WAL manifest, `meta.json`, `active.wal` and the files
under `segments/`. A file knows how many of its bytes a completed fsync covers; a crash may
cut it anywhere from there on. The two JSON files are replaced atomically.

Every change of the directory goes through `Store.put`, which also records the new disk in
`trace`: the points at which a process can die are the disks of the trace.
-/

namespace BetterMQ

/-! ## Files -/

/-- The name of a file under `segments/`. -/
abbrev FileName := List Char

/-- Names compare character by character, whatever other orders on lists are in scope. -/
instance : LE FileName := List.instLE

/-- `segment-{roll:06}.log`. -/
def segmentName (roll : Nat) : FileName :=
  ['s', 'e', 'g', 'm', 'e', 'n', 't', '-'] ++ padded 6 roll ++ ['.', 'l', 'o', 'g']

/-- `{name}.archive.pending`. -/
def pendingMarker (name : FileName) : FileName :=
  name ++ ['.', 'a', 'r', 'c', 'h', 'i', 'v', 'e', '.', 'p', 'e', 'n', 'd', 'i', 'n', 'g']

/-- `Path::with_extension`: what follows the last dot, unless that dot leads the name. -/
def withExtension (name extension : List Char) : FileName :=
  match name.reverse.dropWhile (· ≠ '.') with
  | [] => name ++ '.' :: extension
  | _ :: stem => if stem = [] then name ++ '.' :: extension else stem.reverse ++ '.' :: extension

inductive LogPath where
  | wal
  | segment (name : FileName)
  deriving DecidableEq

/-- A file: its bytes, and the length a completed fsync covers. -/
structure FileData where
  bytes : Bytes
  synced : Nat
  deriving DecidableEq

namespace FileData

def empty : FileData := ⟨[], 0⟩

def append (f : FileData) (bytes : Bytes) : FileData := { f with bytes := f.bytes ++ bytes }

def sync (f : FileData) : FileData := { f with synced := f.bytes.length }

/-- `set_len` followed by `sync_data`. -/
def truncate (f : FileData) (len : Nat) : FileData := ⟨f.bytes.take len, len⟩

/-- What a crash leaves when it keeps `keep` bytes: never less than what was synced. -/
def cut (f : FileData) (keep : Nat) : FileData :=
  { f with bytes := f.bytes.take (max f.synced keep) }

end FileData

/-- A JSON document replaced atomically. `invalid` carries the parser's message. -/
inductive JsonFile (α : Type) where
  | missing
  | invalid (message : String)
  | valid (a : α)
  deriving DecidableEq

/-! ## Manifest and meta -/

def walFormatV1 : UInt16 := 1

def walFormatV2 : UInt16 := 2

def protocolVersion : UInt32 := 1

structure WalManifest where
  manifestVersion : UInt16
  walFormatVersion : UInt16
  recordFormatVersion : UInt32
  shardId : UInt32
  deriving DecidableEq

structure LogMeta where
  nextOffset : Nat
  segmentRollCount : Nat
  /-- Offsets tombstoned by purge. -/
  purgedOffsets : List Nat
  /-- Last accepted leadership fence for this partition. -/
  leaderGeneration : Nat
  /-- Highest offset whose sealed segments may be physically deleted. -/
  gcWatermark : Nat
  deriving DecidableEq

/-- `LogMeta::default()`. -/
def LogMeta.empty : LogMeta := ⟨0, 0, [], 0, 0⟩

abbrev NamedFile := FileName × FileData

structure Disk where
  manifest : JsonFile WalManifest
  logMeta : JsonFile LogMeta
  wal : Option FileData
  segments : List NamedFile
  deriving DecidableEq

namespace Disk

/-- At most a million sealed segments, as many as the six digits of their names can number. -/
abbrev Few (d : Disk) : Prop := d.segments.length ≤ 1000000

/-- A directory nothing has been written to. -/
def fresh : Disk := ⟨.missing, .missing, none, []⟩

section

variable (d : Disk)

/-- The content of a file, if it exists. -/
def read : LogPath → Option Bytes
  | .wal => d.wal.map FileData.bytes
  | .segment name => (d.segments.find? fun f => f.1 = name).map fun f => f.2.bytes

def syncWal : Disk := { d with wal := d.wal.map FileData.sync }

def writeWal (bytes : Bytes) : Disk :=
  { d with wal := d.wal.map fun f => f.append bytes }

/-- `OpenOptions::create`: an existing file stays as it is. -/
def createWal : Disk := { d with wal := some (d.wal.getD .empty) }

def truncateWal (len : Nat) : Disk := { d with wal := d.wal.map fun f => f.truncate len }

def saveMeta (m : LogMeta) : Disk := { d with logMeta := .valid m }

/-- `rename`: a file of that name is replaced. -/
def putSegment (name : FileName) (file : FileData) : Disk :=
  { d with segments := d.segments.filter (fun f => f.1 ≠ name) ++ [(name, file)] }

/-- `rename(active.wal, segments/name)` of the WAL's file. -/
def sealWal (name : FileName) (file : FileData) : Disk :=
  ⟨d.manifest, d.logMeta, none, (d.putSegment name file).segments⟩

def removeSegment (name : FileName) : Disk :=
  { d with segments := d.segments.filter fun f => f.1 ≠ name }

/-- `read_dir` sorted by path. -/
def sortedSegments : List NamedFile :=
  d.segments.insertionSort fun f g => f.1 ≤ g.1

/-- `quarantine_corrupt_file` at the time `now`. A WAL leaves the directory's known files. -/
def quarantine (now : Nat) : LogPath → Disk
  | .wal => { d with wal := none }
  | .segment name =>
    match d.segments.find? fun f => f.1 = name with
    | none => d
    | some f =>
      (d.removeSegment name).putSegment
        (withExtension name (['c', 'o', 'r', 'r', 'u', 'p', 't', '.'] ++ Nat.toDigits 10 now)) f.2

/-- The disk after a crash that keeps `keep path` bytes of each file. -/
def crash (keep : LogPath → Nat) : Disk :=
  { d with
    wal := d.wal.map fun f => f.cut (keep .wal)
    segments := d.segments.map fun f => (f.1, f.2.cut (keep (.segment f.1))) }

end

end Disk

/-! ## The store: a disk and the points reached on the way -/

structure Store where
  disk : Disk
  /-- Every disk a file operation has produced, in order. -/
  trace : List Disk
  deriving DecidableEq

def Store.put (st : Store) (d : Disk) : Store := ⟨d, st.trace ++ [d]⟩

/-! ## Loading the JSON files -/

def unsupportedFormat (version : UInt16) : Bool := version ≠ walFormatV1 ∧ version ≠ walFormatV2

/-- `file_has_data`. -/
def FileData.hasData (f : FileData) : Bool := f.bytes ≠ []

def WalManifest.loadOrCreate (requestedFormat : UInt16) (shardId : UInt32) :
    Prog Store IoError WalManifest := fun st =>
  match st.disk.manifest with
  | .invalid message => (.error (.invalidData message), st)
  | .valid manifest =>
    let version := manifest.walFormatVersion
    let shard := manifest.shardId
    if unsupportedFormat version then
      (.error (.invalidData s!"unsupported WAL format {version}"), st)
    else if shard ≠ shardId then
      (.error (.invalidData
        s!"WAL manifest shard {shard} does not match requested shard {shardId}"), st)
    else
      (.ok manifest, st)
  | .missing =>
    -- a pre-manifest directory is V1: existing bytes are never reinterpreted as V2
    let hasExistingData :=
      st.disk.wal.any FileData.hasData || st.disk.segments.any fun f => f.2.hasData
    let version := if hasExistingData then walFormatV1 else requestedFormat
    if unsupportedFormat version then
      (.error (.invalidInput s!"unsupported requested WAL format {version}"), st)
    else
      let manifest : WalManifest := ⟨1, version, protocolVersion, shardId⟩
      (.ok manifest, st.put { st.disk with manifest := .valid manifest })

/-- `LogMeta::load` and the recovery choice `open_for_shard` makes on unreadable JSON. -/
def LogMeta.loadOrDefault (allowEmptyMetadataRecovery : Bool) (d : Disk) :
    Except IoError LogMeta :=
  match d.logMeta with
  | .missing => .ok .empty
  | .valid m => .ok m
  | .invalid message => if allowEmptyMetadataRecovery then .ok .empty else
      .error (.invalidData message)

end BetterMQ
