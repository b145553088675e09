import BetterMQ.Storage.Log

/-!
# Byte layout of WAL and segment files

What a well-formed file of the log looks like, independently of how it came about. The unit is
the *batch*: one frame in a V1 file, one epoch in a V2 file. A frame carries the proof that its
bytes decode to its record, so every layout built from frames decodes.

* `fileBytes fmt shard first batches` — the bytes of a file that starts at offset `first`;
* `placed fmt first pos batches` — every record with its offset and its position in the file;
* **`exists_take_fileBytes`** — cutting a file anywhere leaves some whole batches and a torn
  rest, and never fewer batches than were complete at the cut.
-/

namespace BetterMQ

open List

/-! ## Formats, frames, batches -/

inductive WalFormat where
  | v1
  | v2
  deriving DecidableEq

def WalFormat.version : WalFormat → UInt16
  | .v1 => walFormatV1
  | .v2 => walFormatV2

/-- A record together with bytes that decode to exactly it. -/
structure Frame (c : Codec) where
  bytes : Bytes
  item : Item
  exact : Reader.Exact (decodeFrame c) bytes item

variable {c : Codec}

theorem Frame.bytes_ne_nil (f : Frame c) : f.bytes ≠ [] := by
  intro hnil
  have hok := f.exact.ok []
  rw [hnil] at hok
  cases hok

/-- The frame `encode_frame` makes of an item it accepts. -/
def encodedFrame (hc : c.Lawful) (item : Item) (hok : FrameOk c item)
    (hlen : item.2.length < 2 ^ 32) : Frame c :=
  ⟨frameBytes c item, item, decodeFrame_exact hc hok hlen⟩

/-- One unit of a file: the records written and recovered together. -/
structure Batch (c : Codec) where
  leaderEpoch : Nat
  flags : Nat
  frames : List (Frame c)

namespace Batch

def body (b : Batch c) : Bytes := b.frames.flatMap Frame.bytes

/-- The epoch header in front of a V2 batch. -/
def epochHeader (shard : UInt32) (first : Nat) (b : Batch c) : EpochHeader :=
  (EpochHeader.v2 c shard.toNat b.leaderEpoch first b.frames.length b.body).withFlags b.flags

def bytes (fmt : WalFormat) (shard : UInt32) (first : Nat) (b : Batch c) : Bytes :=
  match fmt with
  | .v1 => b.body
  | .v2 => (b.epochHeader shard first).bytes ++ b.body

/-- The batch can stand at offset `first` of a file: a V1 batch is a single frame, a V2 batch is
an epoch within its limits. -/
def Ok (fmt : WalFormat) (first : Nat) (b : Batch c) : Prop :=
  match fmt with
  | .v1 => b.frames.length = 1
  | .v2 => b.body.length ≤ maxEpochBodyBytes ∧ first + b.frames.length < 2 ^ 64

end Batch

/-- Bytes before the first frame of a batch. -/
def batchHead : WalFormat → Nat
  | .v1 => 0
  | .v2 => epochHeaderBytes

theorem length_batch_bytes (fmt : WalFormat) (shard : UInt32) (first : Nat) (b : Batch c) :
    (b.bytes fmt shard first).length = batchHead fmt + b.body.length := by
  cases fmt with
  | v1 => simp [Batch.bytes, batchHead]
  | v2 => simp [Batch.bytes, batchHead, length_header_bytes]

theorem length_le_body (fs : List (Frame c)) : fs.length ≤ (fs.flatMap Frame.bytes).length := by
  induction fs with
  | nil => simp
  | cons f fs ih =>
    have hpos : 0 < f.bytes.length := length_pos_iff.mpr f.bytes_ne_nil
    simp only [length_cons, flatMap_cons, length_append]
    omega

variable {fmt : WalFormat} {first : Nat} {bs : List (Batch c)} {b : Batch c}

theorem Batch.Ok.bytes_ne_nil (h : b.Ok fmt first) (shard : UInt32) :
    b.bytes fmt shard first ≠ [] := by
  intro hnil
  have hlen := length_batch_bytes fmt shard first b
  rw [hnil, length_nil] at hlen
  cases fmt with
  | v1 =>
    have hone : b.frames.length = 1 := h
    have hbody := length_le_body b.frames
    rw [Batch.body] at hlen
    omega
  | v2 =>
    rw [batchHead, epochHeaderBytes] at hlen
    omega

theorem exists_frame_of_ok_v1 (h : b.Ok .v1 first) : ∃ f, b.frames = [f] ∧ b.body = f.bytes := by
  obtain ⟨f, hf⟩ := length_eq_one_iff.mp (show b.frames.length = 1 from h)
  exact ⟨f, hf, by simp [Batch.body, hf]⟩

/-- The header of a batch, as decoding gives it back. -/
def Batch.header (shard : UInt32) (first : Nat) (b : Batch c) : EpochHeader :=
  (EpochHeader.v2 c shard.toNat (b.leaderEpoch % 2 ^ 64) first b.frames.length b.body).withFlags
    (b.flags % 2 ^ 16)

variable {shard : UInt32}

theorem decodeEpoch_batch (h : b.Ok .v2 first) :
    Reader.Exact (decodeEpoch c) (b.bytes .v2 shard first) (b.header shard first, b.body) := by
  obtain ⟨hbody, hbound⟩ := h
  have hcount : b.frames.length < 2 ^ 32 := by
    have hle := length_le_body b.frames
    have hmax : maxEpochBodyBytes < 2 ^ 32 := by decide
    have hbody' : (b.frames.flatMap Frame.bytes).length ≤ maxEpochBodyBytes := hbody
    omega
  exact decodeEpoch_exact c hbody (UInt32.toNat_lt shard) hcount hbound

/-! ## Files -/

/-- The frames of a list of batches, in order. -/
def records (bs : List (Batch c)) : List (Frame c) := bs.flatMap Batch.frames

@[simp] theorem records_nil : records ([] : List (Batch c)) = [] := rfl

@[simp] theorem records_cons (b : Batch c) (bs : List (Batch c)) :
    records (b :: bs) = b.frames ++ records bs := by simp [records]

@[simp] theorem records_append (as bs : List (Batch c)) :
    records (as ++ bs) = records as ++ records bs := by simp [records]

/-- The bytes of a file that holds the batches from offset `first` on. -/
def fileBytes (fmt : WalFormat) (shard : UInt32) : Nat → List (Batch c) → Bytes
  | _, [] => []
  | first, b :: bs => b.bytes fmt shard first ++ fileBytes fmt shard (first + b.frames.length) bs

/-- Every batch can stand where it stands. -/
def FileOk (fmt : WalFormat) : Nat → List (Batch c) → Prop
  | _, [] => True
  | first, b :: bs => b.Ok fmt first ∧ FileOk fmt (first + b.frames.length) bs

theorem fileBytes_append (fmt : WalFormat) (shard : UInt32) (first : Nat) (as bs : List (Batch c)) :
    fileBytes fmt shard first (as ++ bs)
      = fileBytes fmt shard first as ++ fileBytes fmt shard (first + (records as).length) bs := by
  induction as generalizing first with
  | nil => simp [fileBytes]
  | cons a as ih =>
    rw [cons_append, fileBytes, ih, fileBytes, records_cons, length_append,
      append_assoc, Nat.add_assoc]

variable {as : List (Batch c)} {tail : Bytes}

theorem fileOk_append :
    FileOk fmt first (as ++ bs)
      ↔ FileOk fmt first as ∧ FileOk fmt (first + (records as).length) bs := by
  induction as generalizing first with
  | nil => simp [FileOk]
  | cons a as ih =>
    rw [cons_append, FileOk, ih, FileOk, records_cons, length_append, Nat.add_assoc, and_assoc]

theorem FileOk.left (h : FileOk fmt first (as ++ bs)) :
    FileOk fmt first as := (fileOk_append.mp h).1

theorem fileBytes_eq_nil_iff (h : FileOk fmt first bs) :
    fileBytes fmt shard first bs = [] ↔ bs = [] := by
  cases bs with
  | nil => simp [fileBytes]
  | cons b bs =>
    have hb := h.1.bytes_ne_nil shard
    simp [fileBytes, hb]

/-! ## Torn tails -/

/-- A rest behind the whole batches that recovery cuts off: the file ends in the middle of a
batch, or, in a V2 file, before an epoch header could be complete. -/
def Torn (c : Codec) (fmt : WalFormat) (tail : Bytes) : Prop :=
  match fmt with
  | .v1 => (decodeFrame c tail).1 = .error (.io .unexpectedEof)
  | .v2 => tail.length < epochHeaderBytes ∨ (decodeEpoch c tail).1 = .error (.io .unexpectedEof)

theorem Torn.nil (fmt : WalFormat) : Torn c fmt [] := by
  cases fmt with
  | v1 => rfl
  | v2 => exact .inl (by decide)

theorem Batch.Ok.torn (h : b.Ok fmt first) (hpre : tail <+: b.bytes fmt shard first)
    (hproper : tail ≠ b.bytes fmt shard first) : Torn c fmt tail := by
  cases fmt with
  | v1 =>
    obtain ⟨f, -, hbody⟩ := exists_frame_of_ok_v1 h
    have hbytes : b.bytes .v1 shard first = f.bytes := hbody
    rw [hbytes] at hpre hproper
    exact congrArg Prod.fst (f.exact.torn tail hpre hproper)
  | v2 => exact .inr (congrArg Prod.fst ((decodeEpoch_batch h).torn tail hpre hproper))

/-- **Every cut leaves whole batches and a torn rest.** A file that held `as ++ bs` and is cut no
earlier than the end of `as` still holds `as` and some of `bs`. -/
theorem exists_take_fileBytes (shard : UInt32) (n : Nat) (hok : FileOk fmt first bs) :
    ∃ pre tail, pre <+: bs ∧ Torn c fmt tail ∧
      (fileBytes fmt shard first bs).take n = fileBytes fmt shard first pre ++ tail := by
  induction bs generalizing first n with
  | nil => exact ⟨[], [], prefix_rfl, .nil fmt, by simp [fileBytes]⟩
  | cons b bs ih =>
    by_cases hn : n < (b.bytes fmt shard first).length
    · -- the cut falls inside the first batch
      refine ⟨[], (b.bytes fmt shard first).take n, nil_prefix,
        hok.1.torn ( take_prefix n _) ?_, ?_⟩
      · intro heq
        have hlen := congrArg List.length heq
        rw [length_take] at hlen
        omega
      · rw [fileBytes, fileBytes, nil_append, take_append_of_le_length (by omega)]
    · -- the first batch survives, the cut is in what follows
      obtain ⟨pre, tail, hpre, htorn, htake⟩ := ih (n - (b.bytes fmt shard first).length) hok.2
      refine ⟨b :: pre, tail, cons_prefix_cons.mpr ⟨rfl, hpre⟩, htorn, ?_⟩
      rw [fileBytes, take_append, take_of_length_le (by omega), htake, fileBytes, append_assoc]

theorem exists_take_fileBytes_append {n : Nat} (hok : FileOk fmt first (as ++ bs))
    (hn : (fileBytes fmt shard first as).length ≤ n) :
    ∃ pre tail, pre <+: bs ∧ Torn c fmt tail ∧
      (fileBytes fmt shard first (as ++ bs)).take n
        = fileBytes fmt shard first (as ++ pre) ++ tail := by
  have hbs := (fileOk_append.mp hok).2
  obtain ⟨pre, tail, hpre, htorn, htake⟩ := exists_take_fileBytes shard
    (n - (fileBytes fmt shard first as).length) hbs
  refine ⟨pre, tail, hpre, htorn, ?_⟩
  rw [fileBytes_append, take_append, take_of_length_le hn, htake, fileBytes_append, append_assoc]

theorem Torn.take (h : Torn c fmt tail) (n : Nat) : Torn c fmt (tail.take n) := by
  cases fmt with
  | v1 => exact (decodeFrame_definite c).eof_take h n
  | v2 =>
    rcases h with hshort | heof
    · left
      rw [length_take]
      omega
    · exact .inr ((decodeEpoch_definite c).eof_take heof n)

/-! ## Where each record lies -/

/-- A record of a file, with its offset and its position. -/
structure Placed (c : Codec) where
  offset : Nat
  byteOffset : Nat
  frame : Frame c

/-- Frames that follow each other from offset `first` and position `pos` on. -/
def placedFrames : Nat → Nat → List (Frame c) → List (Placed c)
  | _, _, [] => []
  | first, pos, f :: fs => ⟨first, pos, f⟩ :: placedFrames (first + 1) (pos + f.bytes.length) fs

def placed (fmt : WalFormat) : Nat → Nat → List (Batch c) → List (Placed c)
  | _, _, [] => []
  | first, pos, b :: bs =>
    placedFrames first (pos + batchHead fmt) b.frames ++
      placed fmt (first + b.frames.length) (pos + batchHead fmt + b.body.length) bs

/-- The index entry of a placed record. -/
def Placed.entry (path : LogPath) (x : Placed c) : Nat × LogPosition :=
  (x.offset, ⟨path, x.byteOffset⟩)

def Placed.message (partition : UInt32) (x : Placed c) : StoredMessage :=
  storedMessage x.frame.item.1 x.frame.item.2 partition x.offset

theorem placed_append (fmt : WalFormat) (shard : UInt32) (first pos : Nat)
    (as bs : List (Batch c)) :
    placed fmt first pos (as ++ bs) = placed fmt first pos as ++
      placed fmt (first + (records as).length)
        (pos + (fileBytes fmt shard first as).length) bs := by
  induction as generalizing first pos with
  | nil => simp [placed, fileBytes]
  | cons a as ih =>
    rw [cons_append, placed, ih, placed, append_assoc]
    simp only [records_cons, length_append, fileBytes, length_batch_bytes, Nat.add_assoc]

variable {x : Placed c} {pos : Nat} {fs : List (Frame c)}

theorem placedFrames_bounds (h : x ∈ placedFrames first pos fs) :
    first ≤ x.offset ∧ x.offset < first + fs.length := by
  induction fs generalizing first pos with
  | nil => simp [placedFrames] at h
  | cons f fs ih =>
    rcases mem_cons.mp h with rfl | htail
    · simp
    · have := ih htail
      simp only [length_cons]
      omega

theorem placed_bounds (h : x ∈ placed fmt first pos bs) :
    first ≤ x.offset ∧ x.offset < first + (records bs).length := by
  induction bs generalizing first pos with
  | nil => simp [placed] at h
  | cons b bs ih =>
    rw [records_cons, length_append]
    rcases mem_append.mp h with hhere | hlater
    · have := placedFrames_bounds hhere
      omega
    · have := ih hlater
      omega

theorem placedFrames_drop (h : x ∈ placedFrames first pos fs) (front rest : Bytes)
    (hfront : front.length = pos) :
    ∃ after, (front ++ fs.flatMap Frame.bytes ++ rest).drop x.byteOffset
      = x.frame.bytes ++ after := by
  induction fs generalizing first pos front with
  | nil => simp [placedFrames] at h
  | cons f fs ih =>
    rcases mem_cons.mp h with rfl | htail
    · refine ⟨fs.flatMap Frame.bytes ++ rest, ?_⟩
      simp [← hfront]
    · obtain ⟨after, hdrop⟩ := ih htail (front ++ f.bytes) (by simp [hfront])
      refine ⟨after, ?_⟩
      rw [← hdrop]
      simp

theorem placed_drop (shard : UInt32) (h : x ∈ placed fmt first pos bs) (front : Bytes)
    (hfront : front.length = pos) :
    ∃ after, (front ++ fileBytes fmt shard first bs).drop x.byteOffset
      = x.frame.bytes ++ after := by
  induction bs generalizing first pos front with
  | nil => simp [placed] at h
  | cons b bs ih =>
    rcases mem_append.mp h with hhere | hlater
    · -- in this batch: its head belongs to what stands in front of the frames
      cases fmt with
      | v1 =>
        obtain ⟨after, hdrop⟩ := placedFrames_drop hhere front
          (fileBytes .v1 shard (first + b.frames.length) bs) (by simpa [batchHead] using hfront)
        exact ⟨after, by rw [← hdrop]; simp [fileBytes, Batch.bytes, Batch.body]⟩
      | v2 =>
        obtain ⟨after, hdrop⟩ := placedFrames_drop hhere
          (front ++ (b.epochHeader shard first).bytes)
          (fileBytes .v2 shard (first + b.frames.length) bs)
          (by simp [batchHead, length_header_bytes, hfront])
        exact ⟨after, by rw [← hdrop]; simp [fileBytes, Batch.bytes, Batch.body]⟩
    · obtain ⟨after, hdrop⟩ := ih hlater (front ++ b.bytes fmt shard first)
        (by rw [length_append, length_batch_bytes, hfront, Nat.add_assoc])
      exact ⟨after, by rw [← hdrop]; simp [fileBytes]⟩

/-! ## Messages -/

/-- The messages of a run of records that starts at offset `first`. -/
def messagesFrom (partition : UInt32) : Nat → List Item → List StoredMessage
  | _, [] => []
  | first, item :: items =>
    storedMessage item.1 item.2 partition first :: messagesFrom partition (first + 1) items

theorem length_messagesFrom (partition : UInt32) (first : Nat) (items : List Item) :
    (messagesFrom partition first items).length = items.length := by
  induction items generalizing first with
  | nil => rfl
  | cons item items ih => rw [messagesFrom, length_cons, ih, length_cons]

theorem messagesFrom_append (partition : UInt32) (first : Nat) (as bs : List Item) :
    messagesFrom partition first (as ++ bs)
      = messagesFrom partition first as ++ messagesFrom partition (first + as.length) bs := by
  induction as generalizing first with
  | nil => simp [messagesFrom]
  | cons a as ih =>
    rw [cons_append, messagesFrom, ih, messagesFrom, length_cons, cons_append,
      show first + 1 + as.length = first + (as.length + 1) by omega]

variable {items : List Item} {partition : UInt32}

theorem messagesFrom_bounds {m : StoredMessage} (h : m ∈ messagesFrom partition first items) :
    first ≤ m.offset ∧ m.offset < first + items.length := by
  induction items generalizing first with
  | nil => simp [messagesFrom] at h
  | cons item items ih =>
    rcases mem_cons.mp h with rfl | htail
    · simp [storedMessage]
    · have := ih htail
      rw [length_cons]
      omega

theorem messagesFrom_split {offset : Nat} {item : Item} (partition : UInt32)
    (hget : items[offset]? = some item) :
    messagesFrom partition 0 items
      = messagesFrom partition 0 (items.take offset) ++
        storedMessage item.1 item.2 partition offset ::
          messagesFrom partition (offset + 1) (items.drop (offset + 1)) := by
  obtain ⟨hlt, rfl⟩ := List.getElem?_eq_some_iff.mp hget
  have hsplit : items = items.take offset ++ (items[offset] :: items.drop (offset + 1)) := by
    rw [← drop_eq_getElem_cons hlt, take_append_drop]
  have hlen : 0 + (items.take offset).length = offset := by
    rw [length_take]
    omega
  conv_lhs => rw [hsplit]
  rw [messagesFrom_append, hlen, messagesFrom]

theorem placedFrames_message (partition : UInt32) (first pos : Nat) (fs : List (Frame c)) :
    (placedFrames first pos fs).map (Placed.message partition)
      = messagesFrom partition first (fs.map Frame.item) := by
  induction fs generalizing first pos with
  | nil => rfl
  | cons f fs ih =>
    rw [placedFrames, map_cons, ih]
    rfl

theorem placed_message (fmt : WalFormat) (partition : UInt32) (first pos : Nat)
    (bs : List (Batch c)) :
    (placed fmt first pos bs).map (Placed.message partition)
      = messagesFrom partition first ((records bs).map Frame.item) := by
  induction bs generalizing first pos with
  | nil => rfl
  | cons b bs ih =>
    rw [placed, map_append, placedFrames_message, ih, records_cons, map_append,
      messagesFrom_append, length_map]

/-- What a read from `start` shows of a list of messages. -/
def visible (start : Nat) (purged : List Nat) (ms : List StoredMessage) : List StoredMessage :=
  ms.filter fun m => start ≤ m.offset ∧ m.offset ∉ purged

theorem visible_append (start : Nat) (purged : List Nat) (as bs : List StoredMessage) :
    visible start purged (as ++ bs) = visible start purged as ++ visible start purged bs := by
  simp [visible]

/-- Messages that end before the start are not seen. -/
theorem visible_messagesFrom_eq_nil {start : Nat} {purged : List Nat}
    (h : first + items.length ≤ start) :
    visible start purged (messagesFrom partition first items) = [] := by
  unfold visible
  rw [filter_eq_nil_iff]
  intro m hm
  have := messagesFrom_bounds hm
  simp only [decide_eq_true_eq, not_and]
  omega

end BetterMQ
