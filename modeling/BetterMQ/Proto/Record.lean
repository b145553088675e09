import BetterMQ.Lib.Reader

/-!
# Log records and their on-disk frame (`broker-proto/src/record.rs`)

A frame is `magic | header_len | payload_len | header | payload | crc32`. The header is a
`LogRecord` in `bincode` encoding; that encoder, the CRC and the payload limit read from the
environment are the parameters collected in `Codec`.
-/

namespace BetterMQ

/-- A UUID: 16 bytes. -/
abbrev Uuid := BitVec 128

-- named once, so that every module compares ids through the same instances
instance : LawfulBEq Uuid := inferInstance

instance : LawfulBEq (Nat × Uuid) := inferInstance

/-! ## Errors -/

/-- `std::io::Error`, by the kinds the code distinguishes. -/
inductive IoError where
  | unexpectedEof
  | notFound
  | invalidData (message : String)
  | invalidInput (message : String)
  | other (message : String)
  deriving DecidableEq

inductive RecordError where
  | invalidMagic
  | checksumMismatch
  | frameTooLarge (headerLen payloadLen : Nat)
  | io (error : IoError)
  | encode (error : String)
  | decode (error : String)
  deriving DecidableEq

instance : EofError RecordError := ⟨.io .unexpectedEof⟩

/-! ## Records -/

inductive RetryBackoffKind where
  | fixed
  | exponential
  deriving DecidableEq

/-- Backoff between delivery attempts. `multiplier` is the bit pattern of the `f64`. -/
structure RetryBackoff where
  kind : RetryBackoffKind
  initialMs : UInt64
  maxMs : UInt64
  multiplier : UInt64
  deriving DecidableEq

/-- Metadata stored in the log before the payload bytes. -/
structure LogRecord where
  id : Uuid
  tenantId : String
  topic : String
  routingKey : String
  idempotencyKey : Option String
  publishedAtMs : Int64
  priority : UInt8
  flowParallelism : Option UInt32
  flowKey : Option String
  flowRate : Option UInt32
  flowPeriodSecs : Option UInt64
  queueId : Option Uuid
  groupId : Option Uuid
  groupMemberId : Option Uuid
  flowProfileId : Option Uuid
  destinationUrl : Option String
  destinationSecret : Option String
  maxRetries : UInt32
  retryBackoff : Option RetryBackoff
  httpMethod : Option String
  httpHeadersJson : Option String
  httpSign : Option Bool
  payloadRefJson : Option String
  deriving DecidableEq

/-- Pre-priority header layout, kept readable. -/
structure LogRecordLegacy where
  id : Uuid
  tenantId : String
  topic : String
  routingKey : String
  idempotencyKey : Option String
  publishedAtMs : Int64
  deriving DecidableEq

/-- Full message returned to consumers: the header less its idempotency key, with the offset
and partition it was read at. -/
structure StoredMessage where
  id : Uuid
  tenantId : String
  topic : String
  partition : UInt32
  offset : Nat
  routingKey : String
  payload : Bytes
  publishedAtMs : Int64
  priority : UInt8
  flowParallelism : Option UInt32
  flowKey : Option String
  flowRate : Option UInt32
  flowPeriodSecs : Option UInt64
  queueId : Option Uuid
  groupId : Option Uuid
  groupMemberId : Option Uuid
  flowProfileId : Option Uuid
  destinationUrl : Option String
  destinationSecret : Option String
  maxRetries : UInt32
  retryBackoff : Option RetryBackoff
  httpMethod : Option String
  httpHeadersJson : Option String
  httpSign : Option Bool
  payloadRefJson : Option String
  deriving DecidableEq

def defaultPriority : UInt8 := 5

def defaultMaxRetries : UInt32 := 3

/-- A legacy header read as a current one. -/
def LogRecordLegacy.upgrade (leg : LogRecordLegacy) : LogRecord where
  id := leg.id
  tenantId := leg.tenantId
  topic := leg.topic
  routingKey := leg.routingKey
  idempotencyKey := leg.idempotencyKey
  publishedAtMs := leg.publishedAtMs
  priority := defaultPriority
  flowParallelism := none
  flowKey := none
  flowRate := none
  flowPeriodSecs := none
  queueId := none
  groupId := none
  groupMemberId := none
  flowProfileId := none
  destinationUrl := none
  destinationSecret := none
  maxRetries := defaultMaxRetries
  retryBackoff := none
  httpMethod := none
  httpHeadersJson := none
  httpSign := none
  payloadRefJson := none

/-- A record and its payload, as handed to the log. -/
abbrev Item := LogRecord × Bytes

/-- `stored_message`: a decoded record as the message at `offset`. -/
def storedMessage (header : LogRecord) (payload : Bytes) (partition : UInt32) (offset : Nat) :
    StoredMessage where
  id := header.id
  tenantId := header.tenantId
  topic := header.topic
  partition := partition
  offset := offset
  routingKey := header.routingKey
  payload := payload
  publishedAtMs := header.publishedAtMs
  priority := header.priority
  flowParallelism := header.flowParallelism
  flowKey := header.flowKey
  flowRate := header.flowRate
  flowPeriodSecs := header.flowPeriodSecs
  queueId := header.queueId
  groupId := header.groupId
  groupMemberId := header.groupMemberId
  flowProfileId := header.flowProfileId
  destinationUrl := header.destinationUrl
  destinationSecret := header.destinationSecret
  maxRetries := header.maxRetries
  retryBackoff := header.retryBackoff
  httpMethod := header.httpMethod
  httpHeadersJson := header.httpHeadersJson
  httpSign := header.httpSign
  payloadRefJson := header.payloadRefJson

/-! ## The codec parameters -/

/-- What the wire format takes from outside the repository. -/
structure Codec where
  /-- `bincode_next` encoding of a header. -/
  encode : LogRecord → Except String Bytes
  /-- `bincode_next` decoding of a current header. -/
  decode : Bytes → Except String LogRecord
  /-- `bincode_next` decoding of a legacy header. -/
  decodeLegacy : Bytes → Except String LogRecordLegacy
  /-- `crc32fast::hash`. -/
  crc32 : Bytes → UInt32
  /-- `max_frame_payload_bytes()`. -/
  maxFramePayloadBytes : Nat

/-- The documented law of the encoder: what it wrote, it reads back. -/
structure Codec.Lawful (c : Codec) : Prop where
  decode_encode : ∀ {r : LogRecord} {bs : Bytes}, c.encode r = .ok bs → c.decode bs = .ok r

/-! ## Frames -/

def recordMagic : Bytes := [0x53, 0x42, 0x4B, 0x31]

def maxFrameHeaderBytes : Nat := 1024 * 1024

/-- `LogRecord::decode_bytes`: the current layout, else the legacy one. -/
def LogRecord.decodeBytes (c : Codec) (bytes : Bytes) : Except RecordError LogRecord :=
  match c.decode bytes with
  | .ok r => .ok r
  | .error _ =>
    match c.decodeLegacy bytes with
    | .ok leg => .ok leg.upgrade
    | .error e => .error (.decode e)

/-- The checksummed part of a frame. -/
def frameBody (headerBytes payload : Bytes) : Bytes :=
  recordMagic ++ beBytes 4 headerBytes.length ++ beBytes 4 payload.length ++ headerBytes ++ payload

section

variable (c : Codec)

/-- A whole frame around encoded header bytes. -/
def frameOf (headerBytes payload : Bytes) : Bytes :=
  frameBody headerBytes payload ++ beBytes 4 (c.crc32 (frameBody headerBytes payload)).toNat

def encodeFrame (header : LogRecord) (payload : Bytes) : Except RecordError Bytes :=
  match c.encode header with
  | .error e => .error (.encode e)
  | .ok headerBytes =>
    if headerBytes.length > maxFrameHeaderBytes ∨ payload.length > c.maxFramePayloadBytes then
      .error (.frameTooLarge headerBytes.length payload.length)
    else
      .ok (frameOf c headerBytes payload)

def decodeFrame : Reader RecordError Item := do
  let magic ← Reader.readExact 4
  Prog.check (magic = recordMagic) .invalidMagic
  let headerLen ← Reader.readBe 4
  let payloadLen ← Reader.readBe 4
  Prog.check (headerLen ≤ maxFrameHeaderBytes ∧ payloadLen ≤ c.maxFramePayloadBytes)
    (.frameTooLarge headerLen payloadLen)
  let headerBytes ← Reader.readExact headerLen
  let payload ← Reader.readExact payloadLen
  let expected ← Reader.readBe 4
  Prog.check ((c.crc32 (frameBody headerBytes payload)).toNat = expected) .checksumMismatch
  let header ← Prog.lift (LogRecord.decodeBytes c headerBytes)
  pure (header, payload)

/-! ## The frame codec is exact -/

/-- The bytes of an item's frame, when its header encodes. -/
def frameBytes (item : Item) : Bytes :=
  match c.encode item.1 with
  | .ok headerBytes => frameOf c headerBytes item.2
  | .error _ => []

/-- The item passes `encode_frame`. -/
def FrameOk (item : Item) : Prop :=
  ∃ headerBytes, c.encode item.1 = .ok headerBytes ∧
    headerBytes.length ≤ maxFrameHeaderBytes ∧ item.2.length ≤ c.maxFramePayloadBytes

end

theorem encodeFrame_eq_ok_iff (c : Codec) (item : Item) (frame : Bytes) :
    encodeFrame c item.1 item.2 = .ok frame ↔ FrameOk c item ∧ frame = frameBytes c item := by
  unfold encodeFrame FrameOk frameBytes
  cases henc : c.encode item.1 with
  | error e => simp
  | ok headerBytes =>
    simp only [Except.ok.injEq, exists_eq_left']
    split
    · next hbig =>
      constructor
      · intro h
        cases h
      · rintro ⟨⟨hh, hp⟩, -⟩
        omega
    · next hsmall =>
      rw [not_or, Nat.not_lt, Nat.not_lt] at hsmall
      constructor
      · intro h
        cases h
        exact ⟨hsmall, rfl⟩
      · rintro ⟨-, rfl⟩
        rfl

variable {c : Codec} {item : Item}

theorem decodeBytes_of_encode (hc : c.Lawful) {r : LogRecord} {bs : Bytes}
    (h : c.encode r = .ok bs) : LogRecord.decodeBytes c bs = .ok r := by
  simp [LogRecord.decodeBytes, hc.decode_encode h]

theorem length_frameOf (c : Codec) (headerBytes payload : Bytes) :
    (frameOf c headerBytes payload).length = 16 + headerBytes.length + payload.length := by
  simp [frameOf, frameBody, recordMagic]
  omega

theorem length_frameBytes_ge (h : FrameOk c item) :
    16 + item.2.length ≤ (frameBytes c item).length := by
  obtain ⟨headerBytes, henc, -⟩ := h
  simp [frameBytes, henc, length_frameOf]

/-- **A frame decodes exactly.** Its bytes give back the item and leave what follows; cut
short anywhere they end in `UnexpectedEof`. The payload length is written as a `u32`, so a
payload must be below 4 GiB. -/
theorem decodeFrame_exact (hc : c.Lawful) (h : FrameOk c item) (hlen : item.2.length < 2 ^ 32) :
    Reader.Exact (decodeFrame c) (frameBytes c item) item := by
  obtain ⟨header, payload⟩ := item
  obtain ⟨headerBytes, henc, hheader, hpayload⟩ := h
  have hhl : headerBytes.length % 256 ^ 4 = headerBytes.length :=
    Nat.mod_eq_of_lt (lt_of_le_of_lt hheader (by decide))
  have hpl : payload.length % 256 ^ 4 = payload.length :=
    Nat.mod_eq_of_lt (lt_of_lt_of_le hlen (by decide))
  have hcrc : (c.crc32 (frameBody headerBytes payload)).toNat % 256 ^ 4
      = (c.crc32 (frameBody headerBytes payload)).toNat :=
    Nat.mod_eq_of_lt (lt_of_lt_of_le (UInt32.toNat_lt _) (by decide))
  have hbytes : frameBytes c (header, payload)
      = recordMagic ++ ([] ++ (beBytes 4 headerBytes.length ++ (beBytes 4 payload.length ++
        ([] ++ (headerBytes ++ (payload ++
          (beBytes 4 (c.crc32 (frameBody headerBytes payload)).toNat ++
            ([] ++ ([] ++ []))))))))) := by
    simp [frameBytes, henc, frameOf, frameBody]
  rw [hbytes]
  -- one `Exact` brick per statement of the decoder, in order
  refine .bind (.readExact rfl) (.bind (.check rfl _) ?_)
  refine .bind (.readBe 4 _) (.bind (.readBe 4 _) ?_)
  rw [hhl, hpl]
  refine .bind (.check ⟨hheader, hpayload⟩ _) ?_
  refine .bind (.readExact rfl) (.bind (.readExact rfl) (.bind (.readBe 4 _) ?_))
  refine .bind (.check hcrc.symm _) ?_
  rw [decodeBytes_of_encode hc henc]
  exact .bind (.lift header) (.pure (header, payload))

/-- Any accepted frame, canonical or not, is read exactly, and damage in a frame is found whatever
follows it, unless the file ends first. -/
theorem decodeFrame_definite (c : Codec) : Reader.Definite (decodeFrame c) := by
  refine .bind (.readExact 4) fun _ => .bind (.check _ _) fun _ => ?_
  refine .bind (.readBe 4) fun _ => .bind (.readBe 4) fun _ => .bind (.check _ _) fun _ => ?_
  refine .bind (.readExact _) fun _ => .bind (.readExact _) fun _ => .bind (.readBe 4) fun _ => ?_
  exact .bind (.check _ _) fun _ => .bind (.lift _) fun _ => .pure _

end BetterMQ
