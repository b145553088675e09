import BetterMQ.Lib.Wire
import BetterMQ.Proto.Record

/-!
# The concrete codec (`broker-proto/src/codec.rs`)

`bincode` in its legacy configuration (fixed-width little-endian integers, `u64` lengths, `u8`
option tags, `u32` variant tags) for the two header layouts, and the CRC-32 of `crc32fast`. The
rest of the development is stated for any lawful `Codec`; this is the one the program links.
-/

namespace BetterMQ

instance : EofError String := ⟨"unexpected end of input"⟩

namespace Bincode

def text : Wire String String := .text "invalid UTF-8"

def optional {α : Type} (w : Wire String α) : Wire String (Option α) :=
  w.option fun tag => s!"unexpected option tag {tag}"

/-- `serialize_bytes` of the 16 bytes of a UUID. -/
def uuid : Wire String Uuid :=
  (Wire.blob String).imap (fun id => beBytes 16 id.toNat)
    (fun bs => if bs.length = 16 then .ok (BitVec.ofNat 128 (beNat bs))
      else .error "invalid UUID length") (by
      intro id
      rw [if_pos (length_beBytes _ _), beNat_beBytes_of_lt id.isLt, BitVec.ofNat_toNat,
        BitVec.setWidth_eq])

def bool : Wire String Bool :=
  (Wire.u8 String).tagged (fun b => if b then 1 else 0)
    (fun n => if n = 0 then some false else if n = 1 then some true else none)
    (fun n => s!"invalid boolean {n}") (by decide)

def retryBackoffKind : Wire String RetryBackoffKind :=
  (Wire.u32 String).tagged (fun | .fixed => 0 | .exponential => 1)
    (fun n => if n = 0 then some .fixed else if n = 1 then some .exponential else none)
    (fun n => s!"unexpected variant {n}") (by intro k; cases k <;> rfl)

def retryBackoff : Wire String RetryBackoff :=
  (retryBackoffKind.pair ((Wire.u64 String).pair ((Wire.u64 String).pair (Wire.u64 String)))).imap
    (fun b => (b.kind, b.initialMs, b.maxMs, b.multiplier))
    (fun (kind, initialMs, maxMs, multiplier) => .ok ⟨kind, initialMs, maxMs, multiplier⟩)
    (fun _ => rfl)

def legacyHeader : Wire String LogRecordLegacy :=
  (uuid.pair (text.pair (text.pair (text.pair ((optional text).pair (Wire.i64 String)))))).imap
    (fun r => (r.id, r.tenantId, r.topic, r.routingKey, r.idempotencyKey, r.publishedAtMs))
    (fun (id, tenantId, topic, routingKey, idempotencyKey, publishedAtMs) =>
      .ok ⟨id, tenantId, topic, routingKey, idempotencyKey, publishedAtMs⟩)
    (fun _ => rfl)

/-- The fields after the legacy ones. -/
structure Extension where
  priority : UInt8
  flowParallelism : Option UInt32
  flowKey : Option String
  flowRate : Option UInt32
  flowPeriodSecs : Option UInt64
  queueId : Option Uuid
  groupId : Option Uuid
  groupMemberId : Option Uuid
  flowProfileId : Option Uuid
  destinationUrl : Option String
  destinationSecret : Option String
  maxRetries : UInt32
  retryBackoff : Option RetryBackoff
  httpMethod : Option String
  httpHeadersJson : Option String
  httpSign : Option Bool
  payloadRefJson : Option String

def extension : Wire String Extension :=
  ((Wire.u8 String).pair ((optional (Wire.u32 String)).pair ((optional text).pair
    ((optional (Wire.u32 String)).pair ((optional (Wire.u64 String)).pair ((optional uuid).pair
    ((optional uuid).pair ((optional uuid).pair ((optional uuid).pair ((optional text).pair
    ((optional text).pair ((Wire.u32 String).pair ((optional retryBackoff).pair
    ((optional text).pair ((optional text).pair ((optional bool).pair
    (optional text))))))))))))))))).imap
    (fun r => (r.priority, r.flowParallelism, r.flowKey, r.flowRate, r.flowPeriodSecs, r.queueId,
      r.groupId, r.groupMemberId, r.flowProfileId, r.destinationUrl, r.destinationSecret,
      r.maxRetries, r.retryBackoff, r.httpMethod, r.httpHeadersJson, r.httpSign, r.payloadRefJson))
    (fun (priority, flowParallelism, flowKey, flowRate, flowPeriodSecs, queueId, groupId,
        groupMemberId, flowProfileId, destinationUrl, destinationSecret, maxRetries, retryBackoff,
        httpMethod, httpHeadersJson, httpSign, payloadRefJson) =>
      .ok ⟨priority, flowParallelism, flowKey, flowRate, flowPeriodSecs, queueId, groupId,
        groupMemberId, flowProfileId, destinationUrl, destinationSecret, maxRetries, retryBackoff,
        httpMethod, httpHeadersJson, httpSign, payloadRefJson⟩)
    (fun _ => rfl)

def header : Wire String LogRecord :=
  (legacyHeader.pair extension).imap
    (fun r => (⟨r.id, r.tenantId, r.topic, r.routingKey, r.idempotencyKey, r.publishedAtMs⟩,
      ⟨r.priority, r.flowParallelism, r.flowKey, r.flowRate, r.flowPeriodSecs, r.queueId,
        r.groupId, r.groupMemberId, r.flowProfileId, r.destinationUrl, r.destinationSecret,
        r.maxRetries, r.retryBackoff, r.httpMethod, r.httpHeadersJson, r.httpSign,
        r.payloadRefJson⟩))
    (fun (l, e) => .ok ⟨l.id, l.tenantId, l.topic, l.routingKey, l.idempotencyKey,
      l.publishedAtMs, e.priority, e.flowParallelism, e.flowKey, e.flowRate, e.flowPeriodSecs,
      e.queueId, e.groupId, e.groupMemberId, e.flowProfileId, e.destinationUrl,
      e.destinationSecret, e.maxRetries, e.retryBackoff, e.httpMethod, e.httpHeadersJson,
      e.httpSign, e.payloadRefJson⟩)
    (fun _ => rfl)

/-! ## CRC-32 -/

/-- One bit of the reflected CRC-32 division. -/
def crcBit (crc : Nat) : Nat :=
  if crc % 2 = 1 then (crc >>> 1) ^^^ 0xEDB88320 else crc >>> 1

def crcByte (crc : Nat) (b : UInt8) : Nat :=
  crcBit (crcBit (crcBit (crcBit (crcBit (crcBit (crcBit (crcBit (crc ^^^ b.toNat))))))))

/-- `crc32fast::hash`. -/
def crc32 (bs : Bytes) : UInt32 :=
  UInt32.ofNat (bs.foldl crcByte 0xFFFFFFFF ^^^ 0xFFFFFFFF)

-- the check value of CRC-32: the digits 1 to 9
example : crc32 [0x31, 0x32, 0x33, 0x34, 0x35, 0x36, 0x37, 0x38, 0x39] = 0xCBF43926 := by
  decide +kernel

/-! ## The codec -/

def defaultMaxFramePayloadBytes : Nat := 64 * 1024 * 1024

def codec : Codec where
  encode r := (header.put r).elim (.error "value too large") .ok
  decode bs := (header.get bs).1
  decodeLegacy bs := (legacyHeader.get bs).1
  crc32 := crc32
  maxFramePayloadBytes := defaultMaxFramePayloadBytes

/-- **What `bincode` wrote, it reads back.** -/
theorem codec_lawful : codec.Lawful where
  decode_encode {r bs} h := by
    have hput : header.put r = some bs := by
      unfold codec at h
      dsimp only at h
      cases hcase : header.put r with
      | none =>
        rw [hcase] at h
        cases h
      | some bs' =>
        rw [hcase] at h
        cases h
        rfl
    have hread := (header.exact hput).ok []
    rw [List.append_nil] at hread
    show (header.get bs).1 = .ok r
    rw [hread]

end Bincode

end BetterMQ
