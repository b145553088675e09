import BetterMQ.Proto.Record

/-!
# Commit epochs of the V2 log (`broker-proto/src/epoch.rs`)

An epoch is a 52-byte header followed by a body of record frames. `byte_len`, the offsets and
the CRC of the body are checked on the way in and on the way out.

* **`decodeEpoch_exact`** — an encoded epoch decodes to its header and body and leaves what
  follows; cut anywhere, in the header or in the body, it ends in `UnexpectedEof`.
-/

namespace BetterMQ

open Prog Reader

def epochMagic : Bytes := [0x42, 0x51, 0x45, 0x32]

def epochFormatV2 : Nat := 2

def epochHeaderBytes : Nat := 52

def maxEpochBodyBytes : Nat := 512 * 1024 * 1024

/-- `u64::saturating_add`. -/
def satAdd64 (a b : Nat) : Nat := min (a + b) (2 ^ 64 - 1)

theorem satAdd64_of_lt {a b : Nat} (h : a + b < 2 ^ 64) : satAdd64 a b = a + b := by
  unfold satAdd64
  omega

inductive EpochError where
  | invalidMagic
  | unsupportedVersion (version : Nat)
  | bodyTooLarge (byteLen : Nat)
  | checksumMismatch
  | invalidOffsets
  | io (error : IoError)
  deriving DecidableEq

instance : EofError EpochError := ⟨.io .unexpectedEof⟩

structure EpochHeader where
  formatVersion : Nat
  flags : Nat
  shardId : Nat
  leaderEpoch : Nat
  firstOffset : Nat
  recordCount : Nat
  byteLen : Nat
  /-- Exclusive offset covered by this complete epoch. -/
  committedHwm : Nat
  bodyCrc : Nat
  deriving DecidableEq

def EpochHeader.v2 (c : Codec) (shardId leaderEpoch firstOffset recordCount : Nat)
    (body : Bytes) : EpochHeader where
  formatVersion := epochFormatV2
  flags := 0
  shardId := shardId
  leaderEpoch := leaderEpoch
  firstOffset := firstOffset
  recordCount := recordCount
  byteLen := body.length
  committedHwm := satAdd64 firstOffset recordCount
  bodyCrc := (c.crc32 body).toNat

/-- The header fields in wire order. -/
def EpochHeader.bytes (header : EpochHeader) : Bytes :=
  epochMagic ++ beBytes 2 header.formatVersion ++ beBytes 2 header.flags ++
    beBytes 4 header.shardId ++ beBytes 8 header.leaderEpoch ++ beBytes 8 header.firstOffset ++
    beBytes 4 header.recordCount ++ beBytes 8 header.byteLen ++ beBytes 8 header.committedHwm ++
    beBytes 4 header.bodyCrc

theorem length_header_bytes (header : EpochHeader) : header.bytes.length = epochHeaderBytes := by
  simp [EpochHeader.bytes, epochMagic, epochHeaderBytes]

def encodeEpoch (header : EpochHeader) (body : Bytes) : Except EpochError Bytes :=
  if header.formatVersion ≠ epochFormatV2 then
    .error (.unsupportedVersion header.formatVersion)
  else if header.byteLen ≠ body.length ∨ header.byteLen > maxEpochBodyBytes then
    .error (.bodyTooLarge header.byteLen)
  else if header.committedHwm ≠ satAdd64 header.firstOffset header.recordCount then
    .error .invalidOffsets
  else
    .ok (header.bytes ++ body)

def decodeEpoch (c : Codec) : Reader EpochError (EpochHeader × Bytes) := do
  let magic ← Reader.readExact 4
  Prog.check (magic = epochMagic) .invalidMagic
  let formatVersion ← Reader.readBe 2
  Prog.check (formatVersion = epochFormatV2) (.unsupportedVersion formatVersion)
  let flags ← Reader.readBe 2
  let shardId ← Reader.readBe 4
  let leaderEpoch ← Reader.readBe 8
  let firstOffset ← Reader.readBe 8
  let recordCount ← Reader.readBe 4
  let byteLen ← Reader.readBe 8
  let committedHwm ← Reader.readBe 8
  let bodyCrc ← Reader.readBe 4
  Prog.check (byteLen ≤ maxEpochBodyBytes) (.bodyTooLarge byteLen)
  Prog.check (committedHwm = satAdd64 firstOffset recordCount) .invalidOffsets
  let body ← Reader.readExact byteLen
  Prog.check ((c.crc32 body).toNat = bodyCrc) .checksumMismatch
  pure (⟨formatVersion, flags, shardId, leaderEpoch, firstOffset, recordCount, byteLen,
    committedHwm, bodyCrc⟩, body)

/-! ## The epoch codec is exact -/

/-- `append_batch` builds its header with `v2`, so only an oversized body can be refused. -/
theorem encodeEpoch_v2 (c : Codec) (shardId leaderEpoch firstOffset recordCount : Nat)
    (body : Bytes) :
    encodeEpoch (.v2 c shardId leaderEpoch firstOffset recordCount body) body =
      if body.length ≤ maxEpochBodyBytes then
        .ok ((EpochHeader.v2 c shardId leaderEpoch firstOffset recordCount body).bytes ++ body)
      else .error (.bodyTooLarge body.length) := by
  simp only [encodeEpoch, EpochHeader.v2, ne_eq, not_true_eq_false, false_or, if_false]
  split
  · next h => rw [if_neg (by omega)]
  · next h => rw [if_pos (by omega)]

/-- The header with every field cut to its width on the wire. -/
def EpochHeader.wrap (header : EpochHeader) : EpochHeader where
  formatVersion := header.formatVersion % 256 ^ 2
  flags := header.flags % 256 ^ 2
  shardId := header.shardId % 256 ^ 4
  leaderEpoch := header.leaderEpoch % 256 ^ 8
  firstOffset := header.firstOffset % 256 ^ 8
  recordCount := header.recordCount % 256 ^ 4
  byteLen := header.byteLen % 256 ^ 8
  committedHwm := header.committedHwm % 256 ^ 8
  bodyCrc := header.bodyCrc % 256 ^ 4

/-- **An epoch decodes exactly**, to the header its fields hold on the wire. -/
theorem decodeEpoch_wrap {c : Codec} {header : EpochHeader} {body : Bytes}
    (hversion : header.wrap.formatVersion = epochFormatV2)
    (hlen : header.wrap.byteLen = body.length) (hmax : body.length ≤ maxEpochBodyBytes)
    (hhwm : header.wrap.committedHwm
      = satAdd64 header.wrap.firstOffset header.wrap.recordCount)
    (hcrc : (c.crc32 body).toNat = header.wrap.bodyCrc) :
    Reader.Exact (decodeEpoch c) (header.bytes ++ body) (header.wrap, body) := by
  have hbytes : header.bytes ++ body
      = epochMagic ++ ([] ++ (beBytes 2 header.formatVersion ++ ([] ++ (beBytes 2 header.flags ++
        (beBytes 4 header.shardId ++ (beBytes 8 header.leaderEpoch ++
        (beBytes 8 header.firstOffset ++ (beBytes 4 header.recordCount ++
        (beBytes 8 header.byteLen ++ (beBytes 8 header.committedHwm ++
        (beBytes 4 header.bodyCrc ++ ([] ++ ([] ++ (body ++ ([] ++ []))))))))))))))) := by
    simp [EpochHeader.bytes]
  rw [hbytes]
  refine .bind (.readExact rfl) (.bind (.check rfl _) (.bind (.readBe 2 _) ?_))
  refine .bind (.check hversion _) (.bind (.readBe 2 _) (.bind (.readBe 4 _) ?_))
  refine .bind (.readBe 8 _) (.bind (.readBe 8 _) (.bind (.readBe 4 _) ?_))
  refine .bind (.readBe 8 _) (.bind (.readBe 8 _) (.bind (.readBe 4 _) ?_))
  refine .bind (.check (hlen.trans_le hmax) _) (.bind (.check hhwm _) ?_)
  exact .bind (.readExact hlen.symm) (.bind (.check hcrc _) (.pure _))

/-- The header with other flags, which nothing reads. -/
def EpochHeader.withFlags (header : EpochHeader) (flags : Nat) : EpochHeader :=
  { header with flags := flags }

/-- The epochs of the log: the leader epoch and the flags are the only fields that may be out of
range. -/
theorem decodeEpoch_exact (c : Codec) {shardId leaderEpoch firstOffset recordCount flags : Nat}
    {body : Bytes} (hbody : body.length ≤ maxEpochBodyBytes) (hshard : shardId < 2 ^ 32)
    (hcount : recordCount < 2 ^ 32) (hoffset : firstOffset + recordCount < 2 ^ 64) :
    Reader.Exact (decodeEpoch c)
      (((EpochHeader.v2 c shardId leaderEpoch firstOffset recordCount body).withFlags flags).bytes
        ++ body)
      ((EpochHeader.v2 c shardId (leaderEpoch % 2 ^ 64) firstOffset recordCount body).withFlags
        (flags % 2 ^ 16), body) := by
  have hmax : maxEpochBodyBytes < 2 ^ 64 := by decide
  have hwrap : ((EpochHeader.v2 c shardId leaderEpoch firstOffset recordCount
        body).withFlags flags).wrap
      = (EpochHeader.v2 c shardId (leaderEpoch % 2 ^ 64) firstOffset recordCount body).withFlags
        (flags % 2 ^ 16) := by
    simp only [EpochHeader.wrap, EpochHeader.withFlags, EpochHeader.v2, satAdd64_of_lt hoffset,
      EpochHeader.mk.injEq]
    have hcrc := (c.crc32 body).toNat_lt
    refine ⟨rfl, rfl, ?_, rfl, ?_, ?_, ?_, ?_, ?_⟩ <;> exact Nat.mod_eq_of_lt (by omega)
  have hexact := @decodeEpoch_wrap c
    ((EpochHeader.v2 c shardId leaderEpoch firstOffset recordCount body).withFlags flags) body
  rw [hwrap] at hexact
  exact hexact rfl rfl hbody rfl rfl

/-- Whatever decodes is the wire form of the header it decodes to, followed by the body. -/
theorem decodeEpoch_eq_ok {c : Codec} {header : EpochHeader} {body s s' : Bytes}
    (h : decodeEpoch c s = (.ok (header, body), s')) :
    s = header.bytes ++ body ++ s' ∧ body.length ≤ maxEpochBodyBytes ∧
      header = (EpochHeader.v2 c header.shardId header.leaderEpoch header.firstOffset
        header.recordCount body).withFlags header.flags := by
  obtain ⟨magic, s₁, hmagic, h⟩ := bind_eq_ok h
  obtain ⟨_, s₂, hcheck, h⟩ := bind_eq_ok h
  obtain ⟨formatVersion, s₃, hversion, h⟩ := bind_eq_ok h
  obtain ⟨_, s₄, hsupported, h⟩ := bind_eq_ok h
  obtain ⟨flags, s₅, hflags, h⟩ := bind_eq_ok h
  obtain ⟨shardId, s₆, hshard, h⟩ := bind_eq_ok h
  obtain ⟨leaderEpoch, s₇, hleader, h⟩ := bind_eq_ok h
  obtain ⟨firstOffset, s₈, hfirst, h⟩ := bind_eq_ok h
  obtain ⟨recordCount, s₉, hcount, h⟩ := bind_eq_ok h
  obtain ⟨byteLen, s₁₀, hlen, h⟩ := bind_eq_ok h
  obtain ⟨committedHwm, s₁₁, hhwm, h⟩ := bind_eq_ok h
  obtain ⟨bodyCrc, s₁₂, hcrc, h⟩ := bind_eq_ok h
  obtain ⟨_, s₁₃, hmax, h⟩ := bind_eq_ok h
  obtain ⟨_, s₁₄, hoffsets, h⟩ := bind_eq_ok h
  obtain ⟨body', s₁₅, hbody, h⟩ := bind_eq_ok h
  obtain ⟨_, s₁₆, hsum, h⟩ := bind_eq_ok h
  cases h
  obtain ⟨rfl, rfl⟩ := check_eq_ok hsum
  obtain ⟨rfl, rfl⟩ := readExact_eq_ok hbody
  obtain ⟨rfl, rfl⟩ := check_eq_ok hoffsets
  obtain ⟨hsmall, rfl⟩ := check_eq_ok hmax
  obtain ⟨rfl, -⟩ := readBe_eq_ok hcrc
  obtain ⟨rfl, -⟩ := readBe_eq_ok hhwm
  obtain ⟨rfl, -⟩ := readBe_eq_ok hlen
  obtain ⟨rfl, -⟩ := readBe_eq_ok hcount
  obtain ⟨rfl, -⟩ := readBe_eq_ok hfirst
  obtain ⟨rfl, -⟩ := readBe_eq_ok hleader
  obtain ⟨rfl, -⟩ := readBe_eq_ok hshard
  obtain ⟨rfl, -⟩ := readBe_eq_ok hflags
  obtain ⟨rfl, rfl⟩ := check_eq_ok hsupported
  obtain ⟨rfl, -⟩ := readBe_eq_ok hversion
  obtain ⟨rfl, rfl⟩ := check_eq_ok hcheck
  obtain ⟨rfl, -⟩ := readExact_eq_ok hmagic
  refine ⟨?_, hsmall, rfl⟩
  simp [EpochHeader.bytes]

theorem decodeEpoch_definite (c : Codec) : Reader.Definite (decodeEpoch c) := by
  refine .bind (.readExact 4) fun _ => .bind (.check _ _) fun _ => .bind (.readBe 2) fun _ => ?_
  refine .bind (.check _ _) fun _ => .bind (.readBe 2) fun _ => .bind (.readBe 4) fun _ => ?_
  refine .bind (.readBe 8) fun _ => .bind (.readBe 8) fun _ => .bind (.readBe 4) fun _ => ?_
  refine .bind (.readBe 8) fun _ => .bind (.readBe 8) fun _ => .bind (.readBe 4) fun _ => ?_
  refine .bind (.check _ _) fun _ => .bind (.check _ _) fun _ => .bind (.readExact _) fun _ => ?_
  exact .bind (.check _ _) fun _ => .pure _

end BetterMQ
