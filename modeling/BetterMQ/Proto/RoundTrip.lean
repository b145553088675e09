import BetterMQ.Proto.Bincode
import BetterMQ.Proto.Epoch

/-!
# Frames and epochs are read back

For any codec that reads back what it wrote, with any payload limit: `max_frame_payload_bytes` takes
it from the environment and does not bound it, while a frame writes the length of its payload as a
`u32`; and `encode_epoch` writes the checksum its caller put into the header.

* **`codecs_round_trip_iff`** — a sequence of encoded frames is read back in order exactly when
  every payload is shorter than four gibibytes, an encoded epoch exactly when its header has the
  checksum of its body, and a legacy header always, with the defaults of the newer fields.
-/

namespace BetterMQ

open List Prog

/-! ## Frames -/

/-- `decode_frame`, called `n` times on one reader. -/
def decodeFrames (c : Codec) : Nat → Reader RecordError (List Item)
  | 0 => pure []
  | n + 1 => do
    let item ← decodeFrame c
    let items ← decodeFrames c n
    pure (item :: items)

/-- The length of a decoded payload was read from four bytes. -/
theorem decodeFrame_payload_lt {c : Codec} {item : Item} {s s' : Bytes}
    (h : decodeFrame c s = (.ok item, s')) : item.2.length < 2 ^ 32 := by
  obtain ⟨magic, s₁, -, h⟩ := bind_eq_ok h
  obtain ⟨_, s₂, -, h⟩ := bind_eq_ok h
  obtain ⟨headerLen, s₃, -, h⟩ := bind_eq_ok h
  obtain ⟨payloadLen, s₄, hlen, h⟩ := bind_eq_ok h
  obtain ⟨_, s₅, -, h⟩ := bind_eq_ok h
  obtain ⟨headerBytes, s₆, -, h⟩ := bind_eq_ok h
  obtain ⟨payload, s₇, hpayload, h⟩ := bind_eq_ok h
  obtain ⟨expected, s₈, -, h⟩ := bind_eq_ok h
  obtain ⟨_, s₉, -, h⟩ := bind_eq_ok h
  obtain ⟨header, s₁₀, -, h⟩ := bind_eq_ok h
  cases h
  obtain ⟨-, rfl⟩ := Reader.readExact_eq_ok hpayload
  exact (Reader.readBe_eq_ok hlen).2

theorem decodeFrames_iff {c : Codec} (hc : c.Lawful) {items : List Item} {frames : List Bytes}
    (henc : List.Forall₂ (fun item frame => encodeFrame c item.1 item.2 = .ok frame) items frames)
    (rest : Bytes) :
    decodeFrames c items.length (frames.flatten ++ rest) = (.ok items, rest) ↔
      ∀ item ∈ items, item.2.length < 2 ^ 32 := by
  induction henc with
  | nil => simp [decodeFrames]
  | @cons item frame items frames hframe _ ih =>
    obtain ⟨hok, rfl⟩ := (encodeFrame_eq_ok_iff c item frame).mp hframe
    rw [forall_mem_cons, flatten_cons, append_assoc, length_cons, decodeFrames]
    constructor
    · intro h
      obtain ⟨item', s₁, hfirst, h⟩ := bind_eq_ok h
      obtain ⟨items', s₂, hrest, h⟩ := bind_eq_ok h
      cases h
      have hlen := decodeFrame_payload_lt hfirst
      cases hfirst.symm.trans ((decodeFrame_exact hc hok hlen).ok _)
      exact ⟨hlen, ih.mp hrest⟩
    · rintro ⟨hlen, hlens⟩
      rw [bind_ok ((decodeFrame_exact hc hok hlen).ok _), bind_ok (ih.mpr hlens)]
      rfl

/-! ## Epochs -/

/-- Every field fits its width on the wire. -/
def EpochHeader.InRange (header : EpochHeader) : Prop := header.wrap = header

theorem decodeEpoch_encodeEpoch_iff (c : Codec) {header : EpochHeader} {body bytes : Bytes}
    (hrange : header.InRange) (henc : encodeEpoch header body = .ok bytes) (rest : Bytes) :
    decodeEpoch c (bytes ++ rest) = (.ok (header, body), rest) ↔
      header.bodyCrc = (c.crc32 body).toNat := by
  unfold encodeEpoch at henc
  split at henc
  · cases henc
  · next hversion =>
    split at henc
    · cases henc
    · next hlen =>
      split at henc
      · cases henc
      · next hhwm =>
        cases henc
        rw [not_not] at hversion hhwm
        rw [not_or, not_not, Nat.not_lt] at hlen
        constructor
        · intro h
          exact congrArg EpochHeader.bodyCrc (decodeEpoch_eq_ok h).2.2
        · intro hcrc
          have hexact := @decodeEpoch_wrap c header body
          rw [hrange] at hexact
          exact (hexact hversion hlen.1 (hlen.1 ▸ hlen.2) hhwm hcrc.symm).ok rest

/-! ## Legacy headers -/

/-- What is assumed of `bincode` for the two header layouts. A header that was stored in the legacy
layout is read back from the front of any bytes, so the layout is also prefix-free. The current
layout has the same fields in front, and its decoder does not stop behind them. -/
structure Codec.Layouts (c : Codec) (encodeLegacy : LogRecordLegacy → Option Bytes)
    (readLegacy : Reader String LogRecordLegacy) : Prop where
  lawful : c.Lawful
  read_encode : ∀ {leg bs}, encodeLegacy leg = some bs →
    ∀ rest, readLegacy (bs ++ rest) = (.ok leg, rest)
  decodeLegacy_eq : ∀ bs, c.decodeLegacy bs = (readLegacy bs).1
  goes_on : ∀ {bs r}, c.decode bs = .ok r → ∃ leg rest, readLegacy bs = (.ok leg, rest) ∧ rest ≠ []

variable {c : Codec} {encodeLegacy : LogRecordLegacy → Option Bytes}
  {readLegacy : Reader String LogRecordLegacy}

/-- **A legacy header is read as one**: the current layout would go on behind its last field, where
the legacy header ends. -/
theorem decodeBytes_legacy (hc : c.Layouts encodeLegacy readLegacy) {leg : LogRecordLegacy}
    {bs : Bytes} (h : encodeLegacy leg = some bs) :
    LogRecord.decodeBytes c bs = .ok leg.upgrade := by
  have hread := hc.read_encode h []
  rw [append_nil] at hread
  have hlegacy : c.decodeLegacy bs = .ok leg := by rw [hc.decodeLegacy_eq, hread]
  cases hcurrent : c.decode bs with
  | ok r =>
    obtain ⟨leg', rest, hrest, hne⟩ := hc.goes_on hcurrent
    cases hread.symm.trans hrest
    exact absurd rfl hne
  | error e =>
    rw [LogRecord.decodeBytes, hcurrent]
    simp only [hlegacy]

/-! ## The result -/

/-- **The codecs read back what they wrote**, in any sequence and whatever follows: frames exactly
when their payloads are shorter than four gibibytes, an epoch exactly when its header has the
checksum of its body, a header in the legacy layout always. -/
theorem codecs_round_trip_iff (hc : c.Layouts encodeLegacy readLegacy) :
    (∀ (items : List Item) (frames : List Bytes),
      List.Forall₂ (fun item frame => encodeFrame c item.1 item.2 = .ok frame) items frames →
      ∀ rest : Bytes,
      (decodeFrames c items.length (frames.flatten ++ rest) = (.ok items, rest) ↔
        ∀ item ∈ items, item.2.length < 2 ^ 32)) ∧
    (∀ (header : EpochHeader) (body bytes : Bytes), header.InRange →
      encodeEpoch header body = .ok bytes → ∀ rest : Bytes,
      (decodeEpoch c (bytes ++ rest) = (.ok (header, body), rest) ↔
        header.bodyCrc = (c.crc32 body).toNat)) ∧
    ∀ (leg : LogRecordLegacy) (bytes : Bytes), encodeLegacy leg = some bytes →
      LogRecord.decodeBytes c bytes = .ok leg.upgrade :=
  ⟨fun _ _ henc rest => decodeFrames_iff hc.lawful henc rest,
    fun _ _ _ hrange henc rest => decodeEpoch_encodeEpoch_iff _ hrange henc rest,
    fun _ _ h => decodeBytes_legacy hc h⟩

namespace Bincode

/-- The codec with its payload limit at `limit`. -/
def codecWith (limit : Nat) : Codec := { codec with maxFramePayloadBytes := limit }

theorem codecWith_lawful (limit : Nat) : (codecWith limit).Lawful where
  decode_encode {r bs} h := by
    unfold codecWith at h ⊢
    dsimp only at h ⊢
    exact @Codec.Lawful.decode_encode codec codec_lawful r bs h

/-- The reader of the newer fields fails where nothing is left. -/
theorem header_goes_on {bs s : Bytes} {r : LogRecord} (h : header.get bs = (.ok r, s)) :
    ∃ leg rest, legacyHeader.get bs = (.ok leg, rest) ∧ rest ≠ [] := by
  obtain ⟨fields, s₁, hfields, -⟩ := bind_eq_ok h
  obtain ⟨leg, rest, hleg, hext⟩ := bind_eq_ok hfields
  refine ⟨leg, rest, hleg, ?_⟩
  rintro rfl
  have hend : extension.get [] = (.error EofError.eof, []) := rfl
  rw [bind_error hend] at hext
  cases hext

/-- `bincode` as it is modelled here meets the assumptions, with any payload limit. -/
theorem codecWith_layouts (limit : Nat) :
    (codecWith limit).Layouts legacyHeader.put legacyHeader.get where
  lawful := codecWith_lawful limit
  read_encode h rest := (legacyHeader.exact h).ok rest
  decodeLegacy_eq _ := rfl
  goes_on {bs _} h := header_goes_on (s := (header.get bs).2) (Prod.ext h rfl)

/-- A record for the frames below. -/
def shortRecord : LogRecord := LogRecordLegacy.upgrade ⟨1, "t", "q", "k", none, 0⟩

theorem exists_frame {limit : Nat} {payload : Bytes} (h : payload.length ≤ limit) :
    ∃ frame, encodeFrame (codecWith limit) shortRecord payload = .ok frame := by
  have hcheck : ((codec.encode shortRecord).toOption.any fun headerBytes =>
      decide (headerBytes.length ≤ maxFrameHeaderBytes)) = true := by decide +kernel
  obtain ⟨headerBytes, hsome, hsmall⟩ := (Option.any_eq_true _ _).mp hcheck
  have henc : (codecWith limit).encode shortRecord = .ok headerBytes := toOption_eq_some.mp hsome
  exact ⟨_, (encodeFrame_eq_ok_iff (codecWith limit) (shortRecord, payload) _).mpr
    ⟨⟨headerBytes, henc, of_decide_eq_true hsmall, h⟩, rfl⟩⟩

/-- Two frames, and the first byte of something else. -/
theorem short_frames_read_back : ∃ frame,
    encodeFrame (codecWith 16) shortRecord [7] = .ok frame ∧
      decodeFrames (codecWith 16) 2 ([frame, frame].flatten ++ [0])
        = (.ok [(shortRecord, [7]), (shortRecord, [7])], [0]) := by
  obtain ⟨frame, hframe⟩ := @exists_frame 16 [7] (by decide)
  have hread := ((codecs_round_trip_iff (codecWith_layouts 16)).1
    [(shortRecord, [7]), (shortRecord, [7])] [frame, frame] (.cons hframe (.cons hframe .nil))
    [0]).mpr (by simp)
  exact ⟨frame, hframe, hread⟩

/-- With the limit at four gibibytes, a payload of that size is encoded and not read back. -/
theorem large_payload_not_read_back :
    ∃ frame, encodeFrame (codecWith (2 ^ 32)) shortRecord (List.replicate (2 ^ 32) 0) = .ok frame ∧
      ∀ rest, decodeFrames (codecWith (2 ^ 32)) 1 (frame ++ rest)
        ≠ (.ok [(shortRecord, List.replicate (2 ^ 32) 0)], rest) := by
  have hpayload : (List.replicate (2 ^ 32) (0 : UInt8)).length = 2 ^ 32 := length_replicate
  generalize List.replicate (2 ^ 32) (0 : UInt8) = payload at hpayload ⊢
  obtain ⟨frame, hframe⟩ := exists_frame hpayload.le
  refine ⟨frame, hframe, fun rest h => ?_⟩
  have hlens := (@decodeFrames_iff _ (codecWith_lawful _) [(shortRecord, payload)] _
    (.cons hframe .nil) rest).mp (by rw [flatten_singleton]; exact h)
  exact lt_irrefl _ (hpayload ▸ hlens _ (.head _))

end Bincode

end BetterMQ
