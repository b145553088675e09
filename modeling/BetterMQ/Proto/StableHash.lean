import BetterMQ.Proto.Record

/-!
# Stable placement

`stable_hash.rs`: SipHash-1-3 under fixed keys, and the shard that a hash of texts picks.

* `stablePartition`, `stablePhysicalShard` — the two placements, over any hash of a list of texts;
* `sipHash` — the hash of the source;
* **`pick_agree_iff`** — two placements agree under every hash exactly if they hash the same texts
  into the same number of shards, or there is one shard on both sides.
-/

namespace BetterMQ

/-! ## SipHash-1-3 -/

namespace SipHash

def rotl (x : UInt64) (n : UInt64) : UInt64 := x <<< n ||| x >>> (64 - n)

structure State where
  v0 : UInt64
  v1 : UInt64
  v2 : UInt64
  v3 : UInt64

def State.round (s : State) : State :=
  let v0 := s.v0 + s.v1
  let v1 := rotl s.v1 13 ^^^ v0
  let v0 := rotl v0 32
  let v2 := s.v2 + s.v3
  let v3 := rotl s.v3 16 ^^^ v2
  let v0 := v0 + v3
  let v3 := rotl v3 21 ^^^ v0
  let v2 := v2 + v1
  let v1 := rotl v1 17 ^^^ v2
  let v2 := rotl v2 32
  ⟨v0, v1, v2, v3⟩

/-- One word goes in with one round. -/
def State.compress (s : State) (m : UInt64) : State :=
  let s := State.round { s with v3 := s.v3 ^^^ m }
  { s with v0 := s.v0 ^^^ m }

/-- Three rounds at the end. -/
def State.finish (s : State) : UInt64 :=
  let s := State.round (State.round (State.round { s with v2 := s.v2 ^^^ 0xff }))
  s.v0 ^^^ s.v1 ^^^ s.v2 ^^^ s.v3

/-- "bettermq". -/
def k0 : UInt64 := 0x6265_7474_6572_6d71

/-- "hashv1\0\x01". -/
def k1 : UInt64 := 0x6861_7368_7631_0001

def init : State :=
  ⟨k0 ^^^ 0x736f6d6570736575, k1 ^^^ 0x646f72616e646f6d, k0 ^^^ 0x6c7967656e657261,
    k1 ^^^ 0x7465646279746573⟩

def leWord (bytes : Bytes) : UInt64 :=
  bytes.foldr (fun b acc => acc <<< 8 ||| b.toUInt64) 0

/-- The words of a text, the last one with the length in its top byte. -/
def words : Nat → Bytes → Nat → List UInt64
  | 0, _, _ => []
  | fuel + 1, bytes, length =>
    if bytes.length < 8 then [leWord bytes ||| (UInt64.ofNat length) <<< 56]
    else leWord (bytes.take 8) :: words fuel (bytes.drop 8) length

end SipHash

def stableHashU64 (bytes : Bytes) : UInt64 :=
  ((SipHash.words (bytes.length + 1) bytes bytes.length).foldl SipHash.State.compress
    SipHash.init).finish

/-- The hash of several texts: each is written with the `0xff` that `str` ends in. -/
def sipHash (texts : List String) : UInt64 :=
  stableHashU64 (texts.flatMap fun text => text.toUTF8.data.toList ++ [0xff])

-- `node_id_golden_vector`: the two halves of the id of "broker1"
example : stableHashU64 "broker1".toUTF8.data.toList = 0xb8f372e54655c3ff ∧
    stableHashU64 "bettermq:broker1".toUTF8.data.toList = 0xf65058f724a36df6 := by
  decide +kernel

/-! ## Placement -/

/-- The shard a hash picks for a key. -/
def pick {α : Type} (hash : α → UInt64) (key : α) (shards : UInt32) : UInt32 :=
  if shards = 0 then 0 else (hash key % shards.toUInt64).toUInt32

def stablePartition (hash : List String → UInt64) (tenantId topic routingKey : String)
    (partitions : UInt32) : UInt32 :=
  pick hash [tenantId, topic, routingKey] partitions

/-- Layout V2: the topic is not part of the placement. -/
def stablePhysicalShard (hash : List String → UInt64) (tenantId laneKey : String)
    (shards : UInt32) : UInt32 :=
  stablePartition hash tenantId "" laneKey shards

-- `partition_golden_vector`
example : stablePartition sipHash "default" "orders" "rk-a" 4 = 1 := by decide +kernel

section Agree

variable {α : Type} {shards : UInt32}

theorem pick_toNat (hash : α → UInt64) (key : α) (shards : UInt32) :
    (pick hash key shards).toNat = if shards = 0 then 0 else (hash key).toNat % shards.toNat := by
  unfold pick
  split
  · rfl
  · next hpos =>
    have hlt : (hash key).toNat % shards.toNat < 2 ^ 32 := by
      have hshards : 0 < shards.toNat :=
        Nat.pos_of_ne_zero fun hzero => hpos (UInt32.toNat_inj.mp hzero)
      exact Nat.lt_trans (Nat.mod_lt _ hshards) shards.toNat_lt
    rw [UInt64.toNat_toUInt32, UInt64.toNat_mod, UInt32.toNat_toUInt64, Nat.mod_eq_of_lt hlt]

theorem pick_of_le_one (hash : α → UInt64) (key : α) (h : shards ≤ 1) :
    pick hash key shards = 0 := by
  refine UInt32.toNat_inj.mp ?_
  rw [pick_toNat]
  split
  · rfl
  · next hpos =>
    have hone : shards.toNat = 1 := by
      have hle : shards.toNat ≤ 1 := UInt32.le_iff_toNat_le.mp h
      have hzero : shards.toNat ≠ 0 := fun hzero => hpos (UInt32.toNat_inj.mp hzero)
      omega
    rw [hone, Nat.mod_one]
    rfl

theorem pick_of_lt (hash : α → UInt64) (key : α) (h : (hash key).toNat < shards.toNat) :
    (pick hash key shards).toNat = (hash key).toNat := by
  rw [pick_toNat, if_neg, Nat.mod_eq_of_lt h]
  rintro rfl
  exact Nat.not_lt_zero _ h

/-- Different keys are told apart by some hash, unless the second side has one shard. -/
theorem le_one_of_agree [DecidableEq α] {x y : α} {n m : UInt32} (hne : x ≠ y)
    (h : ∀ hash : α → UInt64, pick hash x n = pick hash y m) : m ≤ 1 := by
  by_contra hm
  have hlt : 1 < m.toNat := by
    have := mt UInt32.le_iff_toNat_le.mpr hm
    exact Nat.lt_of_not_le this
  have hx := h fun z => if z = y then 1 else 0
  have hy : (pick (fun z => if z = y then 1 else 0) y m).toNat = 1 := by
    rw [pick_of_lt]
    · rw [if_pos rfl]
      rfl
    · rw [if_pos rfl]
      exact hlt
  rw [← hx, pick_toNat] at hy
  split at hy
  · cases hy
  · cases hy

/-- Different numbers of shards are told apart by some hash value, unless they are at most one. -/
theorem le_one_of_agree_lt {x : α} {n m : UInt32} (hlt : n.toNat < m.toNat)
    (h : ∀ hash : α → UInt64, pick hash x n = pick hash x m) : m ≤ 1 := by
  by_contra hm
  have hbig : 1 < m.toNat := by
    have := mt UInt32.le_iff_toNat_le.mpr hm
    exact Nat.lt_of_not_le this
  by_cases hzero : n = 0
  · -- zero shards give 0, the value 1 gives 1
    have hpick := congrArg UInt32.toNat (h fun _ => 1)
    rw [pick_of_lt (fun _ => 1) x hbig, hzero] at hpick
    cases hpick
  · have hvalue : (UInt64.ofNat n.toNat).toNat = n.toNat :=
      UInt64.toNat_ofNat_of_lt (Nat.lt_trans n.toNat_lt (by decide))
    have hpick := congrArg UInt32.toNat (h fun _ => UInt64.ofNat n.toNat)
    have hsmall : (UInt64.ofNat n.toNat).toNat < m.toNat := by
      rw [hvalue]
      exact hlt
    rw [pick_of_lt (fun _ => UInt64.ofNat n.toNat) x hsmall, pick_toNat, if_neg hzero,
      hvalue, Nat.mod_self] at hpick
    exact hzero (UInt32.toNat_inj.mp hpick.symm)

/-- **When two placements agree under every hash.** -/
theorem pick_agree_iff [DecidableEq α] {x y : α} {n m : UInt32} :
    (∀ hash : α → UInt64, pick hash x n = pick hash y m) ↔
      (n ≤ 1 ∧ m ≤ 1) ∨ (n = m ∧ x = y) := by
  constructor
  · intro h
    by_cases hxy : x = y
    · subst hxy
      rcases Nat.lt_trichotomy n.toNat m.toNat with hlt | heq | hgt
      · have hm := le_one_of_agree_lt hlt h
        have hn : n ≤ 1 := UInt32.le_iff_toNat_le.mpr
          (Nat.le_trans hlt.le (UInt32.le_iff_toNat_le.mp hm))
        exact .inl ⟨hn, hm⟩
      · exact .inr ⟨UInt32.toNat_inj.mp heq, rfl⟩
      · have hn := le_one_of_agree_lt hgt fun hash => (h hash).symm
        have hm : m ≤ 1 := UInt32.le_iff_toNat_le.mpr
          (Nat.le_trans hgt.le (UInt32.le_iff_toNat_le.mp hn))
        exact .inl ⟨hn, hm⟩
    · exact .inl ⟨le_one_of_agree (Ne.symm hxy) fun hash => (h hash).symm, le_one_of_agree hxy h⟩
  · rintro (⟨hn, hm⟩ | ⟨rfl, rfl⟩) hash
    · rw [pick_of_le_one hash x hn, pick_of_le_one hash y hm]
    · rfl

end Agree

end BetterMQ
