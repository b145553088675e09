import BetterMQ.Lib.Reader
import Mathlib.Data.UInt

/-!
# Wire formats

A `Wire α` is an encoder and a reader that belong together: whatever the encoder writes, the
reader reads back exactly, whatever follows. Formats compose field by field, and the law comes
with the composition.
-/

namespace BetterMQ

open List

variable {ε α β : Type} [EofError ε]

/-- A format for `α`. `put` fails on a value the format cannot hold. -/
structure Wire (ε α : Type) [EofError ε] where
  put : α → Option Bytes
  get : Reader ε α
  exact : ∀ {a : α} {bs : Bytes}, put a = some bs → Reader.Exact get bs a

namespace Wire

/-- A byte list of fixed length. -/
def fixed (ε : Type) [EofError ε] (n : Nat) : Wire ε Bytes where
  put bs := if bs.length = n then some bs else none
  get := Reader.readExact n
  exact {a bs} h := by
    split at h
    · next hlen =>
      cases h
      exact .readExact hlen
    · cases h

/-- The same bytes read as something else. `back` may refuse. -/
def imap (w : Wire ε α) (there : β → α) (back : α → Except ε β)
    (hback : ∀ b, back (there b) = .ok b) : Wire ε β where
  put b := w.put (there b)
  get := do
    let a ← w.get
    Prog.lift (back a)
  exact {b bs} h := by
    have hread := (w.exact h).bind (f := fun a => Prog.lift (back a))
      (by rw [hback]; exact Reader.Exact.lift b)
    rwa [List.append_nil] at hread

/-- One value after another. -/
def pair (v : Wire ε α) (w : Wire ε β) : Wire ε (α × β) where
  put p := do
    let as ← v.put p.1
    let bs ← w.put p.2
    some (as ++ bs)
  get := do
    let a ← v.get
    let b ← w.get
    pure (a, b)
  exact {p bs} h := by
    obtain ⟨as, has, hrest⟩ := Option.bind_eq_some_iff.mp h
    obtain ⟨cs, hcs, hbs⟩ := Option.bind_eq_some_iff.mp hrest
    cases hbs
    have hlast := (w.exact hcs).bind (f := fun b => (pure (p.1, b) : Reader ε (α × β)))
      (Reader.Exact.pure (p.1, p.2))
    rw [List.append_nil] at hlast
    exact (v.exact has).bind hlast

/-! ## Numbers -/

section

variable (ε : Type) [EofError ε]

/-- A little-endian integer of `w` bytes. -/
def le (w : Nat) : Wire ε (Fin (256 ^ w)) :=
  (fixed ε w).imap (fun n => (beBytes w n).reverse)
    (fun bs => .ok (Fin.ofNat (256 ^ w) (beNat bs.reverse))) (by
      intro n
      have hlt : (n : Nat) < 256 ^ w := n.isLt
      rw [List.reverse_reverse, beNat_beBytes_of_lt hlt]
      congr 1
      exact Fin.ext (Nat.mod_eq_of_lt hlt))

def u8 : Wire ε UInt8 :=
  (le ε 1).imap (fun n => n.toFin) (fun n => .ok ⟨⟨n⟩⟩) (fun _ => rfl)

def u32 : Wire ε UInt32 :=
  (le ε 4).imap (fun n => n.toFin) (fun n => .ok ⟨⟨n⟩⟩) (fun _ => rfl)

def u64 : Wire ε UInt64 :=
  (le ε 8).imap (fun n => n.toFin) (fun n => .ok ⟨⟨n⟩⟩) (fun _ => rfl)

def i64 : Wire ε Int64 :=
  (u64 ε).imap (fun n => n.toUInt64) (fun n => .ok ⟨n⟩) (fun _ => rfl)

end

/-! ## Tagged and counted values -/

/-- A value chosen by a tag. -/
def tagged (w : Wire ε α) (there : β → α) (back : α → Option β) (invalid : α → ε)
    (hback : ∀ b, back (there b) = some b) : Wire ε β :=
  w.imap there (fun a => (back a).elim (.error (invalid a)) .ok) (fun b => by rw [hback]; rfl)

/-- `0` for nothing, `1` before a value. -/
def option (w : Wire ε α) (invalid : UInt8 → ε) : Wire ε (Option α) where
  put
    | none => some [0]
    | some a => (w.put a).map fun bs => 1 :: bs
  get := do
    let tag ← (u8 ε).get
    if tag = 0 then pure none
    else if tag = 1 then do
      let a ← w.get
      pure (some a)
    else Prog.fail (invalid tag)
  exact {a bs} h := by
    cases a with
    | none =>
      cases h
      have htag : Reader.Exact (u8 ε).get [0] 0 := (u8 ε).exact rfl
      exact htag.bind (.pure none)
    | some a =>
      obtain ⟨as, has, rfl⟩ := Option.map_eq_some_iff.mp h
      have hvalue := (w.exact has).bind (f := fun a => (pure (some a) : Reader ε (Option α)))
        (.pure (some a))
      rw [List.append_nil] at hvalue
      have htag : Reader.Exact (u8 ε).get [1] 1 := (u8 ε).exact rfl
      exact htag.bind hvalue

/-- Bytes behind their length, a little-endian `u64`. -/
def blob (ε : Type) [EofError ε] : Wire ε Bytes where
  put bs := if h : bs.length < 256 ^ 8 then
      ((le ε 8).put ⟨bs.length, h⟩).map fun len => len ++ bs
    else none
  get := do
    let len ← (le ε 8).get
    Reader.readExact len
  exact {a bs} h := by
    split at h
    · next hlen =>
      obtain ⟨len, hput, rfl⟩ := Option.map_eq_some_iff.mp h
      exact ((le ε 8).exact hput).bind (.readExact rfl)
    · cases h

end Wire

/-! ## Text -/

/-- Decode UTF-8, one character at a time. -/
def decodeUtf8 : Nat → Bytes → Option (List Char)
  | _, [] => some []
  | 0, _ :: _ => none
  | fuel + 1, bs =>
    match ByteArray.utf8DecodeChar? ⟨⟨bs⟩⟩ 0 with
    | none => none
    | some ch => (decodeUtf8 fuel (bs.drop ch.utf8Size)).map (ch :: ·)

theorem utf8DecodeChar?_cons (ch : Char) (rest : Bytes) :
    ByteArray.utf8DecodeChar? ⟨⟨String.utf8EncodeChar ch ++ rest⟩⟩ 0 = some ch := by
  have hcore := ByteArray.utf8DecodeChar?_utf8EncodeChar_append (b := ⟨⟨rest⟩⟩) (c := ch)
  convert hcore using 2
  apply ByteArray.ext
  simp

theorem decodeUtf8_encode {fuel : Nat} (cs : List Char) (hfuel : cs.length ≤ fuel) :
    decodeUtf8 fuel (cs.flatMap String.utf8EncodeChar) = some cs := by
  induction cs generalizing fuel with
  | nil => cases fuel <;> rfl
  | cons ch cs ih =>
    rw [length_cons] at hfuel
    obtain ⟨fuel, rfl⟩ : ∃ k, fuel = k + 1 := ⟨fuel - 1, by omega⟩
    have hdrop : (String.utf8EncodeChar ch ++ cs.flatMap String.utf8EncodeChar).drop ch.utf8Size
        = cs.flatMap String.utf8EncodeChar := by
      rw [← String.length_utf8EncodeChar, drop_left]
    have hne : String.utf8EncodeChar ch ++ cs.flatMap String.utf8EncodeChar ≠ [] :=
      append_ne_nil_of_left_ne_nil String.utf8EncodeChar_ne_nil _
    rw [flatMap_cons, decodeUtf8, utf8DecodeChar?_cons]
    · simp only [hdrop, ih (by omega : cs.length ≤ fuel), Option.map_some]
    · exact hne

theorem utf8_eq_flatMap (s : String) :
    s.toByteArray.data.toList = s.toList.flatMap String.utf8EncodeChar := by
  conv_lhs => rw [← String.ofList_toList (s := s), String.toByteArray_ofList]
  simp [List.utf8Encode]

theorem length_le_utf8 (cs : List Char) : cs.length
    ≤ (cs.flatMap String.utf8EncodeChar).length := by
  induction cs with
  | nil => exact le_rfl
  | cons ch cs ih =>
    have hpos : 0 < (String.utf8EncodeChar ch).length :=
      length_pos_iff.mpr String.utf8EncodeChar_ne_nil
    rw [flatMap_cons, length_append, length_cons]
    omega

/-- Text as its UTF-8 bytes behind their length. -/
def Wire.text (invalid : ε) : Wire ε String :=
  (Wire.blob ε).imap (fun s => s.toByteArray.data.toList)
    (fun bs => (decodeUtf8 bs.length bs).elim (.error invalid) fun cs => .ok (String.ofList cs))
    (by
      intro s
      rw [utf8_eq_flatMap, decodeUtf8_encode _ (length_le_utf8 _)]
      exact congrArg Except.ok String.ofList_toList)

end BetterMQ
