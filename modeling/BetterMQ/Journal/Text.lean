import BetterMQ.Lib.LineJournal
import BetterMQ.Lib.Ordered

/-!
# The texts of journal records

`serde_json` writes a record as a JSON object without line feeds. Of its texts the journals need
that a record reads back, and that neither a text that was cut short nor one that continues another
text is a record: a JSON object is complete exactly when its first brace is closed (`RecordText`).

The records of a catalog whose commands are numbers are such texts (`numberRecords`).
-/

namespace BetterMQ

open LineJournal List

/-- `serde_json` on the records of a journal. -/
structure RecordText (C : Type) where
  toWriter : Record C → Bytes
  fromSlice : Bytes → Option (Record C)
  brace : ∀ r, (toWriter r).head? = some 0x7B
  oneLine : ∀ r, 0x0A ∉ toWriter r
  fromSlice_toWriter : ∀ r, fromSlice (toWriter r) = some r
  fromSlice_torn : ∀ r p, p <+: toWriter r → p ≠ [] → p ≠ toWriter r → fromSlice p = none
  fromSlice_joined : ∀ r r' p, p <+: toWriter r → p ≠ [] → fromSlice (p ++ toWriter r') = none

/-- A line is a record. -/
def RecordText.format {C : Type} (text : RecordText C) : Format C where
  encode := text.toWriter
  parse _ := text.fromSlice
  brace := text.brace
  oneLine := text.oneLine
  parse_encode _ := text.fromSlice_toWriter
  parse_torn _ := text.fromSlice_torn
  parse_joined _ := text.fromSlice_joined

/-! ## The records of a number -/

def ascii (s : String) : Bytes := s.toList.map fun c => UInt8.ofNat c.toNat

def numeral (n : Nat) : Bytes := (Nat.toDigits 10 n).map fun c => UInt8.ofNat c.toNat

def isDigitByte (b : UInt8) : Bool := 48 ≤ b && b ≤ 57

/-- The text of a record whose command is a number. -/
def numberText (r : Record Nat) : Bytes :=
  ascii "\x7b\"version\":" ++ numeral r.version ++
    0x2C :: (ascii "\"sequence\":" ++ numeral r.sequence ++
      0x2C :: (ascii "\"command\":" ++ numeral r.command ++ [0x7D]))

/-- The numerals in a text. -/
def digitRuns (bs : Bytes) : List Bytes := (bs.splitOnP (!isDigitByte ·)).filter (· ≠ [])

def numeralValue (bs : Bytes) : Nat := Nat.ofDigitChars 10 (bs.map fun b => Char.ofNat b.toNat) 0

def readNumberText (bs : Bytes) : Option (Record Nat) :=
  match (digitRuns bs).map numeralValue with
  | [version, sequence, command] =>
    if numberText ⟨version, sequence, command⟩ = bs then some ⟨version, sequence, command⟩ else none
  | _ => none

variable {b : UInt8} {r : Record Nat} {n : Nat} {skipped : Bytes}

theorem isDigitByte_of_mem_numeral (h : b ∈ numeral n) : isDigitByte b := by
  obtain ⟨c, hc, rfl⟩ := mem_map.mp h
  have hdigit := Nat.isDigit_of_mem_toDigits (by decide) (by decide) hc
  obtain ⟨hlow, hhigh⟩ := isDigit_bounds hdigit
  unfold isDigitByte
  rw [Bool.and_eq_true, decide_eq_true_eq, decide_eq_true_eq, UInt8.le_iff_toNat_le,
    UInt8.le_iff_toNat_le, UInt8.toNat_ofNat_of_lt' (hhigh.trans_lt (by decide))]
  exact ⟨hlow, hhigh⟩

theorem numeralValue_numeral (n : Nat) : numeralValue (numeral n) = n := by
  unfold numeralValue numeral
  rw [map_map]
  have hid : ∀ c ∈ Nat.toDigits 10 n, Char.ofNat (UInt8.ofNat c.toNat).toNat = c := by
    intro c hc
    have hdigit := Nat.isDigit_of_mem_toDigits (by decide) (by decide) hc
    obtain ⟨-, hhigh⟩ := isDigit_bounds hdigit
    rw [UInt8.toNat_ofNat_of_lt' (hhigh.trans_lt (by decide)), Char.ofNat_toNat]
  have hmap : (Nat.toDigits 10 n).map ((fun b => Char.ofNat b.toNat) ∘ fun c => UInt8.ofNat c.toNat)
      = Nat.toDigits 10 n := (map_congr_left hid).trans (map_id _)
  rw [hmap]
  exact Nat.ofDigitChars_ten_toDigits

theorem digitRuns_numeral {rest : Bytes} (h : ∀ b ∈ skipped, isDigitByte b = false) (n : Nat)
    (hb : isDigitByte b = false) :
    digitRuns (skipped ++ numeral n ++ b :: rest) = numeral n :: digitRuns rest := by
  unfold digitRuns
  induction skipped with
  | nil =>
    rw [nil_append, splitOnP_append_cons_of_forall_mem (fun b hb => by
      rw [isDigitByte_of_mem_numeral hb]; rfl) b (by rw [hb]; rfl), filter_cons_of_pos]
    simp [numeral, Nat.toDigits_ne_nil]
  | cons b' skipped ih =>
    rw [cons_append, cons_append, splitOnP_cons_eq_if_modifyHead,
      if_pos (by rw [h b' (.head _)]; rfl)]
    exact ih fun b hb => h b (.tail _ hb)

theorem digitRuns_numberText (r : Record Nat) :
    digitRuns (numberText r) = [numeral r.version, numeral r.sequence, numeral r.command] := by
  unfold numberText
  rw [digitRuns_numeral (by decide +kernel) _ (by decide), digitRuns_numeral (by decide +kernel) _
    (by decide), digitRuns_numeral (by decide +kernel) _ (by decide)]
  rfl

theorem readNumberText_numberText (r : Record Nat) : readNumberText (numberText r) = some r := by
  unfold readNumberText
  rw [digitRuns_numberText, map_cons, map_cons, map_cons,
    numeralValue_numeral, numeralValue_numeral, numeralValue_numeral]
  exact if_pos rfl

theorem numberText_of_readNumberText {bs : Bytes} (h : readNumberText bs = some r) :
    numberText r = bs := by
  unfold readNumberText at h
  split at h
  · split at h
    · next heq =>
      cases h
      exact heq
    · cases h
  · cases h

theorem count_numeral (hb : isDigitByte b = false) : (numeral n).count b = 0 :=
  count_eq_zero.mpr fun hmem =>
    Bool.false_ne_true (hb.symm.trans (isDigitByte_of_mem_numeral hmem))

theorem count_numberText (r : Record Nat) (hb : isDigitByte b = false) :
    (numberText r).count b = (numberText ⟨0, 0, 0⟩).count b := by
  unfold numberText
  simp only [count_append, count_cons, count_numeral hb]

theorem count_numberText_open (r : Record Nat) : (numberText r).count 0x7B = 1 := by
  rw [count_numberText r (by decide)]
  decide +kernel

theorem count_numberText_close (r : Record Nat) : (numberText r).count 0x7D = 1 := by
  rw [count_numberText r (by decide)]
  decide +kernel

theorem count_close_of_prefix {p : Bytes} (hp : p <+: numberText r) (hcut : p ≠ numberText r) :
    p.count 0x7D = 0 := by
  obtain ⟨after, hafter⟩ := hp
  have hne : after ≠ [] := by
    rintro rfl
    exact hcut ((append_nil p).symm.trans hafter)
  have hlast : after.getLast? = some 0x7D := by
    have h : (p ++ after).getLast? = some 0x7D := by
      rw [hafter]
      unfold numberText
      simp [getLast?_append, getLast?_cons]
    rwa [getLast?_append_of_ne_nil _ hne] at h
  have hcount := count_numberText_close r
  rw [← hafter, count_append] at hcount
  have hpos : 0 < after.count 0x7D :=
    count_pos_iff.mpr (mem_of_getLast? hlast)
  omega

/-- The records of a catalog whose commands are numbers. -/
def numberRecords : RecordText Nat where
  toWriter := numberText
  fromSlice := readNumberText
  brace _ := rfl
  oneLine r := List.count_eq_zero.mp (by
    rw [count_numberText r (by decide)]
    decide +kernel)
  fromSlice_toWriter := readNumberText_numberText
  fromSlice_torn r p hp _ hcut := by
    rw [Option.eq_none_iff_forall_ne_some]
    intro r' hr'
    have hcount := count_numberText_close r'
    rw [numberText_of_readNumberText hr', count_close_of_prefix hp hcut] at hcount
    cases hcount
  fromSlice_joined r r' p hp hne := by
    rw [Option.eq_none_iff_forall_ne_some]
    intro r'' hr''
    -- two opening braces
    have hcount := count_numberText_open r''
    rw [numberText_of_readNumberText hr'', List.count_append, count_numberText_open r'] at hcount
    obtain ⟨b, p, rfl⟩ := List.exists_cons_of_ne_nil hne
    obtain ⟨after, hafter⟩ := hp
    have hbrace : (b :: p ++ after).head? = some 0x7B := by
      rw [hafter]
      rfl
    cases hbrace
    rw [List.count_cons_self] at hcount
    omega

end BetterMQ
