import BetterMQ.Lib.Reader
import Mathlib.Data.List.Induction

/-!
# NDJSON bodies

`parse_ndjson_stream` reads a body in the chunks in which it arrives and keeps the bytes behind the
last line feed for the next chunk. What it makes of a body does not depend on the chunks.

* **`foldlM_feed`** — after any chunks the lines read and the bytes kept are the segments of what
  has arrived, cut at its line feeds;
* **`chunks_do_not_matter`** — two ways to cut a body are both rejected or give the same requests,
  those of the lines of the body that are not blank.
-/

namespace BetterMQ

open List

namespace Ndjson

variable {R V : Type}

/-- `serde_json` on the lines of a body. -/
structure Serde (R V : Type) where
  fromSlice : Bytes → Option R
  valueFromSlice : Bytes → Except String V
  /-- `body` under the name `payload`, in an object that has no `payload`. -/
  renameBody : V → V
  fromValue : V → Except String R

def maxHtBatchMessages : Nat := 1000

def maxBatchBytes : Nat := 8 * 1024 * 1024

/-- What `parse_ndjson_record` makes of a line, without the line number in its error. -/
def decodeRecord (serde : Serde R V) (line : Bytes) : Except String R :=
  match serde.fromSlice line with
  | some request => .ok request
  | none => (serde.valueFromSlice line).bind fun value => serde.fromValue (serde.renameBody value)

def parseNdjsonRecord (serde : Serde R V) (line : Bytes) (lineNumber : Nat) : Except String R :=
  (decodeRecord serde line).mapError fun error =>
    s!"invalid NDJSON record at line {lineNumber}: {error}"

def isAsciiWhitespace (b : UInt8) : Bool := b == 32 || b == 9 || b == 10 || b == 12 || b == 13

/-- `strip_suffix(b"\r")`. -/
def stripCr (line : Bytes) : Bytes := if line.getLast? = some 13 then line.dropLast else line

/-- A line that is not blank: one more request, unless there are too many. -/
def pushRecord (serde : Serde R V) (messages : List R) (line : Bytes) (lineNumber : Nat) :
    Except String (List R) :=
  if maxHtBatchMessages ≤ messages.length then
    .error s!"NDJSON batch exceeds max size of {maxHtBatchMessages}"
  else (parseNdjsonRecord serde (stripCr line) lineNumber).map fun request => messages ++ [request]

structure Stream (R : Type) where
  pending : Bytes
  messages : List R
  total : Nat
  lineNumber : Nat

section

variable (serde : Serde R V)

/-- A line that ends in a line feed. -/
def readLine (s : List R × Nat) (line : Bytes) : Except String (List R × Nat) :=
  if (stripCr line).all isAsciiWhitespace then .ok (s.1, s.2 + 1)
  else (pushRecord serde s.1 line (s.2 + 1)).map fun messages => (messages, s.2 + 1)

/-- One chunk. The loop takes the lines out of `pending` at their line feeds, what follows the last
one stays. `total` is a `usize` and saturates. -/
def feed (s : Stream R) (chunk : Bytes) : Except String (Stream R) :=
  let total := min (s.total + chunk.length) (2 ^ 64 - 1)
  let segments := (s.pending ++ chunk).splitOn 10
  if maxBatchBytes < total then .error s!"NDJSON batch exceeds max bytes of {maxBatchBytes}"
  else (segments.dropLast.foldlM (readLine serde) (s.messages, s.lineNumber)).map
    fun read => ⟨segments.getLastD [], read.1, total, read.2⟩

/-- What follows the last line feed of the body. -/
def readRest (s : Stream R) : Except String (List R) :=
  if s.pending.all isAsciiWhitespace then .ok s.messages
  else pushRecord serde s.messages s.pending (s.lineNumber + 1)

def parseNdjsonStream (chunks : List Bytes) : Except String (List R) := do
  let s ← chunks.foldlM (feed serde) ⟨[], [], 0, 0⟩
  let messages ← readRest serde s
  if messages.isEmpty then .error "batch must contain at least one message" else .ok messages

/-- The requests of a whole body: of each of its lines that is not blank. -/
def bodyRequests (body : Bytes) : Option (List R) :=
  ((body.splitOn 10).filter fun line => !line.all isAsciiWhitespace).mapM fun line =>
    (decodeRecord serde (stripCr line)).toOption

end

/-! ## Lines -/

variable (serde : Serde R V) {messages : List R} {lines : List Bytes}

/-- What both loops do with a line, whatever its number. -/
def push (messages : List R) (line : Bytes) : Option (List R) :=
  if line.all isAsciiWhitespace then some messages
  else if maxHtBatchMessages ≤ messages.length then none
  else (decodeRecord serde (stripCr line)).toOption.map fun request => messages ++ [request]

theorem stripCr_all (line : Bytes) :
    (stripCr line).all isAsciiWhitespace = line.all isAsciiWhitespace := by
  unfold stripCr
  split
  · next hlast =>
    obtain ⟨front, rfl⟩ := getLast?_eq_some_iff.mp hlast
    simp [isAsciiWhitespace]
  · rfl

theorem toOption_bind {ε α β : Type} (x : Except ε α) (f : α → Except ε β) :
    (x >>= f).toOption = x.toOption.bind fun a => (f a).toOption := by
  cases x <;> rfl

theorem toOption_map {ε α β : Type} (x : Except ε α) (f : α → β) :
    (x.map f).toOption = x.toOption.map f := by
  cases x <;> rfl

theorem pushRecord_toOption (line : Bytes) (n : Nat) :
    (if line.all isAsciiWhitespace then .ok messages
      else pushRecord serde messages line n).toOption = push serde messages line := by
  unfold pushRecord push parseNdjsonRecord
  split
  · rfl
  · split
    · rfl
    · cases decodeRecord serde (stripCr line) <;> rfl

theorem readLines_toOption (lines : List Bytes) (n : Nat) :
    (lines.foldlM (readLine serde) (messages, n)).toOption
      = (lines.foldlM (push serde) messages).map (·, n + lines.length) := by
  induction lines generalizing messages n with
  | nil => rfl
  | cons line lines ih =>
    have hline : (readLine serde (messages, n) line).toOption
        = (push serde messages line).map (·, n + 1) := by
      rw [← pushRecord_toOption serde line (n + 1), readLine, stripCr_all]
      split
      · rfl
      · cases pushRecord serde messages line (n + 1) <;> rfl
    rw [foldlM_cons, foldlM_cons, toOption_bind, hline, length_cons]
    cases push serde messages line with
    | none => rfl
    | some messages => rw [← Nat.add_assoc, Nat.add_right_comm]; exact ih (n + 1)

/-- What is pushed are the requests of the lines. -/
theorem requests_of_push {messages' : List R}
    (h : lines.foldlM (push serde) messages = some messages') :
    ((lines.filter fun line => !line.all isAsciiWhitespace).mapM fun line =>
      (decodeRecord serde (stripCr line)).toOption).map (messages ++ ·) = some messages' := by
  induction lines generalizing messages with
  | nil => simpa using h
  | cons line lines ih =>
    obtain ⟨messages₁, hline, hlines⟩ := Option.bind_eq_some_iff.mp h
    have hrest := ih hlines
    unfold push at hline
    split at hline
    · next hblank =>
      cases hline
      rwa [filter_cons_of_neg (by simp [hblank])]
    · next hblank =>
      split at hline
      · cases hline
      · obtain ⟨request, hrequest, rfl⟩ := Option.map_eq_some_iff.mp hline
        obtain ⟨requests, hrequests, rfl⟩ := Option.map_eq_some_iff.mp hrest
        rw [filter_cons_of_pos (by simp [hblank]), mapM_cons, hrequest, hrequests]
        simp

/-! ## Chunks -/

/-- Cutting continues in the segment behind the last line feed. -/
theorem splitOn_append (xs ys : Bytes) :
    (xs ++ ys).splitOn 10
      = (xs.splitOn 10).dropLast ++ ((xs.splitOn 10).getLastD [] ++ ys).splitOn 10 := by
  unfold List.splitOn
  induction xs with
  | nil => simp
  | cons x xs ih =>
    have hne := splitOnP_ne_nil (· == 10) xs
    rw [cons_append, splitOnP_cons_eq_if_modifyHead, splitOnP_cons_eq_if_modifyHead, ih]
    obtain ⟨first, rest, hxs⟩ := exists_cons_of_ne_nil hne
    rw [hxs]
    split
    · simp
    · next hx =>
      cases rest with
      | nil => simp [splitOnP_cons_eq_if_modifyHead, hx]
      | cons second rest => simp

theorem exists_segments (body : Bytes) : ∃ lines rest, body.splitOn 10 = lines ++ [rest] := by
  obtain ⟨lines, rest, h⟩ := (eq_nil_or_concat (body.splitOn 10)).resolve_left (splitOnP_ne_nil _ _)
  exact ⟨lines, rest, by rw [h, concat_eq_append]⟩

/-- **One chunk.** -/
theorem feed_toOption {s : Stream R} {chunk rest : Bytes}
    (h : (s.pending ++ chunk).splitOn 10 = lines ++ [rest]) :
    (feed serde s chunk).toOption
      = if s.total + chunk.length ≤ maxBatchBytes then
          (lines.foldlM (push serde) s.messages).map fun messages =>
            ⟨rest, messages, s.total + chunk.length, s.lineNumber + lines.length⟩
        else none := by
  have hmax : maxBatchBytes < 2 ^ 64 - 1 := by decide
  rw [feed, h, dropLast_concat, getLastD_concat]
  split
  · rw [if_neg (by omega)]
    rfl
  · rw [if_pos (by omega), toOption_map, readLines_toOption, Option.map_map, min_eq_left (by omega)]
    rfl

/-- **All chunks**: what is read and kept of a body. -/
theorem foldlM_feed (chunks : List Bytes) :
    (chunks.foldlM (feed serde) ⟨[], [], 0, 0⟩).toOption
      = if chunks.flatten.length ≤ maxBatchBytes then
          ((chunks.flatten.splitOn 10).dropLast.foldlM (push serde) []).map fun messages =>
            ⟨(chunks.flatten.splitOn 10).getLastD [], messages, chunks.flatten.length,
              (chunks.flatten.splitOn 10).dropLast.length⟩
        else none := by
  induction chunks using List.reverseRecOn with
  | nil => rfl
  | append_singleton chunks chunk ih =>
    obtain ⟨lines, rest, hsegments⟩ := exists_segments
      ((chunks.flatten.splitOn 10).getLastD [] ++ chunk)
    rw [foldlM_append, toOption_bind, ih, flatten_append, flatten_singleton,
      length_append, splitOn_append, hsegments, ← append_assoc, dropLast_concat,
      getLastD_concat, foldlM_append, length_append]
    simp only [foldlM_cons, foldlM_nil, bind_pure]
    split
    · cases (chunks.flatten.splitOn 10).dropLast.foldlM (push serde) [] with
      | none => exact (ite_self _).symm
      | some messages => exact feed_toOption serde hsegments
    · rw [if_neg (by omega)]
      rfl

/-- **What is made of a body** depends on the body. -/
theorem parseNdjsonStream_toOption (chunks : List Bytes) :
    (parseNdjsonStream serde chunks).toOption
      = if chunks.flatten.length ≤ maxBatchBytes then
          ((chunks.flatten.splitOn 10).foldlM (push serde) []).bind fun messages =>
            if messages.isEmpty then none else some messages
        else none := by
  obtain ⟨lines, rest, hsegments⟩ := exists_segments chunks.flatten
  have hrest : ∀ s : Stream R, (readRest serde s >>= fun messages => if messages.isEmpty then
      .error "batch must contain at least one message" else .ok messages).toOption
      = (push serde s.messages s.pending).bind fun messages =>
          if messages.isEmpty then none else some messages := by
    intro s
    rw [toOption_bind, readRest, pushRecord_toOption]
    congr 1
    funext messages
    split <;> rfl
  unfold parseNdjsonStream
  rw [toOption_bind, foldlM_feed, hsegments, dropLast_concat, getLastD_concat, foldlM_append]
  simp only [hrest, foldlM_cons, foldlM_nil, bind_pure]
  split
  · cases lines.foldlM (push serde) [] <;> rfl
  · rfl

/-- **Chunks do not matter.** -/
theorem chunks_do_not_matter {chunks chunks' : List Bytes} (h : chunks.flatten = chunks'.flatten) :
    (parseNdjsonStream serde chunks).toOption = (parseNdjsonStream serde chunks').toOption ∧
      ∀ messages, parseNdjsonStream serde chunks = .ok messages →
        bodyRequests serde chunks.flatten = some messages := by
  refine ⟨by rw [parseNdjsonStream_toOption, parseNdjsonStream_toOption, h], fun ms hok => ?_⟩
  have hsome := parseNdjsonStream_toOption serde chunks
  rw [hok] at hsome
  split at hsome
  · obtain ⟨pushed, hpushed, hsome⟩ := Option.bind_eq_some_iff.mp hsome.symm
    split at hsome
    · cases hsome
    · cases hsome
      simpa [bodyRequests] using requests_of_push serde hpushed
  · cases hsome

/-- Lines of one byte, each the number of its code. -/
def codes : Serde Nat Unit :=
  ⟨fun line => line.head?.map UInt8.toNat, fun _ => .error "", id, fun _ => .error ""⟩

/-- Two lines, cut behind the line feed and before it. -/
theorem cut_at_line_feed_does_not_matter :
    [[49, 10], [50]].flatten = ([[49], [], [10, 50]] : List Bytes).flatten ∧
      (parseNdjsonStream codes [[49, 10], [50]]).toOption = some [49, 50] ∧
      (parseNdjsonStream codes [[49, 10], [50]]).toOption
        = (parseNdjsonStream codes [[49], [], [10, 50]]).toOption :=
  ⟨rfl, rfl, (chunks_do_not_matter codes rfl).1⟩

end Ndjson

end BetterMQ
