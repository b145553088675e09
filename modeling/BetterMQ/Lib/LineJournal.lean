import BetterMQ.Lib.Reader
import BetterMQ.Lib.Run
import BetterMQ.Lib.SnapshotLog

/-!
# Journals of lines

The files of a `SnapshotLog`: every change is a numbered record, appended to the journal as one
line. Opening reads the snapshot and replays the journal. Blank lines and records that the snapshot
has are skipped; the last line may be unreadable, since an append may have been cut short, any other
one may not. An append that finds the journal full replaces the snapshot and empties the journal,
which takes an unreadable line with it.

* **`load_files`** — opening the files of a log of whole lines loads the log;
* **`load_torn`** — so does opening one with a torn line at its end;
* **`load_joined`** — a line that was appended to a torn one makes the journal unreadable;
* **`Tidy.survives_iff`** — so a journal survives exactly the torn appends that left no byte or all
  of them, or after which nothing is appended or a further append empties the journal.

The text of a record is a parameter, with what holds of the texts of JSON objects.
-/

namespace BetterMQ

open List Option SnapshotLog

namespace LineJournal

/-! ## Records and their lines -/

/-- A record of a journal. -/
structure Record (C : Type) where
  version : Nat
  sequence : Nat
  command : C
  deriving DecidableEq

/-- How records are written, and read after a given sequence number. -/
structure Format (C : Type) where
  encode : Record C → Bytes
  parse : Nat → Bytes → Option (Record C)
  /-- A text begins with a brace. -/
  brace : ∀ r, (encode r).head? = some 0x7B
  oneLine : ∀ r, 0x0A ∉ encode r
  parse_encode : ∀ n r, parse n (encode r) = some r
  /-- A text that was cut short is none. -/
  parse_torn : ∀ n r p, p <+: encode r → p ≠ [] → p ≠ encode r → parse n p = none
  /-- Nor is a text that continues another one. -/
  parse_joined : ∀ n r r' p, p <+: encode r → p ≠ [] → parse n (p ++ encode r') = none

/-- `u8::is_ascii_whitespace`. -/
def isAsciiWhitespace (b : UInt8) : Bool :=
  b == 0x20 || b == 0x09 || b == 0x0A || b == 0x0C || b == 0x0D

inductive Error where
  | unreadable
  | unsupportedVersion (saw expected : Nat)
  deriving DecidableEq

/-! ## Replay -/

/-- A store with a journal. -/
structure Journal (σ C : Type) extends Format C where
  version : Nat
  initial : σ
  apply : σ → C → σ
  /-- The number of the next record, if there is one. -/
  next : Nat → Option Nat
  /-- The numbers below which it is the next number. -/
  limit : Nat
  next_eq : ∀ n < limit, next n = some (n + 1)
  /-- Every append reads the files first. -/
  reload : Bool
  /-- With so many operations and bytes the journal is compacted. -/
  full : Nat → Nat → Bool
  /-- The state has a text, so that it can be written as a snapshot. -/
  saves : σ → Bool

namespace Journal

variable {σ C : Type} (J : Journal σ C)

def replay : List Bytes → LogView σ → Except Error (LogView σ)
  | [], now => .ok now
  | line :: lines, now =>
    if line.all isAsciiWhitespace then replay lines now
    else
      match J.parse now.sequence line with
      | some r =>
        if r.version ≠ J.version then .error (.unsupportedVersion r.version J.version)
        else replay lines (absorb J.apply now (r.sequence, r.command))
      | none => if lines = [] then .ok now else .error .unreadable

end Journal

/-- The files, and what an open store has in memory. -/
structure Store (σ : Type) where
  snapshot : σ
  sequence : Nat
  file : Bytes
  memory : Option (LogView σ)

/-- The pieces of a file between line feeds. -/
def lines (file : Bytes) : List Bytes := file.splitOnP (· == 0x0A)

namespace Journal

variable {σ C : Type} (J : Journal σ C) {cs done : List C} {s' : Store σ} {c : C} {cut n : Nat}
  {new : List (C × CompactFate)} {fate : CompactFate} {p : Bytes} {d : SnapshotLog σ C}

/-- Opening: the snapshot, then the journal. -/
def load (s : Store σ) : Except Error (LogView σ) :=
  J.replay (lines s.file) ⟨s.snapshot, s.sequence, 0⟩

def record (r : Nat × C) : Record C := ⟨J.version, r.1, r.2⟩

/-- The line of a record. -/
def line (sequence : Nat) (c : C) : Bytes := J.encode (J.record (sequence, c)) ++ [0x0A]

/-- What an append starts from. -/
def current (s : Store σ) : Option (LogView σ) :=
  if J.reload then (J.load s).toOption else s.memory

/-- The store with one more record. -/
def appended (s : Store σ) (now : LogView σ) (c : C) (sequence : Nat) : Store σ :=
  { s with
    file := s.file ++ J.line sequence c
    memory := some ⟨J.apply now.value c, sequence, now.operations + 1⟩ }

/-- The snapshot is replaced, then the journal emptied. -/
def compact (s : Store σ) (now : LogView σ) : CompactFate → Store σ
  | .failed => s
  | .snapshot => { s with snapshot := now.value, sequence := now.sequence }
  | .truncated => ⟨now.value, now.sequence, [], some { now with operations := 0 }⟩

def maybeCompact (s : Store σ) (fate : CompactFate) : Store σ :=
  match s.memory with
  | some now =>
    if J.full now.operations s.file.length && J.saves now.value then compact s now fate else s
  | none => s

def append (s : Store σ) (c : C) (fate : CompactFate) : Option (Store σ) :=
  (J.current s).bind fun now => (J.next now.sequence).map fun sequence =>
    J.maybeCompact (J.appended s now c sequence) fate

def appendAll (s : Store σ) (new : List (C × CompactFate)) : Option (Store σ) :=
  new.foldlM (fun s op => J.append s op.1 op.2) s

/-- An append that a crash cut short: so many of its bytes are in the file. -/
def tear (s : Store σ) (c : C) (cut : Nat) : Option (Store σ) :=
  (J.current s).bind fun now => (J.next now.sequence).map fun sequence =>
    { s with file := s.file ++ (J.line sequence c).take cut, memory := none }

/-! ## The machine -/

inductive Event (C : Type) where
  | openStore
  | append (command : C) (fate : CompactFate)
  | crash

def fresh : Store σ := ⟨J.initial, 0, [], none⟩

def step (s : Store σ) : Event C → Option (Store σ)
  | .openStore => (J.load s).toOption.map fun now => { s with memory := some now }
  | .append c fate => J.append s c fate
  | .crash => some { s with memory := none }

/-- The commands that were appended. -/
def Event.commands : List (Event C) → List C := List.filterMap fun
  | .append c _ => some c
  | _ => none

/-- There is a number for the record. -/
def Room (s : Store σ) : Event C → Prop
  | .append _ _ => ∀ now ∈ J.current s, now.sequence < J.limit
  | _ => True

/-! ## Reading lines -/

/-- The lines of records. -/
def text (rs : List (Nat × C)) : Bytes := rs.flatMap fun r => J.line r.1 r.2

/-- The files of a log, with `tail` behind its last line. -/
def files (d : SnapshotLog σ C) (tail : Bytes) (memory : Option (LogView σ)) : Store σ :=
  ⟨d.snapshot, d.sequence, J.text d.journal ++ tail, memory⟩

section Read

variable {J}

theorem encode_ne_nil (r : Record C) : J.encode r ≠ [] := by
  intro h
  have hbrace := J.brace r
  rw [h] at hbrace
  cases hbrace

variable {r : Nat × C} {rs : List (Nat × C)} {memory : Option (LogView σ)}

section

variable (hp : p <+: J.encode (J.record r)) (hne : p ≠ [])

include hp hne

theorem not_blank (rest : Bytes) : ¬(p ++ rest).all isAsciiWhitespace := by
  obtain ⟨b, p, rfl⟩ := exists_cons_of_ne_nil hne
  obtain ⟨after, hafter⟩ := hp
  have hbrace := J.brace (J.record r)
  rw [← hafter] at hbrace
  cases hbrace
  intro hall
  cases (all_eq_true.mp hall) 0x7B (.head _)

theorem not_blank_self : ¬p.all isAsciiWhitespace := by
  have h := not_blank hp hne []
  rwa [append_nil] at h

end

theorem replay_encode (r : Nat × C) (ls : List Bytes) (now : LogView σ) :
    J.replay (J.encode (J.record r) :: ls) now = J.replay ls (absorb J.apply now r) := by
  rw [replay, if_neg (not_blank_self (prefix_refl _) (encode_ne_nil _)), J.parse_encode]
  exact if_neg (not_not_intro rfl)

theorem replay_records (rs : List (Nat × C)) (ls : List Bytes) (now : LogView σ) :
    J.replay (rs.map (J.encode ∘ J.record) ++ ls) now
      = J.replay ls (rs.foldl (absorb J.apply) now) := by
  induction rs generalizing now with
  | nil => rfl
  | cons r rs ih => exact (replay_encode r _ now).trans (ih _)

theorem ne_lineFeed (hp : 0x0A ∉ p) : ∀ b ∈ p, (b == 0x0A) = false :=
  fun _ hb => beq_eq_false_iff_ne.mpr fun heq => hp (heq ▸ hb)

theorem lines_first (hp : 0x0A ∉ p) (rest : Bytes) : lines (p ++ 0x0A :: rest) = p :: lines rest :=
  splitOnP_append_cons_of_forall_mem (ne_lineFeed hp) _ rfl rest

theorem lines_last (hp : 0x0A ∉ p) : lines p = [p] :=
  splitOnP_eq_singleton (ne_lineFeed hp)

theorem text_cons (r : Nat × C) (rs : List (Nat × C)) :
    J.text (r :: rs) = J.encode (J.record r) ++ 0x0A :: J.text rs := by
  rw [text, flatMap_cons, line, append_assoc]
  rfl

theorem lines_text (rs : List (Nat × C)) (rest : Bytes) :
    lines (J.text rs ++ rest) = rs.map (J.encode ∘ J.record) ++ lines rest := by
  induction rs with
  | nil => rfl
  | cons r rs ih =>
    rw [text_cons, append_assoc, cons_append, lines_first (J.oneLine _), ih]
    rfl

theorem load_tail (tail : Bytes) :
    J.load (J.files d tail memory) = J.replay (lines tail) (d.load J.apply) := by
  rw [Journal.load, files, lines_text, replay_records]
  rfl

/-- **Whole lines.** -/
theorem load_files : J.load (J.files d [] memory) = .ok (d.load J.apply) := load_tail []

theorem newline_not_mem_cut (hp : p <+: J.encode (J.record r)) : 0x0A ∉ p :=
  fun hmem => J.oneLine _ (hp.subset hmem)

/-- **A torn line at the end** is no record, unless only its line feed is missing. -/
theorem load_torn (hp : p <+: J.encode (J.record r)) (hne : p ≠ []) :
    J.load (J.files d p memory) = .ok (if p = J.encode (J.record r)
      then absorb J.apply (d.load J.apply) r else d.load J.apply) := by
  rw [load_tail, lines_last (newline_not_mem_cut hp)]
  split
  · next heq =>
    rw [heq, replay_encode]
    rfl
  · next hcut =>
    rw [replay, if_neg (not_blank_self hp hne), J.parse_torn _ _ p hp hne hcut]
    rfl

/-- **A line that continues a torn one**: the journal cannot be read any more. -/
theorem load_joined (hp : p <+: J.encode (J.record r)) (hne : p ≠ []) (hrs : rs ≠ []) :
    J.load (J.files d (p ++ J.text rs) memory) = .error .unreadable := by
  obtain ⟨r', rs, rfl⟩ := exists_cons_of_ne_nil hrs
  have hline : 0x0A ∉ p ++ J.encode (J.record r') := fun hmem =>
    (mem_append.mp hmem).elim (newline_not_mem_cut hp) (J.oneLine _)
  rw [load_tail, text_cons, ← append_assoc, lines_first hline, replay,
    if_neg (not_blank hp hne _), J.parse_joined _ _ _ p hp hne]
  exact if_neg (splitOnP_ne_nil _ _)

end Read

/-! ## Runs of whole operations -/

/-- A store whose operations were all completed: its files are those of a log with the commands
`cs`, numbered up to `n`. -/
structure Tidy (s : Store σ) (cs : List C) (n : Nat) : Prop where
  files : ∃ d, s = J.files d [] s.memory ∧ d.UpTo J.apply n ∧
    (d.load J.apply).value = cs.foldl J.apply J.initial
  memory : ∀ now ∈ s.memory, now.sequence = n ∧ now.value = cs.foldl J.apply J.initial

section Tidy

variable {J} {s : Store σ} {now : LogView σ}

theorem Tidy.load (h : J.Tidy s cs n) : ∃ now, J.load s = .ok now ∧
    now.sequence = n ∧ now.value = cs.foldl J.apply J.initial := by
  obtain ⟨d, hs, hd, hvalue⟩ := h.files
  exact ⟨_, hs ▸ load_files, hd.last, hvalue⟩

theorem Tidy.current (h : J.Tidy s cs n) (hnow : J.current s = some now) :
    now.sequence = n ∧ now.value = cs.foldl J.apply J.initial := by
  unfold Journal.current at hnow
  split at hnow
  · obtain ⟨loaded, hload, hloaded⟩ := h.load
    rw [hload] at hnow
    cases hnow
    exact hloaded
  · exact h.memory now hnow

theorem tidy_fresh : J.Tidy J.fresh [] 0 where
  files := ⟨⟨J.initial, 0, []⟩, rfl, ⟨rfl, nofun⟩, rfl⟩
  memory _ h := by cases h

theorem text_append (rs rs' : List (Nat × C)) : J.text (rs ++ rs') = J.text rs ++ J.text rs' :=
  flatMap_append

theorem text_singleton (n : Nat) (c : C) : J.text [(n, c)] = J.line n c := append_nil _

/-- What is in memory after the append of `c`. -/
def after (now : LogView σ) (c : C) : LogView σ :=
  ⟨J.apply now.value c, now.sequence + 1, now.operations + 1⟩

theorem append_eq (hnow : J.current s = some now) (hroom : now.sequence < J.limit) (c : C)
    (fate : CompactFate) : ∃ fate', J.append s c fate
      = some (compact (J.appended s now c (now.sequence + 1)) (J.after now c) fate') := by
  rw [Journal.append, hnow, bind_some, J.next_eq _ hroom, map_some]
  show ∃ fate', some (ite _ _ _) = _
  split
  · exact ⟨fate, rfl⟩
  · exact ⟨.failed, rfl⟩

theorem Tidy.appended (h : J.Tidy s cs n) (hnow : J.current s = some now) (c : C) :
    J.Tidy (J.appended s now c (now.sequence + 1)) (cs ++ [c]) (n + 1) := by
  obtain ⟨rfl, hvalue⟩ := h.current hnow
  obtain ⟨d, hs, hd, hload⟩ := h.files
  refine ⟨⟨d.append now.sequence c, ?_, hd.append c, ?_⟩, ?_⟩
  · rw [hs]
    simp [Journal.appended, Journal.files, SnapshotLog.append, text_append, text_singleton]
  · rw [load_append hd, foldl_concat, hload]
  · rintro _ ⟨⟩
    exact ⟨rfl, by rw [hvalue, foldl_concat]⟩

theorem tidy_truncated (hvalue : now.value = cs.foldl J.apply J.initial) :
    J.Tidy (compact s now .truncated) cs now.sequence where
  files := ⟨⟨now.value, now.sequence, []⟩, rfl, ⟨rfl, nofun⟩, hvalue⟩
  memory _ hnow := by
    cases hnow
    exact ⟨rfl, hvalue⟩

theorem Tidy.compact (h : J.Tidy s cs n) (hnow : now ∈ s.memory) (fate : CompactFate) :
    J.Tidy (compact s now fate) cs n := by
  obtain ⟨rfl, hvalue⟩ := h.memory now hnow
  obtain ⟨d, hs, hd, hload⟩ := h.files
  cases fate with
  | failed => exact h
  | snapshot =>
    refine ⟨⟨d.compact now.sequence now.value .snapshot, ?_, hd.compact _ _, ?_⟩, h.memory⟩
    · rw [hs]
      rfl
    · rw [load_compact hd now.value CompactFate.noConfusion]
      exact hvalue
  | truncated => exact tidy_truncated hvalue

theorem Tidy.append (h : J.Tidy s cs n) (hnow : J.current s = some now) (hroom : n < J.limit)
    (c : C) (fate : CompactFate) :
    ∃ s', J.append s c fate = some s' ∧ J.Tidy s' (cs ++ [c]) (n + 1) ∧ s'.memory.isSome := by
  obtain ⟨fate', happend⟩ := append_eq hnow ((h.current hnow).1 ▸ hroom) c fate
  refine ⟨_, happend, (h.appended hnow c).compact rfl fate', ?_⟩
  cases fate' <;> rfl

theorem step_openStore (hload : J.load s = .ok now) :
    J.step s .openStore = some { s with memory := some now } := by
  rw [Journal.step, hload]
  rfl

section

variable (h : J.Tidy s cs n)

include h

theorem Tidy.withMemory {memory : Option (LogView σ)}
    (hmemory : ∀ now ∈ memory, now.sequence = n ∧ now.value = cs.foldl J.apply J.initial) :
    J.Tidy { s with memory } cs n := by
  obtain ⟨d, hs, hd⟩ := h.files
  exact ⟨⟨d, by rw [hs]; rfl, hd⟩, hmemory⟩

theorem Tidy.opened (hload : J.load s = .ok now) : J.Tidy { s with memory := some now } cs n := by
  obtain ⟨loaded, hloaded, hvalue⟩ := h.load
  cases Except.ok.inj (hload.symm.trans hloaded)
  refine h.withMemory ?_
  rintro _ ⟨⟩
  exact hvalue

theorem Tidy.closed : J.Tidy { s with memory := none } cs n := h.withMemory nofun

theorem Tidy.step {e : Event C} (hroom : J.Room s e) (hstep : J.step s e = some s') :
    ∃ n', J.Tidy s' (cs ++ Event.commands [e]) n' := by
  cases e with
  | openStore =>
    obtain ⟨now, hload, -⟩ := h.load
    cases Option.some.inj ((step_openStore hload).symm.trans hstep)
    exact ⟨n, (append_nil cs).symm ▸ h.opened hload⟩
  | append c fate =>
    obtain ⟨now, hnow, -⟩ := bind_eq_some_iff.mp hstep
    obtain ⟨s₁, happend, h₁, -⟩ := h.append hnow ((h.current hnow).1 ▸ hroom now hnow) c fate
    cases Option.some.inj (happend.symm.trans hstep)
    exact ⟨_, h₁⟩
  | crash =>
    cases hstep
    exact ⟨n, (append_nil cs).symm ▸ h.closed⟩

/-- **Runs of whole operations**: everything that was appended is there. -/
theorem Tidy.run {events : List (Event C)} (hrun : Run J.step J.Room s events s') :
    ∃ n', J.Tidy s' (cs ++ Event.commands events) n' := by
  induction hrun generalizing cs n with
  | nil => exact ⟨n, (append_nil cs).symm ▸ h⟩
  | @cons s s₁ s' e events hroom hstep _ ih =>
    obtain ⟨n₁, h₁⟩ := h.step hroom hstep
    obtain ⟨n', h'⟩ := ih h₁
    have hsplit : Event.commands ([e] ++ events) = Event.commands [e] ++ Event.commands events :=
      filterMap_append
    rw [append_assoc, ← hsplit] at h'
    exact ⟨n', h'⟩

theorem Tidy.appendAll (hmemory : s.memory.isSome) (hroom : n + new.length ≤ J.limit) :
    ∃ s' n', J.appendAll s new = some s' ∧ J.Tidy s' (cs ++ new.map Prod.fst) n' := by
  induction new generalizing s cs n with
  | nil => exact ⟨s, n, rfl, (append_nil cs).symm ▸ h⟩
  | cons op new ih =>
    rw [length_cons] at hroom
    obtain ⟨now, hnow⟩ : ∃ now, J.current s = some now := by
      unfold Journal.current
      split
      · obtain ⟨now, hload, -⟩ := h.load
        exact ⟨now, by rw [hload]; rfl⟩
      · exact isSome_iff_exists.mp hmemory
    obtain ⟨s₁, happend, h₁, hmemory₁⟩ := h.append hnow (by omega) op.1 op.2
    obtain ⟨s', n', hall, h'⟩ := ih h₁ hmemory₁ (by omega)
    rw [append_assoc] at h'
    refine ⟨s', n', ?_, h'⟩
    rw [Journal.appendAll, foldlM_cons, happend]
    exact hall

end

end Tidy

/-! ## Torn appends -/

/-- Opening succeeds and gives back these commands. -/
def Opens (s : Store σ) (cs : List C) : Prop :=
  ∃ now, J.load s = .ok now ∧ now.value = cs.foldl J.apply J.initial

/-- The journal survives a torn append: opening after the crash gives back all earlier commands, and
maybe the torn one; opening after further appends gives back these, followed by the new ones. -/
def Survives (s : Store σ) (done : List C) (c : C) (cut : Nat) (new : List (C × CompactFate)) :
    Prop :=
  ∃ kept s₁ s₂ s₃, (kept = done ∨ kept = done ++ [c]) ∧ J.tear s c cut = some s₁ ∧
    J.Opens s₁ kept ∧ J.step s₁ .openStore = some s₂ ∧ J.appendAll s₂ new = some s₃ ∧
    J.Opens s₃ (kept ++ new.map Prod.fst)

/-- One of the appends finds the journal full and empties it. -/
def Empties (s : Store σ) : List (C × CompactFate) → Prop
  | [] => False
  | (c, fate) :: new => ∃ s', J.append s c fate = some s' ∧ (s'.file = [] ∨ Empties s' new)

/-- The journal is emptied by an append after the torn one. -/
def Repaired (s : Store σ) (c : C) (cut : Nat) (new : List (C × CompactFate)) : Prop :=
  ∃ s₁ s₂, J.tear s c cut = some s₁ ∧ J.step s₁ .openStore = some s₂ ∧ J.Empties s₂ new

/-- A store with a torn line, and the records `rs` written behind it. An append that does not fail
goes on from the commands `cs`. -/
structure Torn (s : Store σ) (rs : List (Nat × C)) (cs : List C) (n : Nat) : Prop where
  files : ∃ d r p, p <+: J.encode (J.record r) ∧ p ≠ [] ∧ s = J.files d (p ++ J.text rs) s.memory
  current : ∀ now ∈ J.current s, now.sequence = n ∧ now.value = cs.foldl J.apply J.initial

section Torn

variable {J} {s : Store σ} {now : LogView σ} {rs : List (Nat × C)}

theorem Tidy.opens (h : J.Tidy s cs n) : J.Opens s cs := by
  obtain ⟨now, hload, -, hvalue⟩ := h.load
  exact ⟨now, hload, hvalue⟩

section

variable (h : J.Torn s rs cs n)

include h

theorem Torn.file_ne_nil : s.file ≠ [] := by
  obtain ⟨d, r, p, -, hne, hs⟩ := h.files
  rw [hs]
  simp [Journal.files, hne]

theorem Torn.not_opens (hrs : rs ≠ []) : ¬J.Opens s cs := by
  obtain ⟨d, r, p, hp, hne, hs⟩ := h.files
  rintro ⟨now, hload, -⟩
  rw [hs, load_joined hp hne hrs] at hload
  cases hload

/-- An append to a torn line is a line that cannot be read, or else empties the journal. -/
theorem Torn.append (hroom : n < J.limit) (happend : J.append s c fate = some s') :
    (∃ rs', rs' ≠ [] ∧ J.Torn s' rs' (cs ++ [c]) (n + 1)) ∨
      s'.file = [] ∧ J.Tidy s' (cs ++ [c]) (n + 1) ∧ s'.memory.isSome := by
  obtain ⟨now, hnow, -⟩ := bind_eq_some_iff.mp happend
  obtain ⟨rfl, hvalue⟩ := h.current now hnow
  obtain ⟨fate', heq⟩ := append_eq hnow hroom c fate
  cases Option.some.inj (heq.symm.trans happend)
  have hafter : (J.after now c).value = (cs ++ [c]).foldl J.apply J.initial := by
    rw [foldl_concat, ← hvalue]
    rfl
  obtain ⟨d, r, p, hp, hne, hs⟩ := h.files
  have hrs' : rs ++ [(now.sequence + 1, c)] ≠ [] := by simp
  -- whatever became of the snapshot, an append that goes on has it in memory
  have htorn (d : SnapshotLog σ C) : J.Torn (J.files d (p ++ J.text (rs ++ [(now.sequence + 1, c)]))
      (some (J.after now c))) (rs ++ [(now.sequence + 1, c)]) (cs ++ [c]) (now.sequence + 1) := by
    refine ⟨⟨d, r, p, hp, hne, rfl⟩, fun now' hnow' => ?_⟩
    unfold Journal.current at hnow'
    rw [load_joined hp hne hrs'] at hnow'
    split at hnow' <;> cases hnow'
    exact ⟨rfl, hafter⟩
  have hfiles : J.appended s now c (now.sequence + 1)
      = J.files d (p ++ J.text (rs ++ [(now.sequence + 1, c)])) (some (J.after now c)) := by
    rw [hs]
    simp [Journal.appended, Journal.files, after, text_append, text_singleton]
  rw [hfiles]
  cases fate' with
  | failed => exact .inl ⟨_, hrs', htorn d⟩
  | snapshot => exact .inl ⟨_, hrs', htorn ⟨_, _, d.journal⟩⟩
  | truncated => exact .inr ⟨rfl, tidy_truncated hafter, rfl⟩

/-- **Further appends**: the journal can be read after them exactly if one of them emptied it. -/
theorem Torn.opens_iff (hroom : n + new.length ≤ J.limit) (hsome : rs ≠ [] ∨ new ≠ []) :
    (∃ s', J.appendAll s new = some s' ∧ J.Opens s' (cs ++ new.map Prod.fst)) ↔
      J.Empties s new := by
  induction new generalizing s rs cs n with
  | nil =>
    refine iff_of_false ?_ not_false
    rintro ⟨s', hs', hopens⟩
    cases hs'
    exact h.not_opens (hsome.resolve_right (not_not_intro rfl)) (append_nil cs ▸ hopens)
  | cons op new ih =>
    rw [length_cons] at hroom
    unfold Empties Journal.appendAll
    rw [foldlM_cons]
    cases happend : J.append s op.1 op.2 with
    | none => simp
    | some s₁ =>
      have hcs : cs ++ (op :: new).map Prod.fst = cs ++ [op.1] ++ new.map Prod.fst := by simp
      rw [hcs]
      rcases h.append (by omega) happend with ⟨rs', hrs', h₁⟩ | ⟨hfile, h₁, hmemory⟩
      · have hiff := ih h₁ (by omega) (.inl hrs')
        simpa [h₁.file_ne_nil, Journal.appendAll] using hiff
      · have hroom₁ : n + 1 + new.length ≤ J.limit := by omega
        obtain ⟨s', n', hall, h'⟩ := h₁.appendAll hmemory hroom₁
        exact iff_of_true ⟨s', hall, h'.opens⟩ ⟨s₁, rfl, .inl hfile⟩

end

theorem tear_eq (hnow : J.current s = some now) (hroom : now.sequence < J.limit)
    (c : C) (cut : Nat) :
    J.tear s c cut
      = some { s with
        file := s.file ++ (J.line (now.sequence + 1) c).take cut, memory := none } := by
  rw [tear, hnow, bind_some, J.next_eq _ hroom, map_some]

/-- Reopening and further appends, when the crash left whole lines. -/
theorem Tidy.survives {s₁ : Store σ} (h₁ : J.Tidy s₁ cs n) (htear : J.tear s c cut = some s₁)
    (hdone : cs = done ∨ cs = done ++ [c]) (hroom : n + new.length ≤ J.limit) :
    J.Survives s done c cut new := by
  obtain ⟨now, hload, -⟩ := h₁.load
  obtain ⟨s₃, n₃, hall, h₃⟩ := (h₁.opened hload).appendAll rfl hroom
  exact ⟨cs, s₁, _, s₃, hdone, htear, h₁.opens, step_openStore hload, hall, h₃.opens⟩

theorem take_line (hnone : cut ≠ 0) (hall : ¬(J.line n c).length ≤ cut) :
    (J.line n c).take cut <+: J.encode (J.record (n, c)) ∧ (J.line n c).take cut ≠ [] := by
  unfold line at hall ⊢
  rw [length_append, length_singleton] at hall
  rw [take_append_of_le_length (by omega)]
  refine ⟨ take_prefix _ _, fun hnil => ?_⟩
  rcases take_eq_nil_iff.mp hnil with hzero | hempty
  · exact hnone hzero
  · exact encode_ne_nil _ hempty

section

variable (h : J.Tidy s cs n)

include h

/-- A store with a torn line at its end can be opened. -/
theorem Tidy.load_torn (hp : p <+: J.encode (J.record (n + 1, c))) (hne : p ≠ []) :
    ∃ kept now, (kept = cs ∨ kept = cs ++ [c]) ∧
      J.load { s with file := s.file ++ p, memory := none } = .ok now ∧ now.sequence ≤ n + 1 ∧
      now.value = kept.foldl J.apply J.initial := by
  obtain ⟨d, hs, hd, hvalue⟩ := h.files
  have hfiles : { s with file := s.file ++ p, memory := none } = J.files d p none := by
    rw [hs]
    simp [Journal.files]
  rw [hfiles, Journal.load_torn hp hne]
  by_cases hwhole : p = J.encode (J.record (n + 1, c))
  · rw [if_pos hwhole, absorb, if_neg (by rw [hd.last]; exact Nat.not_succ_le_self n)]
    exact ⟨_, _, .inr rfl, rfl, le_rfl, by rw [foldl_concat, hvalue]⟩
  · rw [if_neg hwhole]
    exact ⟨_, _, .inl rfl, rfl, hd.last ▸ Nat.le_succ n, hvalue⟩

/-- The torn store after it was opened. -/
theorem Tidy.torn (hp : p <+: J.encode (J.record (n + 1, c))) (hne : p ≠ [])
    (hload : J.load { s with file := s.file ++ p, memory := none } = .ok now)
    (hvalue : now.value = done.foldl J.apply J.initial) :
    J.Torn { s with file := s.file ++ p, memory := some now } [] done now.sequence where
  files := by
    obtain ⟨d, hs, -⟩ := h.files
    refine ⟨d, _, p, hp, hne, ?_⟩
    rw [hs]
    simp [Journal.files, Journal.text]
  current now' hnow' := by
    unfold Journal.current at hnow'
    split at hnow'
    · cases (congrArg Except.toOption hload).symm.trans hnow'
      exact ⟨rfl, hvalue⟩
    · cases hnow'
      exact ⟨rfl, hvalue⟩

/-- **What a torn append leads to.** The journal survives exactly if the crash left none or all of
the line, or if nothing is appended any more, or if the journal is emptied later. -/
theorem Tidy.survives_iff (hnow : J.current s = some now)
    (hroom : now.sequence + 1 + new.length ≤ J.limit) :
    J.Survives s cs c cut new ↔
      cut = 0 ∨ (J.line (now.sequence + 1) c).length ≤ cut ∨ new = [] ∨
        J.Repaired s c cut new := by
  have htear := tear_eq hnow (Nat.lt_of_lt_of_le (by omega) hroom) c cut
  have happended := (h.appended hnow c).closed
  obtain ⟨rfl, -⟩ := h.current hnow
  by_cases hnone : cut = 0
  · -- nothing of the line
    rw [hnone, take_zero, append_nil, ← hnone] at htear
    exact iff_of_true (h.closed.survives htear (.inl rfl) (by omega)) (.inl hnone)
  by_cases hall : (J.line (now.sequence + 1) c).length ≤ cut
  · -- the whole line
    rw [take_of_length_le hall] at htear
    exact iff_of_true (happended.survives htear (.inr rfl) hroom) (.inr (.inl hall))
  -- a part of it
  obtain ⟨hcut, hne⟩ := take_line hnone hall
  obtain ⟨kept, now₁, hkept, hload, hsequence, hvalue⟩ := h.load_torn hcut hne
  have hopen := step_openStore hload
  have hopens : J.Opens _ kept := ⟨now₁, hload, hvalue⟩
  rcases eq_or_ne new [] with rfl | hnew
  · refine iff_of_true ⟨kept, _, _, _, hkept, htear, hopens, hopen, rfl, ?_⟩
      (.inr (.inr (.inl rfl)))
    rw [map_nil, append_nil]
    exact hopens
  constructor
  · rintro ⟨kept', s₁, s₂, s₃, -, htear', ⟨now', hload', hvalue'⟩, hopen', hall', hopens'⟩
    cases Option.some.inj (htear.symm.trans htear')
    cases Except.ok.inj (hload.symm.trans hload')
    cases Option.some.inj (hopen.symm.trans hopen')
    exact .inr (.inr (.inr ⟨_, _, htear, hopen,
      ((h.torn hcut hne hload hvalue').opens_iff (by omega) (.inr hnew)).mp ⟨s₃, hall', hopens'⟩⟩))
  · rintro (hzero | hwhole | hnil | ⟨s₁, s₂, htear', hopen', hempties⟩)
    · exact absurd hzero hnone
    · exact absurd hwhole hall
    · exact absurd hnil hnew
    · cases Option.some.inj (htear.symm.trans htear')
      cases Option.some.inj (hopen.symm.trans hopen')
      obtain ⟨s₃, hall, hlast⟩ :=
        ((h.torn hcut hne hload hvalue).opens_iff (by omega) (.inr hnew)).mpr hempties
      exact ⟨kept, _, _, s₃, hkept, htear, hopens, hopen, hall, hlast⟩

end

end Torn

end Journal

end LineJournal

end BetterMQ
