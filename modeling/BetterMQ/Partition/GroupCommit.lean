import BetterMQ.Storage.Checkpoint

/-!
# Group commit

One actor owns the log of a shard. Callers send it commands through a queue; those that wait for a
commit are collected into a round, which one flush answers. A caller whose offset is below the
published watermark is answered without the actor.

* **`ShardActor.step_inv`** — the published watermark stays behind the log's own, which stays behind
  the fsyncs, through every command and every round;
* **`commit_tickets_are_durable`** — so a ticket that resolves is for records an fsync has covered;
* **`requests_are_answered_once`** — no commit request is lost or answered twice.
-/

namespace BetterMQ

open List Option

variable {env : Env} {shard : UInt32} {fmt : WalFormat} {first : Nat} {c : Codec} {s : Sys}

/-! ## The actor -/

inductive ShardCommand where
  | appendBatch (partition : UInt32) (items : List Item) (fence : Option Nat)
  | appendRaw (partition : UInt32) (frame : Bytes) (expected : Option Nat)
  | readRange (partition : UInt32) (offset max : Nat)
  | highWatermark
  | purge (offset : Nat)
  | gcSealed (watermark : Nat)
  | commit (offset : Nat)
  | flush
  /-- `due` says whether the group interval has elapsed when the command is processed. -/
  | flushIfDue (due : Bool)
  | flushCount
  | injectFsyncFailure

inductive ShardReply where
  | appended (result : Except LogError (List (StoredMessage × Bytes)))
  | stored (result : Except LogError StoredMessage)
  | messages (result : Except LogError (List StoredMessage))
  | count (result : Except LogError Nat)
  | purged (result : Bool)
  | done (result : Except LogError Unit)

/-- Why a ticket is refused. -/
inductive CommitError where
  | stopped (message : String)
  | flush (error : LogError)
  deriving DecidableEq

/-- What a commit ticket for an offset resolves to. -/
abbrev Ticket := Nat × Except CommitError Nat

/-- A round that is over: its flush, when it needed one, and the tickets of its waiters. -/
structure CommitRound where
  flush : Option (Except LogError Unit)
  tickets : List Ticket

/-- `ShardHandle` and `run_actor`. -/
structure ShardActor where
  backend : Sys
  /-- The watermark callers see. -/
  committedHwm : Nat
  queue : List ShardCommand
  /-- The offsets waited for in the round that is being collected. -/
  waiters : Option (List Nat)
  /-- Calls of `request_commit` that found their offset committed and have yet to load the watermark
  they return. -/
  loading : List Nat
  /-- The tickets such calls have returned. -/
  answered : List Ticket
  rounds : List CommitRound

namespace ShardActor

def new (backend : Sys) : ShardActor :=
  ⟨backend, backend.committedHwm, [], none, [], [], []⟩

/-- Every ticket that has been resolved. -/
def tickets (a : ShardActor) : List Ticket := a.answered ++ a.rounds.flatMap CommitRound.tickets

def publishBackendHwm (a : ShardActor) : ShardActor :=
  { a with committedHwm := a.backend.committedHwm }

/-- `process_non_commit`, with the reply. -/
def processNonCommit (env : Env) (a : ShardActor) : ShardCommand → Option (ShardReply × ShardActor)
  | .appendBatch partition items fence =>
    let r := BetterMQ.appendBatch env partition items fence a.backend
    some (.appended r.1, publishBackendHwm { a with backend := r.2 })
  | .appendRaw partition frame expected =>
    let r := appendRawFrame env partition frame expected a.backend
    some (.stored r.1, publishBackendHwm { a with backend := r.2 })
  | .readRange partition offset max =>
    some (.messages (BetterMQ.readRange env a.backend.disk a.backend.log partition offset max), a)
  | .highWatermark => some (.count (.ok a.backend.log.highWatermark), a)
  | .purge offset =>
    let r := purgeOffset offset a.backend
    some (.purged (r.1.toOption.getD false), { a with backend := r.2 })
  | .gcSealed watermark =>
    let r := gcSealedBelow watermark a.backend
    some (.count r.1, { a with backend := r.2 })
  | .flush =>
    let r := sync a.backend
    some (.count (r.1.map fun _ => r.2.committedHwm), publishBackendHwm { a with backend := r.2 })
  | .flushIfDue due =>
    let r := BetterMQ.flushIfDue due a.backend
    some (.done r.1, publishBackendHwm { a with backend := r.2 })
  | .flushCount => some (.count (.ok a.backend.flushCount), a)
  | .injectFsyncFailure =>
    let r := BetterMQ.injectFsyncFailure a.backend
    some (.done r.1, { a with backend := r.2 })
  -- handled by the coordinator
  | .commit _ => none

/-- The answer to one waiter of a round whose barrier stands at `hwm`. -/
def barrier (hwm offset : Nat) : Ticket :=
  (offset,
    if hwm > offset then .ok hwm
    else .error (.stopped s!"commit barrier stopped at {hwm}, below requested offset {offset}"))

def commitWaiters (a : ShardActor) (waiters : List Nat) : ShardActor :=
  let needsFlush := waiters.any fun offset => a.backend.committedHwm ≤ offset
  let r := if needsFlush then sync a.backend else (.ok (), a.backend)
  let a := publishBackendHwm { a with backend := r.2 }
  let tickets := match r.1 with
    | .ok _ => waiters.map (barrier r.2.committedHwm)
    | .error e => waiters.map fun offset => (offset, .error (.flush e))
  { a with rounds := a.rounds ++ [⟨if needsFlush then some r.1 else none, tickets⟩] }

end ShardActor

/-- One atomic step of a caller or of the actor. -/
inductive ShardEvent where
  /-- A caller sends a command. A full queue refuses it, which changes nothing. -/
  | send (command : ShardCommand)
  /-- The first load of `request_commit`: the fast path, or a command. -/
  | requestCommit (offset : Nat)
  /-- The second load of a call on the fast path. -/
  | load (call : Nat)
  /-- The actor takes the next command. -/
  | receive
  /-- The linger of the round is over. -/
  | deadline

namespace ShardActor

def step (env : Env) (a : ShardActor) : ShardEvent → Option ShardActor
  | .send command => some { a with queue := a.queue ++ [command] }
  | .requestCommit offset =>
    if a.committedHwm > offset then some { a with loading := a.loading ++ [offset] }
    else some { a with queue := a.queue ++ [.commit offset] }
  | .load call => a.loading[call]?.map fun offset =>
    { a with
      loading := a.loading.eraseIdx call
      answered := a.answered ++ [(offset, .ok a.committedHwm)] }
  | .receive =>
    match a.queue with
    | [] => none
    | .commit offset :: queue =>
      some { a with queue := queue, waiters := some (a.waiters.getD [] ++ [offset]) }
    | command :: queue => (processNonCommit env { a with queue := queue } command).map Prod.snd
  | .deadline => a.waiters.map fun waiters => commitWaiters { a with waiters := none } waiters

end ShardActor

/-- The operation of the log behind a command. -/
def ShardCommand.op : ShardCommand → Option LogOp
  | .appendBatch partition items fence => some (.appendBatch partition items fence)
  | .appendRaw partition frame expected => some (.appendRaw partition frame expected)
  | .purge offset => some (.purge offset)
  | .gcSealed watermark => some (.gc watermark)
  | .flush => some .sync
  | .flushIfDue due => some (.flushIfDue due)
  | .injectFsyncFailure => some .injectFsyncFailure
  | .readRange .. | .highWatermark | .flushCount | .commit _ => none

/-- A command is processed within the capacity of the log. -/
def ShardActor.EventOk (env : Env) (a : ShardActor) : ShardEvent → Prop
  | .receive => ∀ command ∈ a.queue.head?, ∀ op ∈ command.op, OpOk env a.backend.log op
  | _ => True

/-! ## What an fsync has covered -/

/-- The records at the start of these files that fsyncs have covered. -/
def syncedFront (c : Codec) (fmt : WalFormat) : List FileData → Nat
  | [] => 0
  | file :: files =>
    walRecords c fmt file.synced (file.bytes.take file.synced) +
      if file.synced < file.bytes.length then 0 else syncedFront c fmt files

/-- The records at the start of the log that fsyncs have covered, in the sealed segments and in
`active.wal`. -/
def Disk.syncedRecords (c : Codec) (d : Disk) : Nat :=
  match d.manifest with
  | .valid m =>
    syncedFront c (if isV2 m then .v2 else .v1) (d.segments.map Prod.snd ++ d.wal.toList)
  | _ => 0

section Synced

variable {c : Codec}

theorem walRecords_whole {bs : List (Batch c)} (hok : FileOk fmt first bs) :
    walRecords c fmt (fileBytes fmt shard first bs).length (fileBytes fmt shard first bs)
      = (records bs).length := by
  have hcount : walRecords c fmt _ (fileBytes fmt shard first bs ++ []) = _ :=
    walRecords_fileBytes hok (.nil fmt) le_rfl
  rwa [append_nil] at hcount

theorem syncedFront_segments {ss : List (Sealed c)} {files : List NamedFile}
    (rest : List FileData) (hok : SealedFilesOk fmt first ss)
    (hfiles : files.map (fun f => (f.1, f.2.bytes)) = segmentFiles fmt shard first ss)
    (hsynced : ∀ f ∈ files, f.2.synced = f.2.bytes.length) :
    syncedFront c fmt (files.map Prod.snd ++ rest)
      = (sealedRecords ss).length + syncedFront c fmt rest := by
  induction ss generalizing first files with
  | nil =>
    have hnil : files = [] := map_eq_nil_iff.mp hfiles
    simp [hnil]
  | cons s ss ih =>
    obtain ⟨name, bs⟩ := s
    obtain ⟨⟨fname, data⟩, files', rfl, hhead, htail⟩ := map_eq_cons_iff.mp hfiles
    obtain ⟨rfl, hbytes⟩ := Prod.mk.inj hhead
    obtain ⟨⟨hfile, -⟩, hrest⟩ := hok
    have hwhole : data.synced = data.bytes.length := hsynced _ (.head _)
    have hmore := ih hrest htail fun f hf => hsynced f (.tail _ hf)
    rw [map_cons, cons_append, syncedFront, hwhole, take_length,
      if_neg (Nat.lt_irrefl _), hbytes, walRecords_whole hfile, hmore, sealedRecords_cons,
      length_append, Nat.add_assoc]

/-- Where segments are fsynced, the fsyncs have covered the durable part of the layout. -/
theorem OnDisk.syncedRecords_eq {m : WalManifest} {L : Layout c} {tail : Bytes} {d : Disk}
    (h : OnDisk fmt m true L tail d) : d.syncedRecords c = L.durableFrames.length := by
  have hformat : (if isV2 m then WalFormat.v2 else .v1) = fmt := by
    rw [isV2, h.format]
    cases fmt <;> rfl
  have hwal : syncedFront c fmt d.wal.toList = (records L.durable).length := by
    rcases h.wal with hsome | ⟨hnone, hactive, -⟩
    · rw [hsome, toList_some, syncedFront, syncedFront, ite_self, Layout.active,
        fileBytes_append, append_assoc, take_left]
      exact walRecords_whole (fileOk_append.mp h.activeOk).1
    · rw [hnone, (append_eq_nil_iff.mp hactive).1]
      rfl
  rw [Disk.syncedRecords, h.manifest]
  dsimp only
  rw [hformat, syncedFront_segments _ h.sealedOk h.segments (h.synced rfl), hwal,
    Layout.durableFrames, length_append]

end Synced

/-! ## Soundness -/

namespace ShardActor

/-- The actor in front of a live log with the layout `L`. -/
structure Inv {c : Codec} (fmt : WalFormat) (L : Layout c) (a : ShardActor) : Prop where
  live : Live fmt true L a.backend
  published : a.committedHwm ≤ a.backend.committedHwm
  loading : ∀ offset ∈ a.loading, offset < a.committedHwm
  tickets : ∀ offset hwm, (offset, .ok hwm) ∈ a.tickets →
    offset < hwm ∧ offset < L.durableFrames.length
  rounds : ∀ round ∈ a.rounds, ∀ e, round.flush = some (.error e) →
    ∀ ticket ∈ round.tickets, ∃ e', ticket.2 = .error e'

section Inv

variable {a a' : ShardActor} {L L' : Layout env.codec} {command : ShardCommand} {reply : ShardReply}

theorem Inv.committed_le (h : Inv fmt L a) :
    a.backend.committedHwm ≤ a.backend.nextOffset := by
  rw [h.live.nextOffset]
  exact (h.live.committed rfl).trans L.durableFrames_prefix.length_le

theorem Inv.moved (h : Inv fmt L a) (hlive : Live fmt true L' s) (hgrows : L.Grows L')
    (hhwm : a.backend.committedHwm ≤ s.committedHwm) :
    Inv fmt L' { a with backend := s } where
  live := hlive
  published := h.published.trans hhwm
  __ := h
  tickets offset hwm hmem :=
    ⟨(h.tickets offset hwm hmem).1, (h.tickets offset hwm hmem).2.trans_le hgrows.durable.length_le⟩

theorem Inv.publish (h : Inv fmt L a) : Inv fmt L a.publishBackendHwm where
  __ := h
  published := Nat.le_refl _
  loading offset hmem := (h.loading offset hmem).trans_le h.published

theorem Inv.operate (henv : env.InPlace) (h : Inv fmt L a) {op : LogOp}
    (hok : OpOk env a.backend.log op) :
    ∃ L' : Layout env.codec, Inv fmt L' { a with backend := op.run env a.backend } := by
  obtain ⟨L', hstep, -⟩ := op.run_step henv h.live hok
  exact ⟨L', h.moved hstep.live hstep.grows
    ((LogOp.run_advances env op a.backend).committed h.committed_le).1⟩

/-- What a command does to the actor: at most one operation, which it may publish. -/
theorem processNonCommit_cases (h : processNonCommit env a command = some (reply, a')) :
    a' = a ∨ ∃ op ∈ command.op, a' = { a with backend := op.run env a.backend } ∨
      a' = publishBackendHwm { a with backend := op.run env a.backend } := by
  cases command with
  | appendBatch | appendRaw | flush | flushIfDue =>
    cases h
    exact .inr ⟨_, rfl, .inr rfl⟩
  | readRange | highWatermark | flushCount =>
    cases h
    exact .inl rfl
  | purge | gcSealed | injectFsyncFailure =>
    cases h
    exact .inr ⟨_, rfl, .inl rfl⟩
  | commit offset => cases h

theorem Inv.processNonCommit (henv : env.InPlace) (h : Inv fmt L a)
    (hok : ∀ op ∈ command.op, OpOk env a.backend.log op)
    (hprocess : ShardActor.processNonCommit env a command = some (reply, a')) :
    ∃ L' : Layout env.codec, Inv fmt L' a' ∧ a.committedHwm ≤ a'.committedHwm := by
  rcases processNonCommit_cases hprocess with rfl | ⟨op, hop, hmoved⟩
  · exact ⟨L, h, Nat.le_refl _⟩
  · obtain ⟨L', hinv⟩ := h.operate henv (hok op hop)
    rcases hmoved with rfl | rfl
    · exact ⟨L', hinv, Nat.le_refl _⟩
    · exact ⟨L', hinv.publish, hinv.published⟩

theorem barrier_ok {hwm offset offset' hwm' : Nat}
    (h : barrier hwm offset = (offset', .ok hwm')) : offset' < hwm' ∧ hwm' = hwm := by
  unfold barrier at h
  split at h
  · next hlt =>
    cases h
    exact ⟨hlt, rfl⟩
  · cases h

theorem Inv.answer (h : Inv fmt L a) {round : CommitRound}
    (htickets : ∀ offset hwm, (offset, .ok hwm) ∈ round.tickets →
      offset < hwm ∧ hwm ≤ a.backend.committedHwm)
    (hfailed : ∀ e, round.flush = some (.error e) →
      ∀ ticket ∈ round.tickets, ∃ e', ticket.2 = .error e') :
    Inv fmt L { a with rounds := a.rounds ++ [round] } where
  __ := h
  tickets offset hwm hmem := by
    rw [ShardActor.tickets, flatMap_append, ← append_assoc, flatMap_singleton] at hmem
    rcases mem_append.mp hmem with hold | hnew
    · exact h.tickets offset hwm hold
    · obtain ⟨hlt, hle⟩ := htickets offset hwm hnew
      exact ⟨hlt, (hlt.trans_le hle).trans_le (h.live.committed rfl)⟩
  rounds r hr := by
    rcases mem_snoc.mp hr with hold | rfl
    · exact h.rounds r hold
    · exact hfailed

section

variable (henv : env.InPlace) (h : Inv fmt L a)

include henv h

/-- **A round answers its waiters soundly**: with the watermark behind its flush, or all of them
with the error of the flush. -/
theorem Inv.commitWaiters (waiters : List Nat) :
    ∃ L' : Layout env.codec, Inv fmt L' (a.commitWaiters waiters) ∧
      a.committedHwm ≤ (a.commitWaiters waiters).committedHwm := by
  simp only [ShardActor.commitWaiters]
  generalize (waiters.any fun offset => a.backend.committedHwm ≤ offset) = needsFlush
  obtain ⟨L', hinv⟩ : ∃ L' : Layout env.codec, Inv fmt L' { a with
      backend := (if needsFlush then sync a.backend else (.ok (), a.backend)).2 } := by
    cases needsFlush with
    | true =>
      have hok : OpOk env a.backend.log .sync := trivial
      exact h.operate henv hok
    | false => exact ⟨L, h⟩
  generalize (if needsFlush then sync a.backend else (.ok (), a.backend)) = r at hinv ⊢
  obtain ⟨result, s⟩ := r
  refine ⟨L', hinv.publish.answer ?_ ?_, hinv.published⟩
  · intro offset hwm hmem
    cases result with
    | ok _ =>
      obtain ⟨waiter, -, hticket⟩ := mem_map.mp hmem
      obtain ⟨hlt, rfl⟩ := barrier_ok hticket
      exact ⟨hlt, Nat.le_refl _⟩
    | error e =>
      obtain ⟨waiter, -, hticket⟩ := mem_map.mp hmem
      cases hticket
  · intro e hfailed ticket hmem
    cases needsFlush with
    | true =>
      cases hfailed
      obtain ⟨waiter, -, rfl⟩ := mem_map.mp hmem
      exact ⟨_, rfl⟩
    | false => cases hfailed

/-- **Every step of a caller or the actor keeps the watermarks in order**, and what callers see does
not fall. -/
theorem step_inv
    {event : ShardEvent} (hok : a.EventOk env event) (hstep : a.step env event = some a') :
    ∃ L' : Layout env.codec, Inv fmt L' a' ∧ a.committedHwm ≤ a'.committedHwm := by
  cases event with
  | send command =>
    cases hstep
    exact ⟨L, { h with }, Nat.le_refl _⟩
  | requestCommit offset =>
    simp only [step] at hstep
    split at hstep
    · next hlt =>
      cases hstep
      refine ⟨L, { h with loading := ?_ }, Nat.le_refl _⟩
      intro o ho
      rcases mem_snoc.mp ho with hold | rfl
      · exact h.loading o hold
      · exact hlt
    · cases hstep
      exact ⟨L, { h with }, Nat.le_refl _⟩
  | load call =>
    obtain ⟨offset, hget, rfl⟩ := map_eq_some_iff.mp hstep
    have hlt := h.loading offset (mem_of_getElem? hget)
    refine ⟨L, { h with loading := ?_, tickets := ?_ }, Nat.le_refl _⟩
    · exact fun o ho => h.loading o (mem_of_mem_eraseIdx ho)
    · intro o hwm hmem
      rw [tickets, append_assoc] at hmem
      rcases mem_append.mp hmem with hold | hmem
      · exact h.tickets o hwm (mem_append_left _ hold)
      · rcases mem_append.mp hmem with hnew | hold
        · cases mem_singleton.mp hnew
          exact ⟨hlt, (hlt.trans_le h.published).trans_le (h.live.committed rfl)⟩
        · exact h.tickets o hwm (mem_append_right _ hold)
  | receive =>
    simp only [step] at hstep
    split at hstep
    · cases hstep
    · cases hstep
      exact ⟨L, { h with }, Nat.le_refl _⟩
    · next command queue _ hqueue =>
      obtain ⟨⟨reply, a₁⟩, hprocess, rfl⟩ := map_eq_some_iff.mp hstep
      have hinv : Inv fmt L { a with queue := queue } := { h with }
      have hhead : command ∈ a.queue.head? := by
        rw [hqueue]
        rfl
      obtain ⟨L', hinv', hle⟩ := hinv.processNonCommit henv (hok command hhead) hprocess
      exact ⟨L', hinv', hle⟩
  | deadline =>
    obtain ⟨waiters, -, rfl⟩ := map_eq_some_iff.mp hstep
    have hinv : Inv fmt L { a with waiters := none } := { h with }
    obtain ⟨L', hinv', hle⟩ := hinv.commitWaiters henv waiters
    exact ⟨L', hinv', hle⟩

end

end Inv

/-- What callers may rely on. -/
structure Sound (c : Codec) (a : ShardActor) : Prop where
  /-- What is published as committed has been fsynced. -/
  published : a.committedHwm ≤ a.backend.disk.syncedRecords c
  /-- A ticket that resolves is for an offset that has been fsynced, with all before it. -/
  tickets : ∀ offset hwm, (offset, .ok hwm) ∈ a.tickets →
    offset < hwm ∧ offset < a.backend.disk.syncedRecords c
  /-- A flush that fails fails its round. -/
  rounds : ∀ round ∈ a.rounds, ∀ e, round.flush = some (.error e) →
    ∀ ticket ∈ round.tickets, ∃ e', ticket.2 = .error e'

theorem Inv.sound {a : ShardActor} {L : Layout c} (h : Inv fmt L a) : Sound c a where
  published := by
    rw [h.live.onDisk.syncedRecords_eq]
    exact h.published.trans (h.live.committed rfl)
  tickets := by
    rw [h.live.onDisk.syncedRecords_eq]
    exact h.tickets
  rounds := h.rounds

theorem Inv.new {L : Layout c} (h : Live fmt true L s) : Inv fmt L (new s) :=
  ⟨h, Nat.le_refl _, nofun, nofun, nofun⟩

end ShardActor

/-- **Group commit is sound** on a log opened with nothing but fsynced batches in its WAL: in every
state of every interleaving, and what callers see as committed never falls. -/
theorem commit_tickets_are_durable (henv : env.InPlace) {events : List Event} {w : World}
    {log : PartitionLog}
    (hrun : Run (World.step env shard) (EventOk env shard true) .fresh events w)
    (hlog : w.log = some log) {before after : List ShardEvent} {a a' : ShardActor}
    (hbefore : Run (ShardActor.step env) (ShardActor.EventOk env) (.new (w.disk.sys log)) before a)
    (hafter : Run (ShardActor.step env) (ShardActor.EventOk env) a after a') :
    a.Sound env.codec ∧ a.committedHwm ≤ a'.committedHwm := by
  obtain ⟨L, hholds, -⟩ := World.run_holds henv (World.fresh_holds env.codec shard true) hrun
  obtain ⟨fmt, -, hlive, -⟩ := hholds.of_open hlog
  have hkeep : ∀ (s : ShardActor) event s',
      (∃ L : Layout env.codec, s.Inv fmt L) → s.EventOk env event → s.step env event = some s' →
        (∃ L' : Layout env.codec, s'.Inv fmt L') ∧ s.committedHwm ≤ s'.committedHwm := by
    rintro s event s' ⟨L, hinv⟩ hok hstep
    obtain ⟨L', hinv', hle⟩ := ShardActor.step_inv henv hinv hok hstep
    exact ⟨⟨L', hinv'⟩, hle⟩
  have hinv : ∃ L : Layout env.codec, a.Inv fmt L :=
    Run.invariant (fun s => ∃ L : Layout env.codec, s.Inv fmt L)
      (fun s event s' h hok hstep => (hkeep s event s' h hok hstep).1) hbefore ⟨L, .new hlive⟩
  have hle : a.committedHwm ≤ a'.committedHwm :=
    Run.related (fun s => ∃ L : Layout env.codec, s.Inv fmt L)
      (fun s s' => s.committedHwm ≤ s'.committedHwm) (fun _ => Nat.le_refl _) Nat.le_trans
      (fun s event s' h hok hstep => (hkeep s event s' h hok hstep).1)
      (fun s event s' h hok hstep => (hkeep s event s' h hok hstep).2) hafter hinv
  obtain ⟨L', hinv'⟩ := hinv
  exact ⟨hinv'.sound, hle⟩

instance (env : Env) (a : ShardActor) (event : ShardEvent) : Decidable (a.EventOk env event) := by
  cases event <;> unfold ShardActor.EventOk <;> infer_instance

/-- Two records in one batch; their waiters share a round whose flush fails, and then another. -/
def twoRounds : List ShardEvent :=
  [.send (.appendBatch 0 [(plainRecord 1, [1]), (plainRecord 2, [2])] none),
    .send .injectFsyncFailure,
    .requestCommit 0, .requestCommit 1, .receive, .receive, .receive, .receive, .deadline,
    .requestCommit 0, .receive, .deadline, .requestCommit 1, .load 0]

theorem waiters_share_a_flush :
    ∃ w log a, LocalRun true .fresh [.run (.openLog (unrolled .group) 2 0)] w ∧
      w.log = some log ∧
      Run (ShardActor.step localEnv) (ShardActor.EventOk localEnv)
        (.new (w.disk.sys log)) twoRounds a ∧
      a.tickets.length = 4 ∧ a.committedHwm = 2 ∧ a.Sound localEnv.codec := by
  exact Exists.imp (fun w => Exists.imp fun log => Exists.imp fun a => and_imp_of fun hrun =>
    and_imp_of fun hlog => and_imp_of fun hbefore => and_imp_of fun _ => and_of fun _ =>
      (commit_tickets_are_durable localEnv_inPlace hrun hlog hbefore (.nil a)).1)
    (by decide +kernel)

/-- **A ticket for a record no fsync has covered**: the process died before its flush, and the open
after that counts the record as committed. -/
theorem recovered_ticket_not_durable :
    ∃ w log a, AnyRun (World.step localEnv 0) .fresh (appends (unrolled .group) 1 ++
          [.crash fun _ => 1000, .run (.openLog (unrolled .group) 2 1)]) w ∧
      w.log = some log ∧
      Run (ShardActor.step localEnv) (ShardActor.EventOk localEnv)
        (.new (w.disk.sys log)) [.requestCommit 0, .load 0] a ∧
      a.tickets = [(0, .ok 1)] ∧ a.backend.disk.syncedRecords localEnv.codec = 0 := by
  decide +kernel

/-! ## Every request is answered once -/

/-- The offset that a command waits for. -/
def ShardCommand.awaits : ShardCommand → Option Nat
  | .commit offset => some offset
  | _ => none

/-- The commit that a step asks for. -/
@[simp] def ShardEvent.asks : ShardEvent → Option Nat
  | .send command => command.awaits
  | .requestCommit offset => some offset
  | _ => none

namespace ShardActor

variable {a a' : ShardActor} {e : ShardEvent}

/-- The commits asked for, wherever they are: answered, on the fast path, in the open round or in
the queue. -/
def asked (a : ShardActor) : List Nat :=
  a.tickets.map Prod.fst ++ a.loading ++ a.waiters.getD [] ++ a.queue.filterMap ShardCommand.awaits

theorem commitWaiters_tickets (waiters : List Nat) :
    (a.commitWaiters waiters).tickets.map Prod.fst = a.tickets.map Prod.fst ++ waiters := by
  simp only [commitWaiters, tickets, publishBackendHwm, flatMap_append, flatMap_singleton]
  split <;> simp [barrier, Function.comp_def]

theorem asked_step (h : a.step env e = some a') (offset : Nat) :
    a'.asked.count offset = a.asked.count offset + e.asks.toList.count offset := by
  cases e with
  | send command =>
    cases h
    cases hc : command.awaits <;> simp [asked, tickets, hc, Nat.add_assoc]
  | requestCommit o =>
    simp only [step] at h
    split at h <;> cases h <;>
      simp [asked, tickets, ShardCommand.awaits, count_cons] <;> omega
  | load call =>
    obtain ⟨o, hget, rfl⟩ := map_eq_some_iff.mp h
    obtain ⟨hlt, rfl⟩ := List.getElem?_eq_some_iff.mp hget
    have hmoved := (getElem_cons_eraseIdx_perm hlt).count_eq offset
    simp [asked, tickets, count_cons] at hmoved ⊢
    omega
  | receive =>
    simp only [step] at h
    split at h
    · cases h
    · next o queue hqueue =>
      cases h
      simp [asked, tickets, ShardCommand.awaits, hqueue, count_cons]
    · next command queue _ hqueue =>
      obtain ⟨⟨reply, a₁⟩, hprocess, rfl⟩ := map_eq_some_iff.mp h
      have hawaits : command.awaits = none := by
        cases command <;> first | rfl | cases hprocess
      rcases processNonCommit_cases hprocess with rfl | ⟨op, -, rfl | rfl⟩ <;>
        simp [asked, tickets, publishBackendHwm, hqueue, hawaits]
  | deadline =>
    obtain ⟨waiters, hw, rfl⟩ := map_eq_some_iff.mp h
    rw [asked, commitWaiters_tickets]
    simp [asked, tickets, commitWaiters, publishBackendHwm, hw]
    omega

end ShardActor

/-- **No commit request is lost or answered twice**: after any run each has its one ticket, or is in
one of the places where it waits for it. -/
theorem requests_are_answered_once {a a' : ShardActor} {events : List ShardEvent}
    (hrun : AnyRun (ShardActor.step env) a events a') :
    a'.asked.Perm (a.asked ++ events.filterMap ShardEvent.asks) := by
  refine perm_iff_count.mpr fun offset => ?_
  rw [count_append]
  induction hrun with
  | nil => rfl
  | @cons _ _ _ e _ _ hstep _ ih =>
    rw [ih, ShardActor.asked_step hstep]
    cases he : e.asks <;> simp [-ShardEvent.asks, he, count_cons]
    omega

theorem requests_of_two_rounds : ∃ w log a,
    AnyRun (World.step localEnv 0) .fresh
        [.run (.openLog (unrolled .group) 2 0)] w ∧ w.log = some log ∧
      AnyRun (ShardActor.step localEnv)
        (.new (w.disk.sys log)) twoRounds a ∧ a.asked.Perm [0, 1, 0, 1] := by
  exact Exists.imp (fun w => Exists.imp fun log => Exists.imp fun a => and_imp_of fun _ =>
    and_imp_of fun _ => and_of requests_are_answered_once) (by decide +kernel)

end BetterMQ
