import BetterMQ.Controller.Shards

/-!
# The fan-out outbox

What each command does to an entry of the outbox, and what that makes of an entry between its
acceptance and its collection.

* **`fenced_of_command`** — one command: a payload changes by the lease holder's update only;
* **`outbox_fenced`** — every state the controller reaches.
-/

namespace BetterMQ.Controller

open BetterMQ

variable {s s' : ControllerState} {c : ControllerCommand}

/-! ## Fences of an entry -/

namespace FanoutOutboxEntry

variable {e e' e'' : FanoutOutboxEntry}

/-- The lease of `owner` covers the time `nowMs`. -/
def LeasedTo (e : FanoutOutboxEntry) (owner : Uuid) (nowMs : Int) : Prop :=
  e.ownerId = some owner ∧ nowMs < e.leaseExpiresAtMs

/-- Version and term do not fall, a new payload has a new version, and completed stays completed. -/
structure Before (e e' : FanoutOutboxEntry) : Prop where
  version : e.version ≤ e'.version
  payload : e'.payloadJson ≠ e.payloadJson → e.version < e'.version
  term : e.authorityTerm ≤ e'.authorityTerm
  completed : e.completed = true → e'.completed = true

theorem Before.refl (e : FanoutOutboxEntry) : e.Before e :=
  ⟨le_rfl, fun h => (h rfl).elim, le_rfl, fun h => h⟩

theorem Before.trans (h : e.Before e') (h' : e'.Before e'') : e.Before e'' := by
  obtain ⟨hversion, hpayload, hterm, hdone⟩ := h
  obtain ⟨hversion', hpayload', hterm', hdone'⟩ := h'
  exact ⟨hversion.trans hversion', by grind, hterm.trans hterm', hdone' ∘ hdone⟩

/-- What a command that keeps the entry `id` does to it. -/
structure Fenced (id : Uuid) (c : ControllerCommand) (e e' : FanoutOutboxEntry) : Prop where
  before : e.Before e'
  payload : e'.payloadJson ≠ e.payloadJson → ∃ owner payload completed nowMs,
    c = .updateFanout id owner e.version payload completed nowMs e.authorityTerm ∧
      e.LeasedTo owner nowMs

theorem Fenced.refl (id : Uuid) (c : ControllerCommand) (e : FanoutOutboxEntry) : Fenced id c e e :=
  ⟨.refl e, fun h => (h rfl).elim⟩

end FanoutOutboxEntry

open FanoutOutboxEntry

variable {id : Uuid} {e e' : FanoutOutboxEntry}

/-- A completed entry has no owner, so nobody can change it. -/
def Released (s : ControllerState) : Prop :=
  ∀ id e, s.fanoutOutbox.lookup id = some e → e.completed = true → e.ownerId = none

theorem lookup_of_erased {t : Table Uuid FanoutOutboxEntry}
    (dead : List (Sigma fun _ : Uuid => FanoutOutboxEntry))
    (h : (dead.foldl (fun outbox e => outbox.erase e.1) t).lookup id = some e) :
    t.lookup id = some e := by
  induction dead generalizing t with
  | nil => exact h
  | cons d dead ih =>
    have := ih h
    by_cases hid : id = d.1
    · subst hid
      rw [AList.lookup_erase] at this
      cases this
    · rwa [AList.lookup_erase_ne hid] at this

theorem lookup_setFanout (s : ControllerState) (k id : Uuid) (x : FanoutOutboxEntry) :
    (s.setFanout k x).fanoutOutbox.lookup id
      = if id = k then some x else s.fanoutOutbox.lookup id := by
  unfold ControllerState.setFanout
  split
  · next h => rw [h, AList.lookup_insert]
  · next h => rw [AList.lookup_insert_ne h]

/-- An entry after a command is new, or what the command made of the one before. -/
theorem fenced_of_command (hs : Released s) (h : applyCommand s c = .ok s') :
    Released s' ∧ ∀ id e', s'.fanoutOutbox.lookup id = some e' →
      ∀ e, s.fanoutOutbox.lookup id = some e → Fenced id c e e' := by
  by_cases hpart : c.part = .fanout
  · cases c with
    | acceptFanout k =>
      rw [applyCommand] at h
      grind [Released, lookup_setFanout, Fenced.refl, invalid]
    | claimFanout k =>
      obtain ⟨x, hx, h | ⟨hopen, rfl, hterm, -, rfl⟩⟩ := claimFanout_cases h
      · grind [Fenced.refl]
      · refine ⟨?_, fun id e' he' e he => ?_⟩
        · grind [Released, lookup_setFanout]
        · rw [lookup_setFanout] at he'
          split at he'
          · subst id
            cases hx.symm.trans he
            cases he'
            exact ⟨⟨Nat.le_succ _, fun h => (h rfl).elim, hterm, fun h => h⟩, fun h => (h rfl).elim⟩
          · grind [Fenced.refl]
    | updateFanout k owner v payload completed nowMs term =>
      obtain ⟨x, hx, rfl | ⟨rfl, rfl, howner, hlease, rfl⟩⟩ := updateFanout_cases h
      · grind [Fenced.refl]
      · refine ⟨?_, fun id e' he' e he => ?_⟩
        · grind [Released, lookup_setFanout]
        · rw [lookup_setFanout] at he'
          split at he'
          · subst id
            cases hx.symm.trans he
            cases he'
            -- the owner shows that the entry was not completed
            have hopen : x.completed = true → False := by grind [Released]
            exact ⟨⟨Nat.le_succ _, fun _ => Nat.lt_succ_self _, le_rfl, fun h => (hopen h).elim⟩,
              fun _ => ⟨_, _, _, _, rfl, howner, hlease⟩⟩
          · grind [Fenced.refl]
    | garbageCollectFanout ids before term =>
      cases h
      refine ⟨fun id e he => hs id e (lookup_of_erased _ he), fun id e' he' e he => ?_⟩
      cases he.symm.trans (lookup_of_erased _ he')
      exact .refl ..
    | _ => cases hpart
  · have := (applyCommand_frame h).2.1 hpart
    grind [Released, Fenced.refl]

/-- The command does not collect the entry `id`. -/
def KeepsFanout (id : Uuid) (s : ControllerState) (c : ControllerCommand) : Prop :=
  ((commandStep s c).bind fun s' => s'.fanoutOutbox.lookup id).isSome

theorem before_of_run {cs : List ControllerCommand} (hs : Released s)
    (h : Run commandStep (KeepsFanout id) s cs s') (he : s.fanoutOutbox.lookup id = some e)
    (he' : s'.fanoutOutbox.lookup id = some e') : e.Before e' := by
  induction h generalizing e with
  | nil =>
    cases he.symm.trans he'
    exact .refl _
  | cons hkeep hstep _ ih =>
    obtain ⟨hs₁, hfenced⟩ := fenced_of_command hs (commandStep_eq_some.mp hstep)
    rw [KeepsFanout, hstep] at hkeep
    obtain ⟨e₁, he₁⟩ := Option.isSome_iff_exists.mp hkeep
    exact (hfenced id e₁ he₁ e he).before.trans (ih hs₁ he₁ he')

/-- **The outbox is fenced**: in every state a controller can reach, an entry's payload is changed
only by the holder of its lease, with its version and term; versions, terms and completion only
advance until the entry is collected; and a lease shuts out other claims of its term. -/
theorem outbox_fenced {config : ClusterConfig} {shardCount : Nat} {shardTerms : Table Nat Nat}
    {scheduler : Option SchedulerLease} {s₀ s : ControllerState} {cs : List ControllerCommand}
    (hboot : ControllerState.fromV1 config shardCount shardTerms scheduler = .ok s₀)
    (hrun : CommandRun s₀ cs s) (id : Uuid) (e : FanoutOutboxEntry)
    (he : s.fanoutOutbox.lookup id = some e) :
    (∀ c s' e', commandStep s c = some s' → s'.fanoutOutbox.lookup id = some e' →
      Fenced id c e e') ∧
    (∀ cs' s' e', Run commandStep (KeepsFanout id) s cs' s' →
      s'.fanoutOutbox.lookup id = some e' → e.Before e') ∧
    ∀ owner owner' v nowMs ttlMs, e.LeasedTo owner nowMs → owner' ≠ owner →
      commandStep s (.claimFanout id owner' v nowMs ttlMs e.authorityTerm) = none := by
  have hs : Released s := by
    refine hrun.invariant Released (fun _ _ _ h _ hstep =>
      (fenced_of_command h (commandStep_eq_some.mp hstep)).1) ?_
    obtain ⟨nodes, -, hstate⟩ := bind_eq_ok hboot
    cases hstate
    simp [Released]
  refine ⟨fun c s' e' hstep he' => ?_, fun cs' s' e' hrun' he' => before_of_run hs hrun' he he', ?_⟩
  · exact (fenced_of_command hs (commandStep_eq_some.mp hstep)).2 id e' he' e he
  · intro owner owner' v nowMs ttlMs ⟨howner, hlease⟩ hne
    rw [Option.eq_none_iff_forall_ne_some]
    intro s' hstep
    obtain ⟨x, hx, hcases⟩ := claimFanout_cases (commandStep_eq_some.mp hstep)
    cases hx.symm.trans he
    grind [Released]

/-- A fan-out is accepted, and node 1 claims it. -/
def claimedFanout : List ControllerCommand :=
  [.acceptFanout 7 "t" "h" "p" 0 5, .claimFanout 7 (1 <<< 64) 1 10 100 5]

/-- Node 2 cannot claim it at the same time. -/
theorem outbox_fenced_claimed : ∃ s₀ s e, Booted s₀ ∧ CommandRun s₀ claimedFanout s ∧
      s.fanoutOutbox.lookup 7 = some e ∧ e.ownerId = some (1 <<< 64) ∧ 20 < e.leaseExpiresAtMs ∧
      commandStep s (.claimFanout 7 (2 <<< 64) 2 20 100 e.authorityTerm) = none := by
  exact Exists.imp (fun s₀ => Exists.imp fun s => Exists.imp fun e => and_imp_of fun hboot =>
    and_imp_of fun hrun => and_imp_of fun he => and_imp_of fun howner => and_of fun hlease =>
      (outbox_fenced hboot hrun 7 e he).2.2 _ _ 2 20 100 ⟨howner, hlease⟩ (by decide))
    (by decide +kernel)

end BetterMQ.Controller
