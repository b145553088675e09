import BetterMQ.Proto.Record

/-!
# The decision after a failed delivery

A destination that answers without success is tried again or given up. The local worker decides in
`deliver_message`, a fleet push in `push_http_only`: the two make the same tests and compute the
delay each in its own way.

* **`same_decision_iff`** — the two agree, and a delay is between one and the maximum of the
  message's backoff, exactly if the message is given up, or that maximum is not 0 and what
  `Retry-After` asks for neither overflows nor is cut by the maximum of the default backoff;
* **`retry_decisions_differ`** — two answers on which they differ.
-/

namespace BetterMQ

/-- What a failed delivery leads to. The reason of a dead letter is left out. -/
inductive RetryDecision where
  | deadLetter
  /-- The attempts so far and the delay. -/
  | retry (attempts delayMs : Nat)
  deriving DecidableEq

/-- The part of the worker's configuration that is read. `scaled` is
`initial_ms * multiplier.powi(pow)`, cut at `max_ms` and rounded, which is computed in `f64`. -/
structure RetryConfig where
  defaultBackoff : RetryBackoff
  nonRetryStatusCodes : List UInt16
  scaled : RetryBackoff → Nat → Nat

/-- What the decision reads: the message, the attempts of its retry record, and the answer. -/
structure FailedDelivery where
  maxRetries : UInt32
  retryBackoff : Option RetryBackoff
  priorAttempts : Option UInt32
  status : UInt16
  /-- The header `Retry-After`, if it is a number of seconds. -/
  retryAfter : Option UInt64

/-- The attempts with this one: `saturating_add(1)`. -/
def FailedDelivery.attempts (d : FailedDelivery) : Nat :=
  min ((d.priorAttempts.getD 0).toNat + 1) (2 ^ 32 - 1)

namespace RetryConfig

variable (cfg : RetryConfig) (d : FailedDelivery)

/-- `delay_ms`. -/
def delayMs (backoff : RetryBackoff) (attempt : Nat) : Nat :=
  match backoff.kind with
  | .fixed => backoff.initialMs.toNat
  | .exponential => cfg.scaled backoff (min attempt 16)

def backoff : RetryBackoff := d.retryBackoff.getD cfg.defaultBackoff

/-- The tests both make, with the milliseconds `Retry-After` stands for. `schedule_retry` raises the
delay to one, as `push_http_only` does itself. -/
def decision (retryAfterMs : Option Nat) : RetryDecision :=
  if d.status ∈ cfg.nonRetryStatusCodes then .deadLetter
  else if d.attempts > d.maxRetries.toNat then .deadLetter
  else
    let waitMs := retryAfterMs.getD (cfg.delayMs (cfg.backoff d) d.attempts)
    .retry d.attempts (max (min waitMs (cfg.backoff d).maxMs.toNat) 1)

/-- `deliver_message` after an answer that is no success. The product wraps, as it does in a build
without overflow checks. -/
def deliverMessage : RetryDecision :=
  cfg.decision d (d.retryAfter.map fun secs =>
    min (secs.toNat * 1000 % 2 ^ 64) cfg.defaultBackoff.maxMs.toNat)

/-- `push_http_only` after such an answer, with `saturating_mul`. Its errors `NonRetryable` and
`RetryExhausted` make the caller dead-letter the message. -/
def pushHttpOnly : RetryDecision :=
  cfg.decision d (d.retryAfter.map fun secs => min (secs.toNat * 1000) (2 ^ 64 - 1))

/-- The two decide the same, and a delay stays between one and the maximum. -/
def SameDecision : Prop :=
  cfg.deliverMessage d = cfg.pushHttpOnly d ∧
    ∀ attempts delayMs, cfg.deliverMessage d = .retry attempts delayMs →
      1 ≤ delayMs ∧ delayMs ≤ (cfg.backoff d).maxMs.toNat

def GivenUp : Prop := d.status ∈ cfg.nonRetryStatusCodes ∨ d.attempts > d.maxRetries.toNat

/-- What `Retry-After` asks for, cut at the maximum of the message, is at most one, or survives the
product and the maximum of the default backoff. -/
def Honoured (secs : UInt64) : Prop :=
  let asked := min (secs.toNat * 1000) (cfg.backoff d).maxMs.toNat
  asked ≤ 1 ∨ asked ≤ secs.toNat * 1000 % 2 ^ 64 ∧ asked ≤ cfg.defaultBackoff.maxMs.toNat

variable {cfg d}

theorem decision_of_givenUp (h : cfg.GivenUp d) (retryAfterMs : Option Nat) :
    cfg.decision d retryAfterMs = .deadLetter := by
  unfold decision
  rcases h with hstatus | hspent
  · exact if_pos hstatus
  · rw [if_pos hspent, ite_self]

theorem decision_of_not_givenUp (h : ¬cfg.GivenUp d) (retryAfterMs : Option Nat) :
    cfg.decision d retryAfterMs = .retry d.attempts
      (max (min (retryAfterMs.getD (cfg.delayMs (cfg.backoff d) d.attempts))
        (cfg.backoff d).maxMs.toNat) 1) := by
  obtain ⟨hstatus, hleft⟩ := not_or.mp h
  rw [decision, if_neg hstatus, if_neg hleft]

/-- A delay lies between one and the maximum exactly if the maximum is not 0. -/
theorem delay_bounds_iff (h : ¬cfg.GivenUp d) (retryAfterMs : Option Nat) :
    (∀ attempts delayMs, cfg.decision d retryAfterMs = .retry attempts delayMs →
      1 ≤ delayMs ∧ delayMs ≤ (cfg.backoff d).maxMs.toNat) ↔ 0 < (cfg.backoff d).maxMs.toNat := by
  rw [decision_of_not_givenUp h]
  constructor
  · intro hall
    have := hall _ _ rfl
    omega
  · rintro hpos attempts delayMs heq
    obtain ⟨-, rfl⟩ := RetryDecision.retry.inj heq
    omega

/-- The two delays of one request, whose product became `wrapped` in the local worker. -/
theorem delays_eq_iff {asked wrapped cap most : Nat} (hwrapped : wrapped ≤ asked)
    (hmost : most < 2 ^ 64) :
    max (min (min wrapped cap) most) 1 = max (min (min asked (2 ^ 64 - 1)) most) 1 ↔
      min asked most ≤ 1 ∨ min asked most ≤ wrapped ∧ min asked most ≤ cap := by
  have hfleet : min (min asked (2 ^ 64 - 1)) most = min asked most := by omega
  have hlocal : min (min wrapped cap) most = min (min asked most) (min wrapped cap) := by omega
  omega

/-- **When the local worker and the fleet push take the same retry decision.** -/
theorem same_decision_iff (cfg : RetryConfig) (d : FailedDelivery) :
    cfg.SameDecision d ↔ cfg.GivenUp d ∨
      0 < (cfg.backoff d).maxMs.toNat ∧ ∀ secs, d.retryAfter = some secs → cfg.Honoured d secs := by
  unfold SameDecision deliverMessage pushHttpOnly
  by_cases hup : cfg.GivenUp d
  · simp [hup, decision_of_givenUp hup]
  · rw [delay_bounds_iff hup, or_iff_right hup, and_comm]
    refine and_congr_right fun hpos => ?_
    simp only [decision_of_not_givenUp hup, RetryDecision.retry.injEq, true_and]
    cases d.retryAfter with
    | none => simp
    | some secs =>
      simp only [Option.map_some, Option.getD_some, Option.some.injEq, forall_eq']
      exact delays_eq_iff (Nat.mod_le _ _) (UInt64.toNat_lt _)

/-- The default backoff of the broker. `multiplier` is 2.0. -/
def brokerDefault : RetryConfig where
  defaultBackoff := ⟨.exponential, 500, 30000, 0x4000000000000000⟩
  nonRetryStatusCodes := []
  scaled backoff pow := min (backoff.initialMs.toNat * 2 ^ pow) backoff.maxMs.toNat

/-- A message with a maximum of ten minutes, and an answer that asks for one minute: the local
worker waits 30 seconds. A number of seconds whose product wraps makes it wait 384 milliseconds. -/
theorem retry_decisions_differ :
    ¬brokerDefault.SameDecision ⟨3, some ⟨.fixed, 1000, 600000, 0⟩, none, 503, some 60⟩ ∧
      brokerDefault.deliverMessage ⟨3, some ⟨.fixed, 1000, 600000, 0⟩, none, 503, some 60⟩
        = .retry 1 30000 ∧
      brokerDefault.pushHttpOnly ⟨3, some ⟨.fixed, 1000, 600000, 0⟩, none, 503, some 60⟩
        = .retry 1 60000 ∧
      brokerDefault.deliverMessage ⟨3, none, none, 503, some 18446744073709552⟩ = .retry 1 384 ∧
      brokerDefault.pushHttpOnly ⟨3, none, none, 503, some 18446744073709552⟩ = .retry 1 30000 := by
  refine ⟨fun h => absurd h.1 ?_, ?_⟩ <;> decide +kernel

end RetryConfig

end BetterMQ
