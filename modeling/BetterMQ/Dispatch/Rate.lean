import BetterMQ.Dispatch.Flow

/-!
# Rate windows (`RateWindow`, `spawn_lane_drainer`)

One lane, with its drainer between the submits and the ends of deliveries; what the other lanes do
shows in what the drainer finds at the global maximum. The count of deliveries started in the
current window stands beside the lane.

* **`window_counts_deliveries`** — if the drainer takes a token only for a lane with work, a window
  has at most `rate` starts, and a token is refused only after as many;
* **`token_without_delivery`** — a token taken for an empty lane is missing later.
-/

namespace BetterMQ

/-- `try_acquire` begins a new window. -/
def RateWindow.over (w : RateWindow) (nowMs : Int64) : Prop :=
  (w.periodSecs * 1000).toInt64.toInt
    ≤ Max.max (-2 ^ 63) (min (2 ^ 63 - 1) (nowMs.toInt - w.periodStartMs.toInt))

instance (w : RateWindow) (nowMs : Int64) : Decidable (w.over nowMs) :=
  inferInstanceAs (Decidable (_ ≤ _))

/-- A lane, and the deliveries started in its current window. -/
structure Metered where
  lane : Lane
  started : Nat

inductive MeterEvent where
  /-- The second half of `submit`. -/
  | push (work : OrderedWork)
  | notify
  /-- A delivery ends. -/
  | finish
  | drain (full critical : Bool) (nowMs : Int64)

namespace Metered

def step (m : Metered) : MeterEvent → Option Metered
  | .push work => some { m with lane.waitlist := m.lane.waitlist ++ [work] }
  | .notify => some { m with lane.notified := true }
  | .finish => some { m with lane.active := m.lane.active - 1 }
  | .drain full critical nowMs =>
    match m.lane.drainer with
    | .counted _ _ => some ⟨{ m.lane with drainer := .top }, m.started + 1⟩
    | .acquireRate _ =>
      (m.lane.advance full critical nowMs).map
        (⟨·, if m.lane.rate.over nowMs then 0 else m.started⟩)
    | _ => (m.lane.advance full critical nowMs).map (⟨·, m.started⟩)

/-- The drainer asks for a token next. -/
@[grind =] def asks : DrainPhase → Bool
  | .acquireRate _ => true
  | _ => false

/-- The condition: a token is taken only while work waits. -/
def Fed (m : Metered) : MeterEvent → Prop
  | .drain _ _ _ => asks m.lane.drainer = true → m.lane.waitlist ≠ []
  | _ => True

instance (m : Metered) : (e : MeterEvent) → Decidable (Fed m e)
  | .drain _ _ _ => inferInstanceAs (Decidable (_ → _))
  | .push _ | .notify | .finish => .isTrue trivial

/-- The drainer has a token for a delivery that has not started. -/
@[grind =] def holding : DrainPhase → Nat
  | .pop _ | .popped _ _ | .counted _ _ => 1
  | _ => 0

/-- Every token of the window is a delivery. -/
structure Inv (limits : Limits) (m : Metered) : Prop where
  max : m.lane.rate.max = limits.rate
  period : m.lane.rate.periodSecs = limits.periodSecs
  count : m.lane.rate.count.toNat = m.started + holding m.lane.drainer
  le : m.lane.rate.count ≤ limits.rate
  fed : ∀ p, m.lane.drainer = .pop p → m.lane.waitlist ≠ []

variable {limits : Limits} {m m' : Metered}

theorem tryAcquire_eq {w : RateWindow} (h : w.max ≠ 0) (nowMs : Int64) : w.tryAcquire nowMs =
    if w.over nowMs then (true, { w with periodStartMs := nowMs, count := 1 })
    else if w.count < w.max then (true, { w with count := w.count + 1 }) else (false, w) := by
  have hpos : 0 < w.max := UInt32.pos_iff_ne_zero.mpr h
  rw [RateWindow.tryAcquire, if_neg h]
  by_cases hover : w.over nowMs
  · rw [if_pos hover]
    unfold RateWindow.over at hover
    simp only [if_pos hover, if_pos hpos]
    rfl
  · rw [if_neg hover]
    unfold RateWindow.over at hover
    simp only [if_neg hover]

theorem Inv.step (hrate : limits.rate ≠ 0) {e : MeterEvent} (h : Inv limits m) (hfed : Fed m e)
    (hstep : m.step e = some m') : Inv limits m' := by
  obtain ⟨hmax, hperiod, hcount, hle, hpop⟩ := h
  cases e with
  | push work =>
    cases hstep
    exact ⟨hmax, hperiod, hcount, hle, by simp⟩
  | notify | finish =>
    cases hstep
    exact ⟨hmax, hperiod, hcount, hle, hpop⟩
  | drain full critical nowMs =>
    rw [Metered.step] at hstep
    split at hstep
    · cases hstep
      constructor <;> grind
    · next p hd =>
      obtain ⟨lane', hadv, rfl⟩ := Option.map_eq_some_iff.mp hstep
      have hacquire := tryAcquire_eq (hmax ▸ hrate) nowMs
      rw [Lane.advance, hd] at hadv
      have hwork : m.lane.waitlist ≠ [] := hfed (by rw [hd, asks])
      cases hadv
      rw [hacquire]
      by_cases hover : m.lane.rate.over nowMs
      · simp only [if_pos hover]
        constructor <;> grind
      · have hnext (h : m.lane.rate.count < m.lane.rate.max) :
            (m.lane.rate.count + 1).toNat = m.lane.rate.count.toNat + 1 := by
          have := UInt32.lt_iff_toNat_lt.mp h
          have := m.lane.rate.max.toNat_lt
          rw [UInt32.toNat_add, UInt32.toNat_one, Nat.mod_eq_of_lt (by omega)]
        simp only [if_neg hover]
        constructor <;> grind
    · obtain ⟨lane', hadv, rfl⟩ := Option.map_eq_some_iff.mp hstep
      rw [Lane.advance] at hadv
      constructor <;> grind [FlowController.pop_eq_none]

/-- Short of overflows a window is over after its period. -/
theorem over_iff {w : RateWindow} (h : w.periodSecs.toNat * 1000 < 2 ^ 63) (nowMs : Int64) :
    w.over nowMs ↔ (w.periodSecs.toNat * 1000 : Int) ≤ nowMs.toInt - w.periodStartMs.toInt := by
  have hperiod : (w.periodSecs * 1000).toInt64.toInt = w.periodSecs.toNat * 1000 := by
    have hmul : (w.periodSecs * 1000).toBitVec.toNat = w.periodSecs.toNat * 1000 := by
      exact Nat.mod_eq_of_lt (by simp; omega)
    show (w.periodSecs * 1000).toBitVec.toInt = _
    rw [BitVec.toInt_eq_toNat_of_lt (by omega), hmul]
    rfl
  rw [RateWindow.over]
  omega

/-- **Rate windows**: if tokens are taken only while work waits, at most `rate` deliveries start in
a window, a token is refused only if as many did, and the window ends with its period. -/
theorem window_counts_deliveries (hrate : limits.rate ≠ 0)
    (hperiod : limits.periodSecs.toNat * 1000 < 2 ^ 63) {startMs : Int64} {events : List MeterEvent}
    (hrun : Run step Fed ⟨.new limits startMs, 0⟩ events m) :
    m.started ≤ limits.rate.toNat ∧ (asks m.lane.drainer = true → ∀ nowMs,
      ((m.lane.rate.tryAcquire nowMs).1 = false → m.started = limits.rate.toNat) ∧
      (m.lane.rate.over nowMs ↔ (limits.periodSecs.toNat * 1000 : Int)
        ≤ nowMs.toInt - m.lane.rate.periodStartMs.toInt)) := by
  have hinv : Inv limits m := Run.invariant (Inv limits)
    (fun _ _ _ h hfed hstep => h.step hrate hfed hstep) hrun
    ⟨rfl, rfl, rfl, UInt32.zero_le, nofun⟩
  obtain ⟨hmax, hsecs, hcount, hle, -⟩ := hinv
  have hle' := UInt32.le_iff_toNat_le.mp hle
  refine ⟨by omega, fun hasks nowMs => ⟨fun hrefused => ?_, ?_⟩⟩
  · have hnone : holding m.lane.drainer = 0 := by cases hd : m.lane.drainer <;> grind
    rw [tryAcquire_eq (hmax ▸ hrate)] at hrefused
    grind
  · rw [← hsecs] at hperiod ⊢
    exact over_iff hperiod nowMs

theorem one_le_one : (1 : UInt32) ≤ 1 := UInt32.le_refl 1

def once : Limits := ⟨1, 1, 60, one_le_one, by decide⟩

/-- The drainer makes a number of accesses. -/
def drains (n : Nat) : List MeterEvent := List.replicate n (.drain false false 0)

theorem one_delivery_in_window : ∃ m, Run step Fed ⟨.new once 0, 0⟩
    (.push ⟨hookMessage 1, 0⟩ :: drains 9) m ∧ m.started ≤ 1 := by
  refine exists_and_of (by decide +kernel) fun m hrun => ?_
  exact (window_counts_deliveries (by decide) (by decide) hrun).1

/-- **A token without a delivery**: the drainer of an empty lane takes the only token of the minute,
and the message that comes then is refused though no delivery was started. -/
theorem token_without_delivery : ∃ m, AnyRun step ⟨.new once 0, 0⟩
    (drains 7 ++ .push ⟨hookMessage 1, 0⟩ :: .notify :: drains 6) m ∧
    asks m.lane.drainer = true ∧ m.lane.waitlist ≠ [] ∧
    (m.lane.rate.tryAcquire 0).1 = false ∧ m.started = 0 := by
  decide +kernel

end Metered

end BetterMQ
